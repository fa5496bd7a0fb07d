import TocinOS.Ext2Alloc

/-! The lookups of `kernel/ext2.c` on drives that may fail: the blocks that an inode points to,
directly and through indirect blocks. A block is transferred sector by sector, and the first sector
that fails ends the transfer. -/

namespace TocinOS.Ext2

def Fs.ptrsPerBlock (fs : Fs) : Nat := fs.blockSize / 4

namespace Faulty

/-- The state with the number of sector requests so far and the static buffer of
`ext2_read_indirect`. -/
structure Disk extends AllocState where
  time : Nat := 0
  indirectBuffer : Bytes := fun _ => 0

def Disk.after (d : Disk) (s : AllocState) (time : Nat) : Disk := { d with toAllocState := s, time }

def Disk.io (d : Disk) (s : State) (time : Nat) : Disk :=
  d.after { d.toAllocState with toState := s } time

section

variable (faults : Faults)

def ext2ReadBlock (fs : Fs) (blockNum : BitVec 32) (buffer : Bytes) (d : Disk) :
    Bool × Bytes × Disk :=
  let (ok, buffer, s, time) := tryReadBlock faults fs blockNum buffer d.toState d.time
  (ok, buffer, d.io s time)

def ext2WriteBlock (fs : Fs) (blockNum : BitVec 32) (buffer : Bytes) (d : Disk) : Bool × Disk :=
  let (ok, s, time) := tryWriteBlock faults fs blockNum buffer d.toState d.time
  (ok, d.io s time)

/-! ### Block pointers, in 32-bit arithmetic -/

def ext2ReadIndirect (fs : Fs) (indirectBlock index : BitVec 32) (d : Disk) : BitVec 32 × Disk :=
  if indirectBlock = 0 then (0, d)
  else
    match ext2ReadBlock faults fs indirectBlock d.indirectBuffer d with
    | (false, buffer, d) => (0, { d with indirectBuffer := buffer })
    | (true, buffer, d) =>
      let ptrsPerBlock := BitVec.ofNat 32 fs.blockSize / 4
      (if ptrsPerBlock ≤ index then 0
        else BitVec.ofNat 32 (LittleEndian.get buffer (4 * index.toNat) 4),
        { d with indirectBuffer := buffer })

def ext2GetInodeBlock (fs : Fs) (inode : Bytes) (blockIndex : BitVec 32) (d : Disk) :
    BitVec 32 × Disk :=
  let ptrs := BitVec.ofNat 32 fs.blockSize / 4
  if blockIndex < 12 then (iBlock inode blockIndex.toNat, d)
  else
    let blockIndex := blockIndex - 12
    if blockIndex < ptrs then ext2ReadIndirect faults fs (iBlock inode 12) blockIndex d
    else
      let blockIndex := blockIndex - ptrs
      if blockIndex < ptrs * ptrs then
        let (indirect1, d) := ext2ReadIndirect faults fs (iBlock inode 13) (blockIndex / ptrs) d
        if indirect1 = 0 then (0, d)
        else ext2ReadIndirect faults fs indirect1 (blockIndex % ptrs) d
      else
        let blockIndex := blockIndex - ptrs * ptrs
        let remaining := blockIndex % (ptrs * ptrs)
        let (indirect1, d) := ext2ReadIndirect faults fs (iBlock inode 14) (blockIndex / (ptrs * ptrs)) d
        if indirect1 = 0 then (0, d)
        else
          let (indirect2, d) := ext2ReadIndirect faults fs indirect1 (remaining / ptrs) d
          if indirect2 = 0 then (0, d)
          else ext2ReadIndirect faults fs indirect2 (remaining % ptrs) d

end

end Faulty

/-- The lookup on a drive without errors. -/
def ext2GetInodeBlock (fs : Fs) (inode : Bytes) (blockIndex : BitVec 32) (s : State) :
    BitVec 32 × State :=
  let (block, d) := Faulty.ext2GetInodeBlock noFaults fs inode blockIndex
    { toState := s, groupFree := fun _ => 0, freeBlocks := 0 }
  (block, d.toState)

/-! ### Block reads

Lookups and reads change the cache only, by a sequence of block reads. -/

inductive Reads (fs : Fs) (good : BitVec 32 → Prop) (s : State) : State → Prop
  | refl : Reads fs good s s
  | read {t : State} {b : BitVec 32} (buffer : Bytes) : Reads fs good s t → good b →
      Reads fs good s (ext2ReadBlock fs b buffer t).2

def Fresh (fs : Fs) (s : State) : Prop :=
  ∀ i < cacheSize, (s.blockCache i).valid = true →
    fs.stored (s.blockCache i).data = fs.block s.drives (s.blockCache i).blockNum

variable {fs : Fs} {good : BitVec 32 → Prop} {s t u : State}

theorem Reads.trans (h : Reads fs good s t) (h' : Reads fs good t u) : Reads fs good s u := by
  induction h' with
  | refl => exact h
  | read buffer _ hb ih => exact ih.read buffer hb

theorem Reads.drives (h : Reads fs good s t) : t.drives = s.drives := by
  induction h with
  | refl => rfl
  | read buffer _ _ ih => rw [ext2ReadBlock_drives, ih]

theorem Reads.coherent (h : Reads fs good s t) (hgood : ∀ b, good b → fs.Addressable b)
    (hs : Coherent fs s) : Coherent fs t := by
  induction h with
  | refl => exact hs
  | read buffer _ hb ih => exact (ih.read (hgood _ hb) buffer).2

theorem Coherent.fresh (h : Coherent fs s) : Fresh fs s := h.data

theorem Fresh.setEntry (h : Fresh fs s) {i : Nat} {e : CacheEntry} (counter : BitVec 32)
    (he : fs.stored e.data = fs.block s.drives e.blockNum) :
    Fresh fs { s with
      blockCache := Function.update s.blockCache i e, cacheAccessCounter := counter } := by
  intro j hj
  dsimp only
  by_cases hji : j = i
  · subst hji
    rw [Function.update_self]
    exact fun _ => he
  · rw [Function.update_of_ne hji]
    exact h j hj

theorem Fresh.getFree (h : Fresh fs s) : Fresh fs (ext2CacheGetFree s).2 := by
  intro j hj hv
  have hsame := ext2CacheGetFree_entry hv
  rw [hsame] at hv ⊢
  rw [ext2CacheGetFree_drives]
  exact h j hj hv

theorem Fresh.read (h : Fresh fs s) (b : BitVec 32) (buffer : Bytes) :
    (ext2ReadBlock fs b buffer s).1 = fs.loaded (fs.block s.drives b) buffer ∧
      Fresh fs (ext2ReadBlock fs b buffer s).2 := by
  rcases ext2CacheFind_cases b s with ⟨hfind, -⟩ | ⟨i, hi, hv, rfl, hfind⟩
  · simp only [ext2ReadBlock, hfind, readSectors_eq, true_and]
    apply h.getFree.setEntry
    rw [copyBytes_eq_loaded, stored_loaded, stored_loaded, ext2CacheGetFree_drives]
  · simp only [ext2ReadBlock, hfind]
    constructor
    · rw [Function.update_self, copyBytes_eq_loaded, h i hi hv]
    · exact h.setEntry _ (h i hi hv)

theorem Reads.fresh (h : Reads fs good s t) (hs : Fresh fs s) : Fresh fs t := by
  induction h with
  | refl => exact hs
  | read buffer _ _ ih => exact (ih.read _ buffer).2

/-! ### The block map -/

def Fs.pointer (fs : Fs) (drives : Drives) (block : BitVec 32) (index : Nat) : BitVec 32 :=
  if block = 0 ∨ fs.ptrsPerBlock ≤ index then 0
  else BitVec.ofNat 32 (LittleEndian.get (fs.bytes (fs.block drives block)) (4 * index) 4)

/-- Where the pointer to block `k` of a file is found: a slot of the inode, and the entries to
follow from there. -/
def Fs.route (fs : Fs) (k : Nat) : Nat × List Nat :=
  let ptrs := fs.ptrsPerBlock
  if k < 12 then (k, [])
  else if k - 12 < ptrs then (12, [k - 12])
  else if k - 12 - ptrs < ptrs * ptrs then
    (13, [(k - 12 - ptrs) / ptrs, (k - 12 - ptrs) % ptrs])
  else
    let rest := k - 12 - ptrs - ptrs * ptrs
    (14, [rest / (ptrs * ptrs), rest % (ptrs * ptrs) / ptrs, rest % (ptrs * ptrs) % ptrs])

def Fs.blockMap (fs : Fs) (drives : Drives) (inode : Bytes) (k : Nat) : BitVec 32 :=
  (fs.route k).2.foldl (fs.pointer drives) (iBlock inode (fs.route k).1)

def Fs.visits (fs : Fs) (drives : Drives) : BitVec 32 → List Nat → List (BitVec 32)
  | _, [] => []
  | block, index :: rest =>
    if block = 0 then [] else block :: fs.visits drives (fs.pointer drives block index) rest

/-- The blocks that a lookup reads on its way. -/
def Fs.path (fs : Fs) (drives : Drives) (inode : Bytes) (k : Nat) : List (BitVec 32) :=
  fs.visits drives (iBlock inode (fs.route k).1) (fs.route k).2

theorem foldl_pointer_zero (drives : Drives) (indices : List Nat) :
    indices.foldl (fs.pointer drives) 0 = 0 := by
  induction indices with
  | nil => rfl
  | cons index rest ih =>
    rw [List.foldl_cons, Fs.pointer, if_pos (.inl rfl)]
    exact ih

/-! ### Where the layout has the blocks -/

def Fs.layoutPointer (fs : Fs) (drives : Drives) (block : BitVec 32) (index : Nat) : BitVec 32 :=
  if block = 0 ∨ fs.ptrsPerBlock ≤ index then 0
  else BitVec.ofNat 32 (LittleEndian.get (fs.bytes (fs.layoutBlock drives block)) (4 * index) 4)

theorem Fs.foldl_layoutPointer {drives : Drives} {b : BitVec 32} {indices : List Nat}
    (h : ∀ c ∈ fs.visits drives b indices, fs.Addressable c) :
    indices.foldl (fs.layoutPointer drives) b = indices.foldl (fs.pointer drives) b := by
  induction indices generalizing b with
  | nil => rfl
  | cons index rest ih =>
    have hstep : fs.layoutPointer drives b index = fs.pointer drives b index := by
      by_cases hzero : b = 0
      · rw [Fs.layoutPointer, Fs.pointer, if_pos (.inl hzero), if_pos (.inl hzero)]
      · rw [Fs.visits, if_neg hzero] at h
        rw [Fs.layoutPointer, Fs.pointer, Fs.block_eq_layoutBlock (h b (List.mem_cons_self ..))]
    rw [List.foldl_cons, List.foldl_cons, hstep]
    refine ih fun c hc => h c ?_
    rw [Fs.visits]
    split
    · next hzero =>
      rw [hzero, Fs.pointer, if_pos (.inl rfl)] at hc
      cases rest with
      | nil => exact hc
      | cons index rest => rwa [Fs.visits, if_pos rfl] at hc
    · exact List.mem_cons_of_mem b hc

def Fs.layoutMap (fs : Fs) (drives : Drives) (inode : Bytes) (k : Nat) : BitVec 32 :=
  (fs.route k).2.foldl (fs.layoutPointer drives) (iBlock inode (fs.route k).1)

namespace Faulty

/-! ### Lookups -/

variable {faults : Faults} {d d' e : Disk}

/-- Only the cache, the number of requests and the static buffer change. -/
structure Looked (fs : Fs) (good : BitVec 32 → Prop) (d d' : Disk) : Prop where
  reads : Reads fs good d.toState d'.toState
  rest : d' = { d.io d'.toState d'.time with indirectBuffer := d'.indirectBuffer }

theorem Looked.refl : Looked fs good d d := ⟨.refl, rfl⟩

theorem Looked.trans (h : Looked fs good d d') (h' : Looked fs good d' e) : Looked fs good d e := by
  refine ⟨h.reads.trans h'.reads, ?_⟩
  rw [h'.rest, h.rest]
  rfl

theorem ext2ReadBlock_cases (faults : Faults) (fs : Fs) (b : BitVec 32) (buffer : Bytes)
    (d : Disk) : ∃ ok buffer' s time, ext2ReadBlock faults fs b buffer d = (ok, buffer', d.io s time) ∧
      ((∀ t, faults.reads t = true) → ok = true) ∧
      (ok = true → buffer' = (Ext2.ext2ReadBlock fs b buffer d.toState).1 ∧
        s = (Ext2.ext2ReadBlock fs b buffer d.toState).2) ∧
      (ok = false → s = d.toState) := by
  obtain ⟨ok, buffer', s, time, hread, hcases⟩ := tryReadBlock_cases faults fs b buffer d.toState d.time
  exact ⟨ok, buffer', s, time, by rw [ext2ReadBlock, hread], hcases⟩

/-- The result is `value` when the blocks can be read, and 0 otherwise. -/
structure Finds (faults : Faults) (fs : Fs) (good : BitVec 32 → Prop) (d : Disk) (value : BitVec 32)
    (blocks : List (BitVec 32)) (result : BitVec 32 × Disk) : Prop where
  looked : Looked fs good d result.2
  state : (result.2.toState, result.2.time) = (readAll faults fs blocks d.toState d.time).2
  value : result.1 = if (readAll faults fs blocks d.toState d.time).1 then value else 0

theorem Finds.here (value : BitVec 32) : Finds faults fs good d value [] (value, d) := ⟨.refl, rfl, rfl⟩

/-- The entries of an indirect block lie within the part of the shared buffer that the read has
filled. -/
theorem get_loaded (fs : Fs) (block : Block fs) (buffer : Bytes) {index : Nat}
    (h : index < fs.ptrsPerBlock) :
    LittleEndian.get (fs.loaded block buffer) (4 * index) 4 =
      LittleEndian.get (fs.bytes block) (4 * index) 4 := by
  apply LittleEndian.get_congr
  intro i hle hlt
  have hin : i < fs.blockSize := by
    rw [Fs.ptrsPerBlock] at h
    omega
  simp only [Fs.bytes, Fs.loaded, dif_pos hin]

theorem toNat_ptrs (fs : Fs) : (BitVec.ofNat 32 fs.blockSize / 4).toNat = fs.ptrsPerBlock := by
  have hle := fs.blockSize_le
  rw [BitVec.toNat_udiv, BitVec.toNat_ofNat, Nat.mod_eq_of_lt (by omega)]
  rfl

def follow (faults : Faults) (fs : Fs) : BitVec 32 → List (BitVec 32) → Disk → BitVec 32 × Disk
  | block, [], d => (block, d)
  | block, index :: rest, d =>
    follow faults fs (ext2ReadIndirect faults fs block index d).1 rest
      (ext2ReadIndirect faults fs block index d).2

theorem follow_zero (indices : List (BitVec 32)) (d : Disk) :
    follow faults fs 0 indices d = (0, d) := by
  induction indices with
  | nil => rfl
  | cons index rest ih => exact ih

theorem follow_one (block index : BitVec 32) (d : Disk) :
    follow faults fs block [index] d = ext2ReadIndirect faults fs block index d := rfl

theorem follow_cons (block index : BitVec 32) (rest : List (BitVec 32)) (d : Disk) :
    follow faults fs block (index :: rest) d =
      if (ext2ReadIndirect faults fs block index d).1 = 0 then
        (0, (ext2ReadIndirect faults fs block index d).2)
      else follow faults fs (ext2ReadIndirect faults fs block index d).1 rest
        (ext2ReadIndirect faults fs block index d).2 := by
  rw [follow]
  split
  · next hzero => rw [hzero, follow_zero]
  · rfl

theorem finds_follow (hfresh : Fresh fs d.toState) (indices : List (BitVec 32)) (block : BitVec 32)
    (hgood : ∀ b ∈ fs.visits d.drives block (indices.map BitVec.toNat), good b) :
    Finds faults fs good d ((indices.map BitVec.toNat).foldl (fs.pointer d.drives) block)
      (fs.visits d.drives block (indices.map BitVec.toNat)) (follow faults fs block indices d) := by
  induction indices generalizing d block with
  | nil => exact .here block
  | cons index rest ih =>
    rw [List.map_cons] at hgood ⊢
    rw [Fs.visits] at hgood ⊢
    by_cases hzero : block = 0
    · subst hzero
      rw [follow_zero, foldl_pointer_zero, if_pos rfl]
      exact .here 0
    rw [if_neg hzero] at hgood ⊢
    obtain ⟨ok, buffer, s, time, hread, -, hdone, hfail⟩ :=
      tryReadBlock_cases faults fs block d.indirectBuffer d.toState d.time
    have hall := readAll_cons hread
    rw [follow, ext2ReadIndirect, if_neg hzero, ext2ReadBlock, hread]
    cases ok with
    | false =>
      obtain rfl := hfail rfl
      dsimp only
      rw [follow_zero]
      refine ⟨⟨.refl, rfl⟩, ?_, ?_⟩ <;> rw [hall] <;> rfl
    | true =>
      obtain ⟨rfl, rfl⟩ := hdone rfl
      have hpointer : (if BitVec.ofNat 32 fs.blockSize / 4 ≤ index then 0 else BitVec.ofNat 32
          (LittleEndian.get (Ext2.ext2ReadBlock fs block d.indirectBuffer d.toState).1 (4 * index.toNat) 4)) =
          fs.pointer d.drives block index.toNat := by
        rw [(hfresh.read block _).1, Fs.pointer]
        simp only [BitVec.le_def, toNat_ptrs, hzero, false_or]
        by_cases hindex : fs.ptrsPerBlock ≤ index.toNat
        · rw [if_pos hindex, if_pos hindex]
        · rw [if_neg hindex, if_neg hindex, get_loaded fs _ _ (Nat.lt_of_not_le hindex)]
      have hdrives := ext2ReadBlock_drives fs block d.indirectBuffer d.toState
      have hstep := @ih { d.io (Ext2.ext2ReadBlock fs block d.indirectBuffer d.toState).2 time with
        indirectBuffer := (Ext2.ext2ReadBlock fs block d.indirectBuffer d.toState).1 }
        (hfresh.read ..).2 (fs.pointer d.drives block index.toNat)
        fun b hb => hgood b (List.mem_cons_of_mem block (hdrives ▸ hb))
      dsimp only
      rw [hpointer, List.foldl_cons]
      have hsame : ({ d.io (Ext2.ext2ReadBlock fs block d.indirectBuffer d.toState).2 time with
          indirectBuffer := (Ext2.ext2ReadBlock fs block d.indirectBuffer d.toState).1 } : Disk).drives =
          d.drives := hdrives
      rw [hsame] at hstep
      refine ⟨Looked.trans ⟨Reads.refl.read _ (hgood block (List.mem_cons_self ..)), rfl⟩ hstep.looked, ?_, ?_⟩
      · rw [hall, if_pos rfl]
        exact hstep.state
      · rw [hall, if_pos rfl]
        exact hstep.value

def indicesOf (fs : Fs) (k : BitVec 32) : Nat × List (BitVec 32) :=
  let ptrs := BitVec.ofNat 32 fs.blockSize / 4
  if k < 12 then (k.toNat, [])
  else if k - 12 < ptrs then (12, [k - 12])
  else if k - 12 - ptrs < ptrs * ptrs then
    (13, [(k - 12 - ptrs) / ptrs, (k - 12 - ptrs) % ptrs])
  else
    let rest := k - 12 - ptrs - ptrs * ptrs
    (14, [rest / (ptrs * ptrs), rest % (ptrs * ptrs) / ptrs, rest % (ptrs * ptrs) % ptrs])

theorem ext2GetInodeBlock_eq (inode : Bytes) (k : BitVec 32) (d : Disk) :
    ext2GetInodeBlock faults fs inode k d =
      follow faults fs (iBlock inode (indicesOf fs k).1) (indicesOf fs k).2 d := by
  simp only [ext2GetInodeBlock, indicesOf]
  split
  · rfl
  split
  · rfl
  split
  · rw [follow_cons, follow_one]
  · rw [follow_cons, follow_cons, follow_one]

theorem indicesOf_eq (fs : Fs) (k : BitVec 32) :
    ((indicesOf fs k).1, (indicesOf fs k).2.map BitVec.toNat) = fs.route k.toNat := by
  have hptrs := toNat_ptrs fs
  have hle : fs.ptrsPerBlock ≤ 1024 := by
    have := fs.blockSize_le
    rw [Fs.ptrsPerBlock]
    omega
  simp only [indicesOf, Fs.route]
  generalize BitVec.ofNat 32 fs.blockSize / 4 = p at hptrs
  rw [← hptrs] at hle ⊢
  have hsquare : (p * p).toNat = p.toNat * p.toNat := by
    rw [BitVec.toNat_mul, Nat.mod_eq_of_lt]
    have := Nat.mul_le_mul hle hle
    omega
  have htwelve : (12 : BitVec 32).toNat = 12 := rfl
  simp only [BitVec.lt_def, htwelve]
  by_cases hdirect : k.toNat < 12
  · rw [if_pos hdirect, if_pos hdirect]
    rfl
  have h12 : (k - 12).toNat = k.toNat - 12 := by bv_omega
  rw [if_neg hdirect, if_neg hdirect, h12]
  by_cases hsingle : k.toNat - 12 < p.toNat
  · rw [if_pos hsingle, if_pos hsingle, List.map_singleton, h12]
  have hp : (k - 12 - p).toNat = k.toNat - 12 - p.toNat := by bv_omega
  rw [if_neg hsingle, if_neg hsingle, hp, hsquare]
  by_cases hdouble : k.toNat - 12 - p.toNat < p.toNat * p.toNat
  · rw [if_pos hdouble, if_pos hdouble]
    simp only [List.map_cons, List.map_nil, BitVec.toNat_udiv, BitVec.toNat_umod, hp]
  have hpp : (k - 12 - p - p * p).toNat = k.toNat - 12 - p.toNat - p.toNat * p.toNat := by
    rw [BitVec.toNat_sub_of_le (by rw [BitVec.le_def, hp, hsquare]; omega), hp, hsquare]
  rw [if_neg hdouble, if_neg hdouble]
  simp only [List.map_cons, List.map_nil, BitVec.toNat_udiv, BitVec.toNat_umod, hpp, hsquare]

theorem finds_getInodeBlock (hfresh : Fresh fs d.toState) (inode : Bytes) (k : BitVec 32)
    (hgood : ∀ b ∈ fs.path d.drives inode k.toNat, good b) :
    Finds faults fs good d (fs.blockMap d.drives inode k.toNat) (fs.path d.drives inode k.toNat)
      (ext2GetInodeBlock faults fs inode k d) := by
  rw [Fs.path, ← indicesOf_eq] at hgood ⊢
  rw [Fs.blockMap, ← indicesOf_eq, ext2GetInodeBlock_eq]
  exact finds_follow hfresh _ _ hgood

end Faulty

theorem Fresh.getInodeBlock (h : Fresh fs s) (good : BitVec 32 → Prop) (inode : Bytes) (k : BitVec 32)
    (hgood : ∀ b ∈ fs.path s.drives inode k.toNat, good b) :
    (ext2GetInodeBlock fs inode k s).1 = fs.blockMap s.drives inode k.toNat ∧
      Reads fs good s (ext2GetInodeBlock fs inode k s).2 := by
  have hfinds := @Faulty.finds_getInodeBlock fs good noFaults
    { toState := s, groupFree := fun _ => 0, freeBlocks := 0 } h inode k hgood
  exact ⟨hfinds.value.trans (if_pos (readAll_of_reads (fun _ => rfl) ..)), hfinds.looked.reads⟩

end TocinOS.Ext2

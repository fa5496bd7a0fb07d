import TocinOS.Ext2Write

/-! `ext2_write_file`, on drives that may fail: what is left of a write that ends early. -/

namespace TocinOS.Ext2.Faulty

open SparseBlocks (copyAt)
open Function

section

variable (faults : Faults)

/-- `none` when the search goes on with the next group, the number 0 when it ends without a block. -/
def allocInGroup (fs : AllocFs) (group : Nat) (d : Disk) : Option (BitVec 32) × Disk :=
  if d.groupFree group = 0 then (none, d)
  else
    let bitmapBlock := fs.blockBitmap group
    match ext2ReadBlock faults fs.toFs bitmapBlock (fun _ => 0) d with
    | (false, _, d) => (none, d)
    | (true, bitmap, d) =>
      match findClear bitmap (fs.blocksPerGroup.toNat / 8) with
      | none => (none, d)
      | some index =>
        match ext2WriteBlock faults fs.toFs bitmapBlock (Bitmap.set bitmap index) d with
        | (false, d) => (some 0, d)
        | (true, d) =>
          (some (BitVec.ofNat 32 group * fs.blocksPerGroup + BitVec.ofNat 32 index + fs.firstDataBlock),
            { d with
              groupFree := Function.update d.groupFree group (d.groupFree group - 1)
              freeBlocks := d.freeBlocks - 1 })

def allocRounds (fs : AllocFs) (preferredGroup : BitVec 32) : List Nat → Disk → BitVec 32 × Disk
  | [], d => (0, d)
  | g :: rest, d =>
    match allocInGroup faults fs (fs.groupAt preferredGroup g) d with
    | (some block, d) => (block, d)
    | (none, d) => allocRounds fs preferredGroup rest d

def ext2AllocBlock (fs : AllocFs) (preferredGroup : BitVec 32) (d : Disk) : BitVec 32 × Disk :=
  if d.freeBlocks = 0 then (0, d)
  else allocRounds faults fs preferredGroup (List.range fs.numGroups.toNat) d

def ext2FreeBlock (fs : AllocFs) (block : BitVec 32) (d : Disk) : Bool × Disk :=
  let group := fs.place block / fs.blocksPerGroup.toNat
  let index := fs.place block % fs.blocksPerGroup.toNat
  if block = 0 ∨ fs.numGroups.toNat ≤ group then (false, d)
  else
    let bitmapBlock := fs.blockBitmap group
    match ext2ReadBlock faults fs.toFs bitmapBlock (fun _ => 0) d with
    | (false, _, d) => (false, d)
    | (true, bitmap, d) =>
      if !Bitmap.test bitmap index then (false, d)
      else
        match ext2WriteBlock faults fs.toFs bitmapBlock (Bitmap.clear bitmap index) d with
        | (false, d) => (false, d)
        | (true, d) =>
          (true, { d with
            groupFree := Function.update d.groupFree group (d.groupFree group + 1)
            freeBlocks := d.freeBlocks + 1 })

/-- `n` bytes into the block that a lookup has found, or into a new one. `false` when the loop of
`ext2_write_file` ends there; a new block has its pointer by then. -/
def writeTo (fs : AllocFs) (inode : Bytes) (currentBlock : Nat) (blockNum : BitVec 32)
    (offsetInBlock n : Nat) (source : Bytes) (d : Disk) : Bool × Bytes × Disk :=
  if blockNum = 0 then
    let (blockNum, d) := ext2AllocBlock faults fs (-1) d
    if blockNum = 0 then (false, inode, d)
    else if currentBlock < 12 then
      let (ok, d) :=
        ext2WriteBlock faults fs.toFs blockNum (copyAt offsetInBlock n source fun _ => 0) d
      (ok, setIBlock inode currentBlock blockNum, d)
    else (false, inode, (ext2FreeBlock faults fs blockNum d).2)
  else if offsetInBlock ≠ 0 ∨ n < fs.blockSize then
    match ext2ReadBlock faults fs.toFs blockNum (fun _ => 0) d with
    | (false, _, d) => (false, inode, d)
    | (true, bytes, d) =>
      let (ok, d) := ext2WriteBlock faults fs.toFs blockNum (copyAt offsetInBlock n source bytes) d
      (ok, inode, d)
  else
    let (ok, d) :=
      ext2WriteBlock faults fs.toFs blockNum (copyAt offsetInBlock n source fun _ => 0) d
    (ok, inode, d)

def writeChunk (fs : AllocFs) (inode : Bytes) (currentBlock offsetInBlock n : Nat) (source : Bytes)
    (d : Disk) : Bool × Bytes × Disk :=
  let (blockNum, d) :=
    ext2GetInodeBlock faults fs.toFs inode (BitVec.ofNat 32 currentBlock) d
  writeTo faults fs inode currentBlock blockNum offsetInBlock n source d

def writeLoop (fs : AllocFs) (offset size : BitVec 32) (buffer : Bytes) :
    Nat → BitVec 32 → Bytes → Disk → BitVec 32 × Bytes × Disk
  | 0, bytesWritten, inode, d => (bytesWritten, inode, d)
  | fuel + 1, bytesWritten, inode, d =>
    if size.toNat ≤ bytesWritten.toNat then (bytesWritten, inode, d)
    else
      let currentBlock := (offset + bytesWritten).toNat / fs.blockSize
      let offsetInBlock := (offset + bytesWritten).toNat % fs.blockSize
      let bytesToWrite := min (fs.blockSize - offsetInBlock) (size - bytesWritten).toNat
      match writeChunk faults fs inode currentBlock offsetInBlock bytesToWrite
          (fun i => buffer (bytesWritten.toNat + i)) d with
      | (false, inode, d) => (bytesWritten, inode, d)
      | (true, inode, d) =>
        writeLoop fs offset size buffer fuel (bytesWritten + BitVec.ofNat 32 bytesToWrite) inode d

/-- The size is brought up to date on every way out of the loop. -/
def ext2WriteFile (fs : AllocFs) (inode : Bytes) (offset size : BitVec 32) (buffer : Bytes)
    (d : Disk) : BitVec 32 × Bytes × Disk :=
  let (bytesWritten, inode, d) := writeLoop faults fs offset size buffer size.toNat 0 inode d
  (bytesWritten, extendSize fs inode (offset + bytesWritten), d)

end

variable {faults : Faults} {fs : AllocFs} {d : Disk} {inode : Bytes}

theorem ext2WriteBlock_done (hw : ∀ t, faults.writes t = .done) (fs : Fs) (b : BitVec 32)
    (buffer : Bytes) (d : Disk) :
    ext2WriteBlock faults fs b buffer d =
      (true, d.io (Ext2.ext2WriteBlock fs b buffer d.toState) (d.time + fs.sectorsPerBlock)) := by
  rw [ext2WriteBlock, tryWriteBlock_done hw]

/-! ### Blocks in the cache -/

def Held (b : BitVec 32) (s : State) : Prop :=
  ∃ i < cacheSize, (s.blockCache i).valid = true ∧ (s.blockCache i).blockNum = b

variable {b offset : BitVec 32} {s s' : AllocState} {pos n : Nat} {source inode' : Bytes}

theorem Held.find {s : State} (h : Held b s) : ∃ i s', ext2CacheFind b s = (some i, s') := by
  obtain ⟨i, hi, hvalid, hblock⟩ := h
  rcases ext2CacheFind_cases b s with ⟨-, hnone⟩ | ⟨j, -, -, -, hfind⟩
  · exact absurd hblock (hnone i hi hvalid)
  · exact ⟨j, _, hfind⟩

theorem leastRecentlyUsed_lt (s : State) : leastRecentlyUsed s < cacheSize := by
  rw [leastRecentlyUsed]
  refine List.foldlRecOn (motive := (· < cacheSize)) (List.range cacheSize) _ (by decide) ?_
  intro lru hlru i hi
  split
  · exact List.mem_range.mp hi
  · exact hlru

theorem ext2CacheGetFree_lt (s : State) : (ext2CacheGetFree s).1 < cacheSize := by
  rw [ext2CacheGetFree]
  split
  · next i hi => exact List.mem_range.mp (List.mem_of_find?_eq_some hi)
  · exact leastRecentlyUsed_lt s

theorem held_read (fs : Fs) (b : BitVec 32) (buffer : Bytes) (s : State) :
    Held b (Ext2.ext2ReadBlock fs b buffer s).2 := by
  rcases ext2CacheFind_cases b s with ⟨hfind, -⟩ | ⟨i, hi, hvalid, hblock, hfind⟩
  · simp only [Ext2.ext2ReadBlock, hfind]
    refine ⟨_, ext2CacheGetFree_lt s, ?_⟩
    dsimp only
    rw [update_self]
    exact ⟨rfl, rfl⟩
  · simp only [Ext2.ext2ReadBlock, hfind]
    refine ⟨i, hi, ?_⟩
    dsimp only
    rw [update_self]
    exact ⟨hvalid, hblock⟩

theorem Held.write {s : State} (h : Held b s) (fs : Fs) (c : BitVec 32) (buffer : Bytes) :
    Held b (Ext2.ext2WriteBlock fs c buffer s) := by
  obtain ⟨i, hi, hvalid, hblock⟩ := h
  refine ⟨i, hi, ?_⟩
  rw [Ext2.ext2WriteBlock]
  rcases ext2CacheFind_cases c { s with
    drives := Ext2.writeSectors fs s.drives c buffer
    history := s.drives :: s.history } with ⟨hfind, -⟩ | ⟨j, -, -, -, hfind⟩
  · simp only [hfind]
    exact ⟨hvalid, hblock⟩
  · simp only [hfind, update_self, update_idem]
    by_cases hij : i = j
    · subst hij
      rw [update_self]
      exact ⟨hvalid, hblock⟩
    · rw [update_of_ne hij]
      exact ⟨hvalid, hblock⟩

theorem Held.readBlock (h : Held b d.toState) (faults : Faults) (fs : Fs) (buffer : Bytes) :
    ext2ReadBlock faults fs b buffer d =
      (true, (Ext2.ext2ReadBlock fs b buffer d.toState).1,
        d.io (Ext2.ext2ReadBlock fs b buffer d.toState).2 d.time) := by
  obtain ⟨i, s, hfind⟩ := h.find
  simp only [ext2ReadBlock, tryReadBlock, Ext2.ext2ReadBlock, hfind]

/-! ### Allocation -/

/-- One of the blocks can be read; they are tried one after the other. -/
def AnyReadable (faults : Faults) (fs : Fs) : List (BitVec 32) → State → Nat → Prop
  | [], _, _ => False
  | b :: rest, s, time =>
    let (ok, _, s, time) := tryReadBlock faults fs b (fun _ => 0) s time
    ok = true ∨ AnyReadable faults fs rest s time

/-- The bitmaps of the groups with free blocks, in the order in which the groups are searched. -/
def bitmapsOf (fs : AllocFs) (preferredGroup : BitVec 32) (rounds : List Nat) (d : Disk) : List (BitVec 32) :=
  ((rounds.map (fs.groupAt preferredGroup)).filter (d.groupFree · ≠ 0)).map fs.blockBitmap

/-- There is a group with free blocks whose bitmap can be read. -/
def Room (faults : Faults) (fs : AllocFs) (preferredGroup : BitVec 32) (d : Disk) : Prop :=
  AnyReadable faults fs.toFs (bitmapsOf fs preferredGroup (List.range fs.numGroups.toNat) d) d.toState d.time

/-- A call returned what it does without errors, whenever that was. -/
def Disk.Returns {α : Type} (d : Disk) (result : α × Disk) (quiet : α × AllocState) : Prop :=
  ∃ t, result = (quiet.1, d.after quiet.2 t)

/-- A group whose bitmap cannot be read is passed over; otherwise the result is that of a drive
without errors. -/
theorem allocInGroup_cases (hw : ∀ t, faults.writes t = .done) (fs : AllocFs) {g : Nat} {d : Disk}
    (hfree : d.groupFree g ≠ 0) :
    ∃ ok bytes s t, tryReadBlock faults fs.toFs (fs.blockBitmap g) (fun _ => 0) d.toState d.time =
        (ok, bytes, s, t) ∧
      (ok = false → s = d.toState ∧ allocInGroup faults fs g d = (none, d.after d.toAllocState t)) ∧
      (ok = true → d.Returns (allocInGroup faults fs g d) (Ext2.allocInGroup fs g d.toAllocState)) := by
  obtain ⟨ok, bytes, s, t, hread, -, hdone, hfail⟩ :=
    tryReadBlock_cases faults fs.toFs (fs.blockBitmap g) (fun _ => 0) d.toState d.time
  refine ⟨ok, bytes, s, t, hread, fun hok => ?_, fun hok => ?_⟩ <;> subst hok <;>
    simp only [allocInGroup, if_neg hfree, ext2ReadBlock, hread]
  · obtain rfl := hfail rfl
    exact ⟨rfl, rfl⟩
  · obtain ⟨rfl, rfl⟩ := hdone rfl
    simp only [Ext2.allocInGroup, if_neg hfree]
    cases findClear (Ext2.ext2ReadBlock fs.toFs (fs.blockBitmap g) (fun _ => 0) d.toState).1
        (fs.blocksPerGroup.toNat / 8) with
    | none => exact ⟨t, rfl⟩
    | some index =>
      dsimp only
      rw [ext2WriteBlock_done hw]
      exact ⟨t + fs.sectorsPerBlock, rfl⟩

/-- On a drive without errors the allocation is the one of `Ext2Alloc`. -/
theorem allocRounds_quiet (hreads : ∀ t, faults.reads t = true) (hw : ∀ t, faults.writes t = .done)
    (fs : AllocFs) (preferredGroup : BitVec 32) (rounds : List Nat) (d : Disk) :
    d.Returns (allocRounds faults fs preferredGroup rounds d)
      (Ext2.allocRounds fs preferredGroup rounds d.toAllocState) := by
  induction rounds generalizing d with
  | nil => exact ⟨d.time, rfl⟩
  | cons g rest ih =>
    have hstep (g : Nat) : d.Returns (allocInGroup faults fs g d) (Ext2.allocInGroup fs g d.toAllocState) := by
      by_cases hfree : d.groupFree g = 0
      · rw [allocInGroup, Ext2.allocInGroup, if_pos hfree, if_pos hfree]
        exact ⟨d.time, rfl⟩
      · obtain ⟨ok, bytes, s, t, hread, -, hdone⟩ := allocInGroup_cases hw fs hfree
        obtain ⟨ok', _, _, _, hread', hok, -⟩ :=
          tryReadBlock_cases faults fs.toFs (fs.blockBitmap g) (fun _ => 0) d.toState d.time
        exact hdone ((congrArg Prod.fst (hread.symm.trans hread')).trans (hok hreads))
    obtain ⟨t, hstep⟩ := hstep (fs.groupAt preferredGroup g)
    rw [allocRounds, Ext2.allocRounds, hstep]
    generalize Ext2.allocInGroup fs (fs.groupAt preferredGroup g) d.toAllocState = r
    obtain ⟨_ | b, s⟩ := r
    · exact ih (d.after s t)
    · exact ⟨t, rfl⟩

theorem ext2AllocBlock_quiet (hreads : ∀ t, faults.reads t = true) (hw : ∀ t, faults.writes t = .done)
    (fs : AllocFs) (preferredGroup : BitVec 32) (d : Disk) :
    d.Returns (ext2AllocBlock faults fs preferredGroup d)
      (Ext2.ext2AllocBlock fs preferredGroup d.toAllocState) := by
  rw [ext2AllocBlock, Ext2.ext2AllocBlock]
  split
  · exact ⟨d.time, rfl⟩
  · exact allocRounds_quiet hreads hw fs preferredGroup _ d

theorem held_allocInGroup (hl : Layout fs) {g : Nat} (hg : g < fs.numGroups.toNat)
    (h : Ext2.allocInGroup fs g s = (some b, s')) :
    Held (fs.blockBitmap (fs.place b / fs.blocksPerGroup.toNat)) s'.toState := by
  rw [Ext2.allocInGroup] at h
  split at h
  · cases h
  dsimp only at h
  split at h
  · cases h
  · next index hfind =>
    obtain ⟨hindex, -⟩ := findClear_some hfind
    rw [Nat.div_mul_cancel hl.dvd] at hindex
    obtain ⟨hb, rfl⟩ := Prod.mk.inj h
    cases hb
    have hgroup := ((hl.eq_block_iff hg hindex (hl.place_block hg hindex) _).mp rfl).1
    rw [hgroup]
    exact (held_read ..).write ..

theorem allocRounds_cases (hw : ∀ t, faults.writes t = .done) (hl : Layout fs)
    (hc : Counted fs d.toAllocState) (preferredGroup : BitVec 32) {rounds : List Nat}
    (hrounds : ∀ g ∈ rounds, fs.groupAt preferredGroup g < fs.numGroups.toNat) :
    ∃ b s t, allocRounds faults fs preferredGroup rounds d = (b, d.after s t) ∧
      (b = 0 ∧ s = d.toAllocState ∧
          ¬AnyReadable faults fs.toFs (bitmapsOf fs preferredGroup rounds d) d.toState d.time ∨
        Takes fs d.toAllocState s b ∧
          Held (fs.blockBitmap (fs.place b / fs.blocksPerGroup.toNat)) s.toState ∧
          AnyReadable faults fs.toFs (bitmapsOf fs preferredGroup rounds d) d.toState d.time) := by
  induction rounds generalizing d with
  | nil => exact ⟨0, d.toAllocState, d.time, rfl, .inl ⟨rfl, rfl, id⟩⟩
  | cons g rest ih =>
    have hg := hrounds g (List.mem_cons_self ..)
    have hrest := fun k hk => hrounds k (List.mem_cons_of_mem g hk)
    rw [allocRounds]
    by_cases hzero : d.groupFree (fs.groupAt preferredGroup g) = 0
    · have hskip : bitmapsOf fs preferredGroup (g :: rest) d = bitmapsOf fs preferredGroup rest d := by
        rw [bitmapsOf, List.map_cons, List.filter_cons_of_neg (by simpa using hzero)]
        rfl
      rw [show allocInGroup faults fs (fs.groupAt preferredGroup g) d = (none, d) from if_pos hzero, hskip]
      exact ih hc hrest
    · have htry : bitmapsOf fs preferredGroup (g :: rest) d =
          fs.blockBitmap (fs.groupAt preferredGroup g) :: bitmapsOf fs preferredGroup rest d := by
        rw [bitmapsOf, List.map_cons, List.filter_cons_of_pos (by simpa using hzero), List.map_cons]
        rfl
      obtain ⟨ok, bytes, s, t, hread, hfail, hdone⟩ := allocInGroup_cases hw fs hzero
      rw [htry, AnyReadable, hread]
      dsimp only
      cases ok with
      | false =>
        obtain ⟨rfl, hnone⟩ := hfail rfl
        rw [hnone]
        simp only [Bool.false_eq_true, false_or]
        exact ih (d := d.after d.toAllocState t) hc hrest
      | true =>
        obtain ⟨u, hsome⟩ := hdone rfl
        rcases hc.allocInGroup hl hg with ⟨hnone, -⟩ | ⟨b, s, hb, htakes⟩
        · exact absurd hnone hzero
        · rw [hsome, hb]
          exact ⟨b, s, u, rfl, .inr ⟨htakes, held_allocInGroup hl hg hb, .inl rfl⟩⟩

/-- The allocation takes a free block, or it leaves everything as it was. -/
theorem ext2AllocBlock_cases (hw : ∀ t, faults.writes t = .done) (hc : Consistent fs d.toAllocState)
    (preferredGroup : BitVec 32) :
    ∃ b s t, ext2AllocBlock faults fs preferredGroup d = (b, d.after s t) ∧
      (b = 0 ∧ s = d.toAllocState ∧ ¬Room faults fs preferredGroup d ∨
        b ≠ 0 ∧ Consistent fs s ∧ Takes fs d.toAllocState s b ∧
          Held (fs.blockBitmap (fs.place b / fs.blocksPerGroup.toNat)) s.toState ∧
          Room faults fs preferredGroup d) := by
  have hl := hc.layout
  obtain ⟨b, s, t, hrun, hcases⟩ := allocRounds_cases hw hl hc.counted preferredGroup fun g hg =>
    hl.groupAt_lt preferredGroup (List.mem_range.mp hg)
  rw [ext2AllocBlock]
  by_cases hzero : d.freeBlocks = 0
  · rw [if_pos hzero]
    refine ⟨0, d.toAllocState, d.time, rfl, .inl ⟨rfl, rfl, fun hroom => ?_⟩⟩
    rcases hcases with ⟨-, -, hnone⟩ | ⟨htakes, -⟩
    · exact hnone hroom
    · exact hc.counted.not_free_of_total hl hzero b htakes.wasFree
  · rw [if_neg hzero]
    refine ⟨b, s, t, hrun, hcases.imp_right fun ⟨htakes, hheld, hroom⟩ => ?_⟩
    obtain ⟨hb, hconsistent⟩ := htakes.consistent hc
    exact ⟨hb, hconsistent, htakes, hheld, hroom⟩

theorem anyReadable_of_reads (h : ∀ t, faults.reads t = true) {fs : Fs} {blocks : List (BitVec 32)} {s : State}
    {time : Nat} (hne : blocks ≠ []) : AnyReadable faults fs blocks s time := by
  cases blocks with
  | nil => exact absurd rfl hne
  | cons b rest =>
    obtain ⟨ok, bytes, s', time', hread, hok, -⟩ := tryReadBlock_cases faults fs b (fun _ => 0) s time
    rw [AnyReadable, hread]
    exact .inl (hok h)

/-- Where bitmaps can be read there is room as long as there is a free block. -/
theorem room_iff_free (hw : ∀ t, faults.writes t = .done) (hreads : ∀ t, faults.reads t = true)
    (hc : Consistent fs d.toAllocState) (preferredGroup : BitVec 32) :
    Room faults fs preferredGroup d ↔ ∃ c, fs.Free d.drives c := by
  obtain ⟨b, s, t, -, ⟨-, -, hnone⟩ | ⟨-, -, htakes, -, hroom⟩⟩ := ext2AllocBlock_cases hw hc preferredGroup
  · refine iff_of_false hnone fun ⟨c, hfree⟩ => ?_
    refine hc.counted.not_free_of_groups hc.layout (fun k hk => ?_) c hfree
    obtain ⟨g, hg, rfl⟩ := hc.layout.groupAt_surj preferredGroup hk
    by_contra hgroup
    refine hnone (anyReadable_of_reads hreads (List.ne_nil_of_mem (a := fs.blockBitmap
      (fs.groupAt preferredGroup g)) (List.mem_map_of_mem ?_)))
    exact List.mem_filter.mpr ⟨List.mem_map_of_mem (List.mem_range.mpr hg), by simpa using hgroup⟩
  · exact iff_of_true hroom ⟨b, htakes.wasFree⟩

theorem Held.freeBlock (h : Held (fs.blockBitmap (fs.place b / fs.blocksPerGroup.toNat)) d.toState)
    (hw : ∀ t, faults.writes t = .done) :
    d.Returns (ext2FreeBlock faults fs b d) (Ext2.ext2FreeBlock fs b d.toAllocState) := by
  simp only [ext2FreeBlock, Ext2.ext2FreeBlock, h.readBlock faults fs.toFs fun _ => 0]
  split
  · exact ⟨d.time, rfl⟩
  split
  · exact ⟨d.time, rfl⟩
  · rw [ext2WriteBlock_done hw]
    exact ⟨d.time + fs.sectorsPerBlock, rfl⟩

/-! ### One round -/

structure Stored (fs : AllocFs) (inode : Bytes) (s : AllocState) (pos n : Nat) (source : Bytes)
    (inode' : Bytes) (s' : AllocState) : Prop extends Wrote fs inode s pos n source inode' s' where
  linked : ∀ c, fs.Free s.drives c → ¬fs.Free s'.drives c → ∃ k < 12, iBlock inode' k = c

theorem Stored.trans {inode₁ inode₂ : Bytes} {s₁ s₂ : AllocState} {m : Nat} (hc : Consistent fs s)
    (h : Stored fs inode s pos n source inode₁ s₁)
    (h' : Stored fs inode₁ s₁ (pos + n) m (fun i => source (n + i)) inode₂ s₂) :
    Stored fs inode s pos (n + m) source inode₂ s₂ := by
  refine ⟨h.toWrote.trans h'.toWrote, fun c hfree hused => ?_⟩
  by_cases hmid : fs.Free s₁.drives c
  · exact h'.linked c hmid hused
  · obtain ⟨k, hk, hslot⟩ := h.linked c hfree hmid
    have hne : iBlock inode₁ k ≠ 0 := fun hzero => hc.zero (by rwa [← hzero, hslot])
    have hkept := h'.kept k (by rwa [fs.blockMap_of_lt _ _ hk])
    rw [fs.blockMap_of_lt _ _ hk, fs.blockMap_of_lt _ _ hk] at hkept
    exact ⟨k, hk, hkept.trans hslot⟩

theorem Stored.of_free (h : Wrote fs inode s pos n source inode' s')
    (hfree : ∀ c, fs.Free s'.drives c ↔ fs.Free s.drives c) :
    Stored fs inode s pos n source inode' s' :=
  ⟨h, fun c hwas hnot => absurd ((hfree c).mpr hwas) hnot⟩

theorem Stored.of_drives {t : AllocState} (hdrives : t.drives = s.drives)
    (h : Stored fs inode t pos n source inode' s') : Stored fs inode s pos n source inode' s' :=
  ⟨h.toWrote.of_drives hdrives, fun c hfree => h.linked c (hdrives ▸ hfree)⟩

/-- `n` bytes get into block `k` of the file, from position `w` of the block on. The block has to be
found, and read unless all of it is overwritten; a hole has to be one of the direct blocks, with room
to fill it. -/
def Enters (faults : Faults) (fs : AllocFs) (inode : Bytes) (d : Disk) (k w n : Nat) : Prop :=
  if fs.blockMap d.drives inode k = 0 then k < 12 ∧ Room faults fs (-1) d
  else (readAll faults fs.toFs (fs.path d.drives inode k ++
    if w ≠ 0 ∨ n < fs.blockSize then [fs.blockMap d.drives inode k] else []) d.toState d.time).1 = true

theorem enters_iff (hw : ∀ t, faults.writes t = .done) (hreads : ∀ t, faults.reads t = true)
    (hc : Consistent fs d.toAllocState) (k w n : Nat) : Enters faults fs inode d k w n ↔
      fs.blockMap d.drives inode k ≠ 0 ∨ k < 12 ∧ ∃ c, fs.Free d.drives c := by
  rw [Enters]
  split
  · next hhole => rw [room_iff_free hw hreads hc, or_iff_right (not_not.mpr hhole)]
  · next hne => exact iff_of_true (readAll_of_reads hreads ..) (.inl hne)

/-- A round that was to put `n` bytes of `source` at position `w` of block `k` has done so, or nothing. -/
structure Round (fs : AllocFs) (inode : Bytes) (s : AllocState) (k w n : Nat) (source : Bytes) (ok : Bool)
    (inode' : Bytes) (s' : AllocState) : Prop where
  stored : Stored fs inode s (k * fs.blockSize + w) (if ok then n else 0) source inode' s'
  same : ok = false → inode' = inode
  fills : ok = true → k < 12 → Fills s inode k inode' s'

theorem Round.failed {k w : Nat} (h : Wrote fs inode s (k * fs.blockSize + w) 0 source inode s')
    (hfree : ∀ c, fs.Free s'.drives c ↔ fs.Free s.drives c) :
    Round fs inode s k w n source false inode s' :=
  ⟨.of_free h hfree, fun _ => rfl, Bool.noConfusion⟩

section

variable {k w : Nat} (hw : ∀ t, faults.writes t = .done) (h : Intact fs d.drives inode)
  (hc : Consistent fs d.toAllocState) (hsize : w + n ≤ fs.blockSize) (source : Bytes)

include hw h hc hsize

theorem writeTo_hole (hhole : k < 12 → iBlock inode k = 0) :
    ∃ ok inode' s t, writeTo faults fs inode k 0 w n source d = (ok, inode', d.after s t) ∧
      Round fs inode d.toAllocState k w n source ok inode' s ∧
      (ok = true ↔ k < 12 ∧ Room faults fs (-1) d) := by
  rw [writeTo, if_pos rfl]
  obtain ⟨b', s, t, halloc, ⟨hb', rfl, hnone⟩ | ⟨hne, hc', htakes, hheld, hroom⟩⟩ :=
    ext2AllocBlock_cases hw hc (-1)
  · rw [halloc, hb']
    exact ⟨false, inode, d.toAllocState, t, rfl, .failed (.refl hc h _ _) fun _ => .rfl,
      iff_of_false Bool.false_ne_true fun hok => hnone hok.2⟩
  rw [halloc]
  dsimp only
  rw [if_neg hne]
  by_cases hk : k < 12
  · rw [if_pos hk, ext2WriteBlock_done hw]
    have hwrote := h.wrote_hole hc hc' hne htakes hk (hhole hk) hsize source
    refine ⟨true, _, s.writeBlock fs b' (copyAt w n source fun _ => 0), _, rfl,
      ⟨⟨hwrote, fun c hfree hused => ⟨k, hk, ?_⟩⟩, Bool.noConfusion, fun _ _ => ⟨fun j => ?_, ?_⟩⟩,
      iff_of_true rfl ⟨hk, hroom⟩⟩
    · rw [iBlock_setIBlock, if_pos rfl]
      have hplain : fs.Plain b' := fun g hg heq => hc.bitmaps g hg (heq ▸ htakes.wasFree)
      rw [free_writeBlock hc.layout (hc.addressable b' htakes.wasFree) hplain, htakes.free] at hused
      exact (not_not.mp fun hcb => hused ⟨hfree, hcb⟩).symm
    · rw [iBlock_setIBlock]
      split
      · next hj => exact iff_of_false hne fun hjk => hjk.2 hj
      · next hj => exact ⟨fun hslot => ⟨hslot, hj⟩, fun hslot => hslot.1⟩
    · rw [if_pos (hhole hk)]
      exact htakes.one
  · obtain ⟨u, hgive⟩ := hheld.freeBlock (d := d.after s t) hw
    obtain ⟨hc'', hfree, hblocks⟩ := hc.giveBack hne hc' htakes
    rw [if_neg hk, hgive]
    exact ⟨false, inode, _, u, rfl, .failed (h.still hc'' hfree hblocks _ _) hfree,
      iff_of_false Bool.false_ne_true fun hok => hk hok.1⟩

theorem writeTo_mapped (hzero : fs.blockMap d.drives inode k ≠ 0) :
    ∃ ok inode' s t, writeTo faults fs inode k (fs.blockMap d.drives inode k) w n source d =
        (ok, inode', d.after s t) ∧
      Round fs inode d.toAllocState k w n source ok inode' s ∧
      (ok = true ↔ (w ≠ 0 ∨ n < fs.blockSize → (tryReadBlock faults fs.toFs
        (fs.blockMap d.drives inode k) (fun _ => 0) d.toState d.time).1 = true)) := by
  have hl := hc.layout
  have hown := Fs.owns_data hzero
  have hfills {s : AllocState} (hcount : s.freeBlocks = d.freeBlocks) (hk : k < 12) :
      Fills d.toAllocState inode k inode s :=
    fills_of_ne (fs.blockMap_of_lt d.drives inode hk ▸ hzero) hcount
  rw [writeTo, if_neg hzero]
  by_cases hpart : w ≠ 0 ∨ n < fs.blockSize
  · rw [if_pos hpart]
    obtain ⟨ok, bytes, s, t, hread, -, hdone, hfail⟩ :=
      tryReadBlock_cases faults fs.toFs (fs.blockMap d.drives inode k) (fun _ => 0) d.toState d.time
    rw [ext2ReadBlock, hread]
    cases ok with
    | false =>
      obtain rfl := hfail rfl
      exact ⟨false, inode, d.toAllocState, t, rfl, .failed (.refl hc h _ _) fun _ => .rfl,
        iff_of_false Bool.false_ne_true fun hok => Bool.false_ne_true (hok hpart)⟩
    | true =>
      obtain ⟨rfl, rfl⟩ := hdone rfl
      obtain ⟨hbytes, hread⟩ := h.readBlock hc hzero
      have hdrives := ext2ReadBlock_drives fs.toFs (fs.blockMap d.drives inode k) (fun _ => 0) d.toState
      generalize Ext2.ext2ReadBlock fs.toFs (fs.blockMap d.drives inode k) (fun _ => 0) d.toState =
        result at hbytes hread hdrives
      obtain ⟨bytes, io⟩ := result
      dsimp only at hbytes hread hdrives ⊢
      rw [ext2WriteBlock_done hw]
      have hmap : fs.blockMap d.drives inode k = fs.blockMap io.drives inode k := by rw [hdrives]
      have h' : Intact fs io.drives inode := hdrives ▸ h
      refine ⟨true, inode, _, _, rfl, ⟨.of_free (Wrote.of_drives (t := { d.toAllocState with toState := io })
        hdrives ?_) fun c => ?_, fun _ => rfl, fun _ hk => hfills rfl hk⟩, iff_of_true rfl fun _ => rfl⟩
      · have hwrote := @Intact.wrote_mapped _ _ _ _ _ _ source h' hread (hmap ▸ hzero) hsize bytes
          fun i _ _ => by rw [hbytes, hdrives]
        rw [← hmap] at hwrote
        exact hwrote
      · have hsame := free_writeBlock (s := { d.toAllocState with toState := io }) hl
          (h.addressable _ hown) (h.plain _ hown) (copyAt w n source bytes) c
        rw [hdrives] at hsame
        exact hsame
  · rw [if_neg hpart, ext2WriteBlock_done hw]
    refine ⟨true, inode, _, _, rfl, ⟨.of_free (h.wrote_mapped hc hzero hsize fun i hi hout => ?_) fun c =>
      free_writeBlock hl (h.addressable _ hown) (h.plain _ hown) _ c, fun _ => rfl, fun _ hk => hfills rfl hk⟩,
      iff_of_true rfl fun hpart' => absurd hpart' hpart⟩
    exact absurd ⟨by omega, by omega⟩ hout

/-- What a round does with the block that the lookup gave it: the block of the map, or 0 where an
indirect block could not be read. -/
theorem writeTo_cases (hb : b = fs.blockMap d.drives inode k ∨ b = 0 ∧ 12 ≤ k) :
    ∃ ok inode' s t, writeTo faults fs inode k b w n source d = (ok, inode', d.after s t) ∧
      Round fs inode d.toAllocState k w n source ok inode' s ∧
      (ok = true ↔ if b = 0 then k < 12 ∧ Room faults fs (-1) d
        else w ≠ 0 ∨ n < fs.blockSize → (tryReadBlock faults fs.toFs b (fun _ => 0) d.toState d.time).1 = true) := by
  by_cases hzero : b = 0
  · subst hzero
    simp only [if_true]
    refine writeTo_hole hw h hc hsize source fun hk => ?_
    rw [← fs.blockMap_of_lt d.drives inode hk]
    exact (hb.resolve_right fun hfar => by omega).symm
  · obtain rfl := hb.resolve_right fun hfar => hzero hfar.1
    simp only [if_neg hzero]
    exact writeTo_mapped hw h hc hsize source hzero

/-- The bytes of a round get in or not, as `Enters` says. -/
theorem writeChunk_cases (hk : k < 2 ^ 32) :
    ∃ ok inode' d', writeChunk faults fs inode k w n source d = (ok, inode', d') ∧
      Round fs inode d.toAllocState k w n source ok inode' d'.toAllocState ∧
      (ok = true ↔ Enters faults fs inode d k w n) := by
  have hfinds := @finds_getInodeBlock fs.toFs fs.Addressable faults d
    hc.counted.coherent.fresh inode (BitVec.ofNat 32 k) fun b hb =>
      h.addressable b (Fs.owns_of_mem_path hb)
  rw [BitVec.toNat_ofNat, Nat.mod_eq_of_lt hk] at hfinds
  rw [writeChunk]
  generalize ext2GetInodeBlock faults fs.toFs inode (BitVec.ofNat 32 k) d = found at hfinds
  obtain ⟨b, e⟩ := found
  have hdrives : e.drives = d.drives := hfinds.looked.reads.drives
  have hstate : e.toAllocState = { d.toAllocState with toState := e.toState } :=
    congrArg Disk.toAllocState hfinds.looked.rest
  have hce : Consistent fs e.toAllocState := by
    rw [hstate]
    refine hc.io (hfinds.looked.reads.coherent (fun _ hb => hb) hc.counted.coherent) fun g _ => ?_
    rw [hdrives]
  obtain ⟨hstate', htime⟩ := Prod.mk.inj (show (e.toState, e.time) = _ from hfinds.state)
  have hvalue : b = if (readAll faults fs.toFs (fs.path d.drives inode k) d.toState d.time).1 then
    fs.blockMap d.drives inode k else 0 := hfinds.value
  -- only the lookup of a direct block is sure to succeed
  have hdirect (hlt : k < 12) : (readAll faults fs.toFs (fs.path d.drives inode k) d.toState d.time) =
      (true, d.toState, d.time) := by
    rw [fs.path_of_lt _ _ hlt]
    rfl
  have hblock : b = fs.blockMap e.drives inode k ∨ b = 0 ∧ 12 ≤ k := by
    rw [hdrives, hvalue]
    split
    · exact .inl rfl
    · next hok => exact .inr ⟨rfl, Nat.le_of_not_lt fun hlt => hok (by rw [hdirect hlt])⟩
  obtain ⟨ok, inode', s, t, hto, ⟨hstored, hsame, hfills⟩, hexact⟩ :=
    writeTo_cases hw (hdrives ▸ h : Intact fs e.drives inode) hce hsize source hblock
  refine ⟨ok, inode', e.after s t, hto, ⟨hstored.of_drives hdrives, hsame, fun hok hlt => ?_⟩, hexact.trans ?_⟩
  · obtain ⟨hpointers, hcount⟩ := hfills hok hlt
    rw [hstate] at hcount
    exact ⟨hpointers, hcount⟩
  rw [Enters]
  by_cases hok : (readAll faults fs.toFs (fs.path d.drives inode k) d.toState d.time).1 = true
  · rw [if_pos hok] at hvalue
    subst hvalue
    split
    · refine and_congr_right fun hlt => ?_
      rw [hdirect hlt] at hstate' htime
      rw [Room, Room, bitmapsOf, bitmapsOf, hstate, hstate', htime]
    · split
      · next hpart => rw [readAll_append, and_iff_right hok, ← hstate', ← htime, imp_iff_right hpart]
      · next hpart => exact iff_of_true (fun h => absurd h hpart) (by rwa [List.append_nil])
  · rw [if_neg hok] at hvalue
    have hfar : ¬k < 12 := fun hlt => hok (by rw [hdirect hlt])
    rw [if_pos hvalue]
    refine iff_of_false (fun h => hfar h.1) ?_
    split
    · exact fun h => hfar h.1
    · split
      · exact fun h => hok ((readAll_append ..).mp h).1
      · rwa [List.append_nil]

end

/-! ### The loop -/

/-- While there are free blocks for the holes among the direct blocks, a round gets in and leaves enough
of them for the rest. -/
theorem Round.room {pos stop w : Nat} {ok : Bool}
    (h : Round fs inode d.toAllocState (pos / fs.blockSize) w n source ok inode' s')
    (hexact : ok = true ↔ Enters faults fs inode d (pos / fs.blockSize) w n)
    (hw : ∀ t, faults.writes t = .done) (hreads : ∀ t, faults.reads t = true)
    (hc : Consistent fs d.toAllocState) (hlt : pos < stop) (hstop : stop ≤ 12 * fs.blockSize)
    (hroom : (fs.holes inode pos stop).card ≤ d.freeBlocks.toNat) :
    ok = true ∧ (fs.holes inode' (pos + n) stop).card ≤ s'.freeBlocks.toNat := by
  have hk : pos / fs.blockSize < 12 := (Nat.div_lt_iff_lt_mul fs.blockSize_pos).mpr (by omega)
  have hok : ok = true := by
    rw [hexact, enters_iff hw hreads hc, fs.blockMap_of_lt _ _ hk]
    by_cases hhole : iBlock inode (pos / fs.blockSize) = 0
    · exact .inr ⟨hk, hc.counted.exists_free hc.layout
        ((Finset.card_pos.mpr ⟨_, mem_holes hk rfl hlt hhole⟩).trans_le hroom)⟩
    · exact .inl hhole
  obtain ⟨hpointers, hcount⟩ := h.fills hok hk
  have hcard := card_holes_add (n := n) hk rfl hlt hpointers
  exact ⟨hok, by omega⟩

/-- A write of at most `size` bytes from position `pos` on ended after `n` bytes. It ends at once just
when the bytes for the first block do not get in; without read errors it is complete when it is to
direct blocks and there are free blocks for the holes. -/
structure Ended (faults : Faults) (fs : AllocFs) (inode : Bytes) (d : Disk) (pos size : Nat)
    (source : Bytes) (n : Nat) (inode' : Bytes) (d' : Disk) : Prop where
  le : n ≤ size
  stored : Stored fs inode d.toAllocState pos n source inode' d'.toAllocState
  same : n = 0 → inode' = inode
  first : 0 < size → (0 < n ↔ Enters faults fs inode d (pos / fs.blockSize) (pos % fs.blockSize)
    (min (fs.blockSize - pos % fs.blockSize) size))
  full : (∀ t, faults.reads t = true) → pos + size ≤ 12 * fs.blockSize →
    (fs.holes inode pos (pos + size)).card ≤ d.freeBlocks.toNat → n = size

theorem Ended.none (h : Intact fs d.drives inode) (hc : Consistent fs d.toAllocState) (pos : Nat)
    (source : Bytes) : Ended faults fs inode d pos 0 source 0 inode d :=
  ⟨Nat.le_refl _, .of_free (.refl hc h _ _) fun _ => .rfl, fun _ => rfl,
    fun hlt => absurd hlt (Nat.lt_irrefl 0), fun _ _ _ => rfl⟩

theorem writeLoop_cases (hw : ∀ t, faults.writes t = .done) {size : BitVec 32}
    (hrange : offset.toNat + size.toNat ≤ 2 ^ 32) (buffer : Bytes) (fuel : Nat) (done : BitVec 32)
    (h : Intact fs d.drives inode) (hc : Consistent fs d.toAllocState)
    (hdone : done.toNat ≤ size.toNat) (hfuel : size.toNat ≤ done.toNat + fuel) :
    ∃ n inode' d', writeLoop faults fs offset size buffer fuel done inode d =
        (done + BitVec.ofNat 32 n, inode', d') ∧
      Ended faults fs inode d (offset.toNat + done.toNat) (size.toNat - done.toNat)
        (fun i => buffer (done.toNat + i)) n inode' d' := by
  induction fuel generalizing done inode d with
  | zero =>
    rw [writeLoop, Nat.sub_eq_zero_of_le (show size.toNat ≤ done.toNat from hfuel)]
    exact ⟨0, inode, d, by rw [BitVec.add_zero], .none h hc _ _⟩
  | succ fuel ih =>
    rw [writeLoop]
    by_cases hge : size.toNat ≤ done.toNat
    · rw [if_pos hge, Nat.sub_eq_zero_of_le hge]
      exact ⟨0, inode, d, by rw [BitVec.add_zero], .none h hc _ _⟩
    rw [if_neg hge]
    have hpos := fs.blockSize_pos
    have hlt := Nat.lt_of_not_le hge
    dsimp only
    generalize hn : min (fs.blockSize - (offset + done).toNat % fs.blockSize) (size - done).toNat = n
    obtain ⟨hadd, hsub, hnext⟩ := chunk_facts hrange hlt (n := n) (by omega)
    rw [hadd]
    rw [hadd, hsub] at hn
    have hmod := Nat.mod_lt (offset.toNat + done.toNat) hpos
    have hsum := Nat.div_add_mod' (offset.toNat + done.toNat) fs.blockSize
    have hk : (offset.toNat + done.toNat) / fs.blockSize < 2 ^ 32 :=
      Nat.lt_of_le_of_lt (Nat.div_le_self _ _) (by omega)
    obtain ⟨ok, inode₁, d₁, hchunk, hround, hexact⟩ := writeChunk_cases hw h hc
      (show (offset.toNat + done.toNat) % fs.blockSize + n ≤ fs.blockSize by omega)
      (fun i => buffer (done.toNat + i)) hk
    have hstored := hround.stored
    rw [hsum] at hstored
    rw [hchunk]
    have hlo : offset.toNat + done.toNat < offset.toNat + done.toNat + (size.toNat - done.toNat) := by omega
    cases ok with
    | false =>
      refine ⟨0, inode₁, d₁, by rw [BitVec.add_zero], Nat.zero_le _, hstored, fun _ => hround.same rfl, fun _ => ?_,
        fun hreads hend hroom => absurd (hround.room hexact hw hreads hc hlo hend hroom).1 Bool.false_ne_true⟩
      rw [hn]
      exact iff_of_false (Nat.lt_irrefl 0) fun henters => Bool.false_ne_true (hexact.mpr henters)
    | true =>
      dsimp only
      rw [if_pos rfl] at hstored
      obtain ⟨m, inode₂, d₂, hloop, hrest⟩ := ih (done + BitVec.ofNat 32 n)
        hstored.intact hstored.consistent (by omega) (by omega)
      rw [hnext] at hrest
      have hle := hrest.le
      refine ⟨n + m, inode₂, d₂, ?_, by omega, ?_, fun hzero => absurd hzero (by omega), fun _ => ?_,
        fun hreads hend hroom => ?_⟩
      · rw [hloop, BitVec.ofNat_add, BitVec.add_assoc]
      · apply hstored.trans hc
        simpa only [Nat.add_assoc] using hrest.stored
      · rw [hn]
        exact iff_of_true (by omega) (hexact.mp rfl)
      · have hend' : offset.toNat + (done.toNat + n) + (size.toNat - (done.toNat + n)) =
            offset.toNat + done.toNat + (size.toNat - done.toNat) := by omega
        have hall := hrest.full hreads
        rw [hend', ← Nat.add_assoc] at hall
        have := hall hend (hround.room hexact hw hreads hc hlo hend hroom).2
        omega

theorem ext2WriteFile_cases (hw : ∀ t, faults.writes t = .done) (h : Intact fs d.drives inode)
    (hc : Consistent fs d.toAllocState) {size : BitVec 32}
    (hrange : offset.toNat + size.toNat ≤ 2 ^ 32) (buffer : Bytes) :
    ∃ n inode' d', ext2WriteFile faults fs inode offset size buffer d =
        (BitVec.ofNat 32 n, extendSize fs inode' (offset + BitVec.ofNat 32 n), d') ∧
      Ended faults fs inode d offset.toNat size.toNat buffer n inode' d' := by
  have hzero : (0 : BitVec 32).toNat = 0 := rfl
  obtain ⟨n, inode', d', hloop, hended⟩ := writeLoop_cases hw hrange buffer size.toNat 0 h hc
    (Nat.zero_le _) (Nat.le_add_left ..)
  simp only [hzero, Nat.zero_add, Nat.add_zero, Nat.sub_zero] at hended
  rw [show (0 : BitVec 32) + BitVec.ofNat 32 n = BitVec.ofNat 32 n from BitVec.zero_add _] at hloop
  exact ⟨n, inode', d', by rw [ext2WriteFile, hloop], hended⟩

/-! ### Whole writes -/

/-- What a call that returns `n` should have done: the file has changed from `offset` to
`offset + n` only, its size covers what was written, and the inode refers to the blocks taken. -/
structure WriteMeets (fs : AllocFs) (d : Disk) (inode : Bytes) (offset : BitVec 32)
    (result : BitVec 32 × Bytes × Disk) : Prop where
  contents : ∀ p < (fileSize inode).toNat,
    ¬(offset.toNat ≤ p ∧ p < offset.toNat + result.1.toNat) →
      fs.byteAt result.2.2.toAllocState result.2.1 p = fs.byteAt d.toAllocState inode p
  size : (iSize result.2.1).toNat = if result.1 = 0 then (iSize inode).toNat
    else max (iSize inode).toNat (offset.toNat + result.1.toNat)
  linked : ∀ c, fs.Free d.drives c → ¬fs.Free result.2.2.drives c →
    ∃ k < 12, iBlock result.2.1 k = c

theorem Ended.writeMeets_iff {size : Nat} {buffer : Bytes} {d' : Disk}
    (h : Ended faults fs inode d offset.toNat size buffer n inode' d')
    (hrange : offset.toNat + size < 2 ^ 32) : WriteMeets fs d inode offset
        (BitVec.ofNat 32 n, extendSize fs inode' (offset + BitVec.ofNat 32 n), d') ↔
      0 < n ∨ offset.toNat ≤ (iSize inode).toNat := by
  have hle := h.le
  have hn : (BitVec.ofNat 32 n).toNat = n := by rw [BitVec.toNat_ofNat, Nat.mod_eq_of_lt (by omega)]
  have hend : (offset + BitVec.ofNat 32 n).toNat = offset.toNat + n := by
    rw [BitVec.toNat_add, hn, Nat.mod_eq_of_lt (by omega)]
  have hzero : BitVec.ofNat 32 n = 0 ↔ n = 0 := by
    rw [← BitVec.toNat_inj, hn]
    rfl
  have hsize := (h.stored.fileSize (offset + BitVec.ofNat 32 n)).1
  rw [hend] at hsize
  constructor
  · intro hmeets
    have hnew := hmeets.size
    dsimp only at hnew
    rw [hsize, hn] at hnew
    by_cases hn0 : n = 0
    · rw [if_pos (hzero.mpr hn0)] at hnew
      omega
    · omega
  · intro hcases
    refine ⟨fun p _ hout => ?_, ?_, fun c hfree hused => ?_⟩
    · dsimp only at hout ⊢
      rw [hn] at hout
      rw [AllocFs.byteAt, blockMap_extendSize]
      refine (h.stored.byteAt p).trans ?_
      rw [copyAt, if_neg hout]
    · dsimp only
      rw [hsize, hn]
      by_cases hn0 : n = 0
      · rw [if_pos (hzero.mpr hn0)]
        omega
      · rw [if_neg (mt hzero.mp hn0)]
    · obtain ⟨k, hk, hslot⟩ := h.stored.linked c hfree hused
      exact ⟨k, hk, (iBlock_extendSize ..).trans hslot⟩

def smallDisk : Disk := { toAllocState := smallState }

/-- A file of one block, block 2. -/
def blockTwo : Bytes := setISize (setIBlock (fun _ => 0) 0 2) 1024

theorem iBlock_blockTwo (k : Nat) : iBlock blockTwo k = if k = 0 then 2 else 0 := by
  have hfield : iBlock blockTwo k = iBlock (setIBlock (fun _ => 0) 0 2) k := by
    rw [iBlock, blockTwo, setISize, LittleEndian.get_put_of_disjoint _ _ (by omega)]
    rfl
  rw [hfield, iBlock_setIBlock, iBlock_zeros]

theorem blockTwo_intact : Intact (smallFs 1) smallDisk.drives blockTwo := by
  refine intact_direct _ _ (fun j hj => ?_) (fun k _ hne => ?_) fun k _ hne j _ heq => ?_
  · rw [iBlock_blockTwo, if_neg (by omega)]
  · have hk : k = 0 := by
      by_contra hk
      exact hne (by rw [iBlock_blockTwo, if_neg hk])
    subst hk
    exact ⟨by decide, mt (smallFs_free 1 2).mp (by decide), fun _ _ => show (2 : BitVec 32) ≠ 3 by decide⟩
  · simp only [iBlock_blockTwo] at hne heq
    split at hne
    · next hk =>
      rw [if_pos hk] at heq
      split at heq
      · next hj => rw [hj, hk]
      · exact absurd heq (by decide)
    · exact absurd rfl hne

end Faulty

/-! ### Drives without errors -/

def ext2WriteFile (fs : AllocFs) (inode : Bytes) (offset size : BitVec 32) (buffer : Bytes)
    (s : AllocState) : BitVec 32 × Bytes × AllocState :=
  let (bytesWritten, inode, d) := Faulty.ext2WriteFile noFaults fs inode offset size buffer { toAllocState := s }
  (bytesWritten, inode, d.toAllocState)

variable {fs : AllocFs} {s : AllocState} {inode : Bytes}

theorem writeFile_spec (hc : Consistent fs s) (h : Intact fs s.drives inode) {offset size : BitVec 32}
    (hrange : offset.toNat + size.toNat ≤ 2 ^ 32) (data : Bytes) :
    ∃ n inode' s', ext2WriteFile fs inode offset size data s =
        (BitVec.ofNat 32 n, extendSize fs inode' (offset + BitVec.ofNat 32 n), s') ∧
      n ≤ size.toNat ∧ Wrote fs inode s offset.toNat n data inode' s' ∧ (n = 0 → inode' = inode) ∧
      (offset.toNat + size.toNat ≤ 12 * fs.blockSize →
        (fs.holes inode offset.toNat (offset.toNat + size.toNat)).card ≤ s.freeBlocks.toNat →
          n = size.toNat) := by
  obtain ⟨n, inode', d', hwrite, hended⟩ := @Faulty.ext2WriteFile_cases noFaults fs { toAllocState := s } inode
    offset (fun _ => rfl) h hc size hrange data
  exact ⟨n, inode', d'.toAllocState, by rw [ext2WriteFile, hwrite], hended.le, hended.stored.toWrote, hended.same,
    hended.full fun _ => rfl⟩

theorem writeFile_correct (hc : Consistent fs s) (h : Intact fs s.drives inode) {offset size : BitVec 32}
    (hend : offset.toNat + size.toNat ≤ 12 * fs.blockSize)
    (hroom : (fs.holes inode offset.toNat (offset.toNat + size.toNat)).card ≤ s.freeBlocks.toNat)
    (htail : ∀ p, (fileSize inode).toNat ≤ p → p < 12 * fs.blockSize → fs.byteAt s inode p = 0)
    (data : Bytes) {f : Nat → Byte} (hold : ReadsAs fs.toFs s.toState inode f) :
    WriteCorrect fs s inode offset size data f (ext2WriteFile fs inode offset size data s) := by
  have hsize := fs.blockSize_le
  have hrange : offset.toNat + size.toNat ≤ 2 ^ 32 := by omega
  obtain ⟨n, inode', s', hwrite, -, hwrote, -, hall⟩ := writeFile_spec hc h hrange data
  obtain rfl := hall hend hroom
  rw [BitVec.ofNat_toNat, BitVec.setWidth_eq] at hwrite
  rw [hwrite]
  have hnewEnd : (offset + size).toNat = offset.toNat + size.toNat := by bv_omega
  obtain ⟨hisize, hfsize⟩ := hwrote.fileSize (offset + size)
  have hfold := fileSize_toNat inode
  refine ⟨rfl, hisize.trans (by rw [hnewEnd]), ?_, fun c ho => (hwrote.outside c ho).2⟩
  rw [readsAs_iff hwrote.consistent.counted.coherent.fresh]
  intro p hp h32
  rw [blockMap_extendSize]
  refine (hwrote.byteAt p).trans ?_
  rw [SparseBlocks.copyAt, overwrite]
  split
  · rfl
  split
  · next hlt => exact (readsAs_iff hc.counted.coherent.fresh).mp hold p hlt h32
  · next hge =>
    rw [hfsize, hnewEnd] at hp
    have hhigh := highSize_or inode
    exact htail p (by omega) (by omega)

/-- The end of the only block and the beginning of a new one. -/
theorem smallState_written : WriteCorrect (smallFs 1) smallState Faulty.blockTwo 1020 8 (fun _ => 7)
    ((smallFs 1).byteAt smallState Faulty.blockTwo)
    (ext2WriteFile (smallFs 1) Faulty.blockTwo 1020 8 (fun _ => 7) smallState) := by
  refine writeFile_correct smallFs_consistent Faulty.blockTwo_intact (by decide) (by decide +kernel)
    (fun p hp _ => if_pos ?_) _ ((readsAs_iff smallFs_consistent.counted.coherent.fresh).mpr fun _ _ _ => rfl)
  have hne : p / (smallFs 1).blockSize ≠ 0 := Nat.div_ne_zero_iff.mpr ⟨by decide, hp⟩
  have hfar (j : Nat) (hj : 12 ≤ j) : iBlock Faulty.blockTwo j = 0 := by
    rw [Faulty.iBlock_blockTwo, if_neg (by omega)]
  rw [(blockMap_direct _ _ hfar _).1, Faulty.iBlock_blockTwo, if_neg hne, ite_self]

end TocinOS.Ext2

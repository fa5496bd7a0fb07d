import TocinOS.Ext2Write

/-! The pointer tree of an inode: twelve direct blocks, and one, two and three levels of indirect
blocks below the slots 12, 13 and 14. -/

namespace TocinOS.Ext2

inductive Path
  | direct (i : Nat)
  | single (i : Nat)
  | double (i j : Nat)
  | triple (i j l : Nat)
  deriving DecidableEq

namespace Path

variable {fs : Fs} {p : Nat} {path : Path}

def InTree (p : Nat) : Path → Prop
  | direct i => i < 12
  | single i => i < p
  | double i j => i < p ∧ j < p
  | triple i j l => i < p ∧ j < p ∧ l < p

/-- The block of the file that the layout puts at the end of the way: the blocks are numbered
level by level, within a level in the order of the entries. -/
def index (p : Nat) : Path → Nat
  | direct i => i
  | single i => 12 + i
  | double i j => 12 + p + (i * p + j)
  | triple i j l => 12 + p + p * p + ((i * p + j) * p + l)

/-- What the layout has at the end of the way. -/
def entry (fs : Fs) (drives : Drives) (inode : Bytes) : Path → BitVec 32
  | direct i => iBlock inode i
  | single i => fs.layoutPointer drives (iBlock inode 12) i
  | double i j => fs.layoutPointer drives (fs.layoutPointer drives (iBlock inode 13) i) j
  | triple i j l =>
    fs.layoutPointer drives (fs.layoutPointer drives (fs.layoutPointer drives (iBlock inode 14) i) j) l

def route : Path → Nat × List Nat
  | direct i => (i, [])
  | single i => (12, [i])
  | double i j => (13, [i, j])
  | triple i j l => (14, [i, j, l])

theorem entry_eq (fs : Fs) (drives : Drives) (inode : Bytes) (path : Path) :
    path.entry fs drives inode = path.route.2.foldl (fs.layoutPointer drives) (iBlock inode path.route.1) := by
  cases path <;> rfl

theorem route_lt {path : Path} (h : path.InTree p) : ∀ index ∈ path.route.2, index < p := by
  cases path with
  | direct i => exact List.forall_mem_nil _
  | single i => exact List.forall_mem_singleton.mpr h
  | double i j => exact List.forall_mem_cons.mpr ⟨h.1, List.forall_mem_singleton.mpr h.2⟩
  | triple i j l =>
    exact List.forall_mem_cons.mpr ⟨h.1, List.forall_mem_cons.mpr ⟨h.2.1, List.forall_mem_singleton.mpr h.2.2⟩⟩

theorem digits_lt {p i j : Nat} (hi : i < p) (hj : j < p) : i * p + j < p * p :=
  calc i * p + j < i * p + p := Nat.add_lt_add_left hj _
    _ = (i + 1) * p := (Nat.succ_mul i p).symm
    _ ≤ p * p := Nat.mul_le_mul_right p hi

theorem digits_div {p i j : Nat} (hj : j < p) : (i * p + j) / p = i ∧ (i * p + j) % p = j := by
  have hpos : 0 < p := Nat.zero_lt_of_lt hj
  rw [Nat.mul_comm, Nat.mul_add_div hpos, Nat.mul_add_mod, Nat.div_eq_of_lt hj, Nat.mod_eq_of_lt hj]
  exact ⟨rfl, rfl⟩

theorem route_index (h : path.InTree fs.ptrsPerBlock) :
    fs.route (path.index fs.ptrsPerBlock) = path.route := by
  simp only [Fs.route]
  generalize fs.ptrsPerBlock = p at h
  generalize hk : path.index p = k
  cases path with
  | direct i =>
    subst hk
    exact if_pos h
  | single i =>
    simp only [InTree] at h
    simp only [index] at hk
    subst hk
    rw [if_neg (by omega), if_pos (by omega), Nat.add_sub_cancel_left]
    rfl
  | double i j =>
    have hlt := digits_lt h.1 h.2
    have hdiv := digits_div (i := i) h.2
    simp only [index] at hk
    subst hk
    rw [if_neg (by omega), if_neg (by omega),
      show 12 + p + (i * p + j) - 12 - p = i * p + j by omega, if_pos hlt, hdiv.1, hdiv.2]
    rfl
  | triple i j l =>
    obtain ⟨hi, hj, hl⟩ := h
    have hlt := digits_lt hj hl
    have hdiv := digits_div (i := j) hl
    have hval : (i * p + j) * p + l = i * (p * p) + (j * p + l) := by
      rw [Nat.add_mul, Nat.mul_assoc, Nat.add_assoc]
    have hdiv' := digits_div (p := p * p) (i := i) hlt
    simp only [index] at hk
    subst hk
    rw [if_neg (by omega), if_neg (by omega),
      show 12 + p + p * p + ((i * p + j) * p + l) - 12 - p = p * p + ((i * p + j) * p + l) by omega,
      if_neg (by omega), Nat.add_sub_cancel_left, hval, hdiv'.1, hdiv'.2, hdiv.1, hdiv.2]
    rfl

def ofRoute : Nat × List Nat → Path
  | (_, [i]) => single i
  | (_, [i, j]) => double i j
  | (_, [i, j, l]) => triple i j l
  | (i, _) => direct i

theorem ofRoute_route (path : Path) : ofRoute path.route = path := by
  cases path <;> rfl

theorem index_inj {path path' : Path} (h : path.InTree fs.ptrsPerBlock)
    (h' : path'.InTree fs.ptrsPerBlock)
    (heq : path.index fs.ptrsPerBlock = path'.index fs.ptrsPerBlock) : path = path' := by
  rw [← ofRoute_route path, ← ofRoute_route path', ← route_index h, ← route_index h', heq]

def treeSize (p : Nat) : Nat := 12 + p + p * p + p * p * p

theorem index_lt (h : path.InTree p) : path.index p < treeSize p := by
  rw [treeSize]
  cases path with
  | direct i =>
    simp only [InTree] at h
    simp only [index]
    omega
  | single i =>
    simp only [InTree] at h
    simp only [index]
    omega
  | double i j =>
    have hlt := digits_lt h.1 h.2
    simp only [index]
    omega
  | triple i j l =>
    have hlt := Nat.mul_le_mul_right p (digits_lt h.1 h.2.1)
    have hl := h.2.2
    rw [Nat.succ_mul] at hlt
    simp only [index]
    omega

theorem exists_index (hp : 0 < p) {k : Nat} (hk : k < treeSize p) :
    ∃ path : Path, path.InTree p ∧ path.index p = k := by
  rw [treeSize] at hk
  by_cases hdirect : k < 12
  · exact ⟨direct k, hdirect, rfl⟩
  by_cases hsingle : k - 12 < p
  · exact ⟨single (k - 12), hsingle, by simp only [index]; omega⟩
  by_cases hdouble : k - 12 - p < p * p
  · refine ⟨double ((k - 12 - p) / p) ((k - 12 - p) % p),
      ⟨Nat.div_lt_of_lt_mul hdouble, Nat.mod_lt _ hp⟩, ?_⟩
    simp only [index]
    rw [Nat.div_add_mod']
    omega
  · generalize hrest : k - 12 - p - p * p = rest
    have hlt : rest < p * p * p := by omega
    refine ⟨triple (rest / p / p) (rest / p % p) (rest % p),
      ⟨Nat.div_lt_of_lt_mul (Nat.div_lt_of_lt_mul ?_), Nat.mod_lt _ hp, Nat.mod_lt _ hp⟩, ?_⟩
    · rwa [← Nat.mul_assoc]
    · simp only [index]
      rw [Nat.div_add_mod', Nat.div_add_mod']
      omega

theorem blockMap_of_le {k : Nat} (hp : 0 < fs.ptrsPerBlock) (hk : treeSize fs.ptrsPerBlock ≤ k)
    (drives : Drives) (inode : Bytes) : fs.blockMap drives inode k = 0 := by
  have hpp := Nat.mul_pos hp hp
  rw [treeSize, Nat.mul_assoc] at hk
  rw [Fs.blockMap]
  simp only [Fs.route]
  rw [if_neg (by omega), if_neg (by omega), if_neg (by omega)]
  dsimp only
  rw [List.foldl_cons, Fs.pointer, if_pos, foldl_pointer_zero]
  refine .inr ?_
  rw [Nat.le_div_iff_mul_le hpp]
  omega

end Path

/-! ### Sectors that the driver cannot reach -/

variable {fs : Fs} {drives : Drives} {b : BitVec 32} {x : Byte}

/-- The byte `x` in all sectors whose numbers do not fit 28 bits. -/
def filled (drives : Drives) (x : Byte) : Drives :=
  fun drive sector => if sector < 2 ^ 28 then drives drive sector else fun _ => x

def filledWord (x : Byte) : BitVec 32 := BitVec.ofNat 32 (LittleEndian.get (fun _ => x) 0 4)

theorem alike_filled (fs : Fs) (drives : Drives) (x : Byte) : Alike fs drives (filled drives x) :=
  fun _ hlt => if_pos hlt

theorem layoutPointer_filled {index : Nat} (hsize : fs.sectorsPerBlock ∣ 2 ^ 28) (hb : ¬fs.Addressable b)
    (hindex : index < fs.ptrsPerBlock) : fs.layoutPointer (filled drives x) b index = filledWord x := by
  have hfar : 2 ^ 28 ≤ b.toNat * fs.sectorsPerBlock := by
    obtain ⟨n, hn⟩ := hsize
    rw [Fs.Addressable, hn, Nat.mul_comm, Nat.not_le] at hb
    rw [hn, Nat.mul_comm]
    exact Nat.mul_le_mul_right _ (Nat.le_of_lt_succ (Nat.lt_of_mul_lt_mul_left hb))
  have hne : b ≠ 0 := by
    rintro rfl
    exact absurd hfar (by simp)
  rw [Fs.layoutPointer, if_neg (not_or.mpr ⟨hne, Nat.not_le.mpr hindex⟩), filledWord]
  congr 1
  have hshift : LittleEndian.get (fun _ => x) (4 * index) 4 = LittleEndian.get (fun _ => x) 0 4 := rfl
  rw [← hshift]
  apply LittleEndian.get_congr
  intro i hle hlt
  have hin : i < fs.blockSize := by
    rw [Fs.ptrsPerBlock] at hindex
    omega
  rw [Fs.bytes, Fs.loaded, dif_pos hin, Fs.layoutBlock, filled,
    if_neg (Nat.not_lt.mpr (Nat.le_trans hfar (Nat.le_add_right ..)))]

theorem foldl_filledWord (hsize : fs.sectorsPerBlock ∣ 2 ^ 28) {indices : List Nat}
    (hindices : ∀ index ∈ indices, index < fs.ptrsPerBlock)
    (hx : filledWord x = 0 ∨ ¬fs.Addressable (filledWord x)) :
    indices.foldl (fs.layoutPointer (filled drives x)) (filledWord x) = filledWord x := by
  induction indices with
  | nil => rfl
  | cons index rest ih =>
    have hstep : fs.layoutPointer (filled drives x) (filledWord x) index = filledWord x := by
      rcases hx with hzero | hfar
      · rw [hzero, Fs.layoutPointer, if_pos (.inl rfl)]
      · exact layoutPointer_filled hsize hfar (hindices index (List.mem_cons_self ..))
    rw [List.foldl_cons, hstep]
    exact ih fun index h => hindices index (List.mem_cons_of_mem _ h)

/-- Behind a pointer block that the driver cannot reach, the layout has what is filled in there. -/
theorem foldl_filled (hsize : fs.sectorsPerBlock ∣ 2 ^ 28) {indices : List Nat}
    (hindices : ∀ index ∈ indices, index < fs.ptrsPerBlock)
    (hx : filledWord x = 0 ∨ ¬fs.Addressable (filledWord x))
    (h : ∃ c ∈ fs.visits drives b indices, ¬fs.Addressable c) :
    indices.foldl (fs.layoutPointer (filled drives x)) b = filledWord x := by
  induction indices generalizing b with
  | nil =>
    obtain ⟨c, hmem, -⟩ := h
    exact absurd hmem (List.not_mem_nil)
  | cons index rest ih =>
    have hrest := fun k hk => hindices k (List.mem_cons_of_mem index hk)
    obtain ⟨c, hmem, hfar⟩ := h
    rw [Fs.visits] at hmem
    split at hmem
    · exact absurd hmem (List.not_mem_nil)
    rw [List.foldl_cons]
    by_cases hb : fs.Addressable b
    · have hstep : fs.layoutPointer (filled drives x) b index = fs.pointer drives b index := by
        rw [Fs.layoutPointer, Fs.pointer, ← Fs.block_eq_layoutBlock hb, (alike_filled fs drives x).block]
      rw [hstep]
      rcases List.mem_cons.mp hmem with rfl | hmem
      · exact absurd hb hfar
      · exact ih hrest ⟨c, hmem, hfar⟩
    · rw [layoutPointer_filled hsize hb (hindices index (List.mem_cons_self ..))]
      exact foldl_filledWord hsize hrest hx

/-! ### Lookups -/

open Faulty (Disk)
open TocinOS.Ext2.Path (treeSize)

/-- The call returns the entry that the layout assigns to the index, and 0 behind the tree. -/
structure Resolves (fs : Fs) (inode : Bytes) (s : State) (k : BitVec 32) : Prop where
  entry : ∀ path : Path, path.InTree fs.ptrsPerBlock → path.index fs.ptrsPerBlock = k.toNat →
    (ext2GetInodeBlock fs inode k s).1 = path.entry fs s.drives inode
  behind : treeSize fs.ptrsPerBlock ≤ k.toNat → (ext2GetInodeBlock fs inode k s).1 = 0

variable {inode : Bytes} {s : State} {k : BitVec 32}

theorem Fs.ptrs_bounds (fs : Fs) : 0 < fs.ptrsPerBlock ∧ fs.ptrsPerBlock ≤ 1024 := by
  have hlow := fs.le_blockSize
  have hhigh := fs.blockSize_le
  rw [Fs.ptrsPerBlock]
  omega

theorem Fresh.lookup_eq (h : Fresh fs s) :
    (ext2GetInodeBlock fs inode k s).1 = fs.blockMap s.drives inode k.toNat :=
  (h.getInodeBlock (fun _ => True) inode k fun _ _ => trivial).1

theorem Fresh.alike (h : Fresh fs s) (hdrives : Alike fs s.drives drives) : Fresh fs { s with drives } :=
  fun i hi hv => (h i hi hv).trans (hdrives.block _).symm

/-- The driver does not see the difference. -/
theorem Alike.lookup (h : Alike fs s.drives drives) (hfresh : Fresh fs s) (inode : Bytes) (k : BitVec 32) :
    fs.path drives inode k.toNat = fs.path s.drives inode k.toNat ∧
      (ext2GetInodeBlock fs inode k { s with drives }).1 = (ext2GetInodeBlock fs inode k s).1 := by
  obtain ⟨hpath, hmap⟩ := @Fs.map_congr s.drives drives k.toNat inode fs inode rfl fun c _ => h.block c
  rw [(hfresh.alike h).lookup_eq, hfresh.lookup_eq]
  exact ⟨hpath, hmap⟩

theorem Fresh.resolves (hfresh : Fresh fs s) (h : k.toNat < treeSize fs.ptrsPerBlock →
    ∀ b ∈ fs.path s.drives inode k.toNat, fs.Addressable b) : Resolves fs inode s k := by
  refine ⟨fun path hpath hk => ?_, fun hk => ?_⟩
  · have hall := h (hk ▸ Path.index_lt hpath)
    rw [hfresh.lookup_eq, Path.entry_eq, ← Path.route_index hpath, hk]
    exact (Fs.foldl_layoutPointer hall).symm
  · rw [hfresh.lookup_eq, Path.blockMap_of_le fs.ptrs_bounds.1 hk]

/-- For every index of 32 bits, whatever the sectors hold that the driver cannot reach: the lookup
resolves the index just when it can reach the pointer blocks on the way. It returns 0 when one of
them cannot be read. Each index within the tree has one path of its own. -/
theorem inode_block_is_tree_entry (fs : Fs) (inode : Bytes) (s : State)
    (hsize : fs.sectorsPerBlock ∣ 2 ^ 28) (hfresh : Fresh fs s) :
    (∀ k : BitVec 32, (∀ drives, Alike fs s.drives drives → Resolves fs inode { s with drives } k) ↔
      (k.toNat < treeSize fs.ptrsPerBlock → ∀ b ∈ fs.path s.drives inode k.toNat, fs.Addressable b)) ∧
    (∀ (faults : Faults) (d : Disk) (k : BitVec 32), d.toState = s →
      (Faulty.ext2GetInodeBlock faults fs inode k d).1 =
        if (readAll faults fs (fs.path s.drives inode k.toNat) s d.time).1 then
          (ext2GetInodeBlock fs inode k s).1 else 0) ∧
    (∀ k : BitVec 32, k.toNat < treeSize fs.ptrsPerBlock →
      ∃! path : Path, path.InTree fs.ptrsPerBlock ∧ path.index fs.ptrsPerBlock = k.toNat) ∧
    ∀ path : Path, path.InTree fs.ptrsPerBlock → path.index fs.ptrsPerBlock < 2 ^ 32 := by
  have hptrs := fs.ptrs_bounds
  refine ⟨fun k => ⟨fun h hk => ?_, fun h drives hdrives => ?_⟩, fun faults d k hd => ?_, fun k hk => ?_,
    fun path hpath => ?_⟩
  · by_contra hall
    have hnot : ∃ b ∈ fs.path s.drives inode k.toNat, ¬fs.Addressable b := by
      by_contra hnone
      exact hall fun b hb => not_not.mp fun hfar => hnone ⟨b, hb, hfar⟩
    obtain ⟨path, hpath, hindex⟩ := Path.exists_index hptrs.1 hk
    -- the lookup returns one value; the layout has either of two, as the far sectors are filled
    have hvalue (x : Byte) (hx : filledWord x = 0 ∨ ¬fs.Addressable (filledWord x)) :
        (ext2GetInodeBlock fs inode k s).1 = filledWord x := by
      have halike := alike_filled fs s.drives x
      have hentry := (h _ halike).entry path hpath hindex
      rw [(halike.lookup hfresh inode k).2, Path.entry_eq] at hentry
      refine hentry.trans (foldl_filled hsize (Path.route_lt hpath) hx ?_)
      rw [← Path.route_index hpath, hindex]
      exact hnot
    have hzero := hvalue 0 (.inl (by decide))
    have hones := hvalue 0xFF (.inr fun hfar => ?_)
    · exact absurd (hzero.symm.trans hones) (by decide)
    · have := fs.sectors_pos
      rw [Fs.Addressable, show (filledWord 0xFF).toNat = 2 ^ 32 - 1 by decide] at hfar
      omega
  · refine (hfresh.alike hdrives).resolves ?_
    dsimp only
    rwa [(hdrives.lookup hfresh inode k).1]
  · subst hd
    rw [hfresh.lookup_eq]
    exact (@Faulty.finds_getInodeBlock fs (fun _ => True) faults d hfresh inode k fun _ _ => trivial).value
  · obtain ⟨path, hpath, hindex⟩ := Path.exists_index hptrs.1 hk
    exact ⟨path, ⟨hpath, hindex⟩, fun _ h => Path.index_inj h.1 hpath (h.2.trans hindex.symm)⟩
  · have hlt := Path.index_lt hpath
    have hsquare := Nat.mul_le_mul hptrs.2 hptrs.2
    have hcube := Nat.mul_le_mul hsquare hptrs.2
    rw [treeSize] at hlt
    omega

/-- Block 3 of the small volume, its bitmap, taken for a block of pointers. -/
theorem single_entry_found :
    (ext2GetInodeBlock (smallFs 1).toFs (setIBlock (fun _ => 0) 12 3) 17 smallState.toState).1 =
      0xFEFEFEFE := by
  have hpath : (smallFs 1).path smallState.drives (setIBlock (fun _ => 0) 12 3) 17 = [3] := by decide +kernel
  have hresolves := ((inode_block_is_tree_entry (smallFs 1).toFs (setIBlock (fun _ => 0) 12 3)
    smallState.toState (by decide) smallFs_consistent.counted.coherent.fresh).1 17).mpr
      (fun _ b hb => by
        obtain rfl := List.mem_singleton.mp (hpath ▸ hb)
        decide) smallState.drives fun _ _ => rfl
  exact (hresolves.entry (.single 5) (show 5 < 1024 / 4 by decide) rfl).trans (by decide +kernel)

/-- The sectors of block 0x80000003 end in the 28 bits of those of block 3. -/
theorem far_pointer_not_resolved :
    ¬Resolves (smallFs 1).toFs (setIBlock (fun _ => 0) 12 0x80000003) smallState.toState 12 :=
  fun h => absurd (h.entry (.single 0) (show 0 < 1024 / 4 by decide) rfl) (by decide +kernel)

end TocinOS.Ext2

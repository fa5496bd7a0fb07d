import TocinOS.Ext2Write

/-! The extent trees in `kernel/ext2.c`: the lookup of a block in the tree whose root is stored in
`i_block`, and what it finds in a well-formed tree. -/

namespace TocinOS.Ext2

/-! ### Nodes

A node is the bytes from its header on: the root has the 60 bytes of `i_block`, every other node a
block. -/

def extMagic : BitVec 16 := 0xF30A

def ehMagic (hdr : Bytes) : BitVec 16 := BitVec.ofNat 16 (LittleEndian.get hdr 0 2)

def ehEntries (hdr : Bytes) : Nat := LittleEndian.get hdr 2 2

def ehMax (hdr : Bytes) : Nat := LittleEndian.get hdr 4 2

def ehDepth (hdr : Bytes) : Nat := LittleEndian.get hdr 6 2

structure Extent where
  block : BitVec 32
  len : BitVec 16
  startHi : BitVec 16
  startLo : BitVec 32
  deriving DecidableEq

def extentAt (hdr : Bytes) (i : Nat) : Extent where
  block := BitVec.ofNat 32 (LittleEndian.get hdr (12 + 12 * i) 4)
  len := BitVec.ofNat 16 (LittleEndian.get hdr (12 + 12 * i + 4) 2)
  startHi := BitVec.ofNat 16 (LittleEndian.get hdr (12 + 12 * i + 6) 2)
  startLo := BitVec.ofNat 32 (LittleEndian.get hdr (12 + 12 * i + 8) 4)

structure ExtentIdx where
  block : BitVec 32
  leafLo : BitVec 32
  leafHi : BitVec 16

def idxAt (hdr : Bytes) (i : Nat) : ExtentIdx where
  block := BitVec.ofNat 32 (LittleEndian.get hdr (12 + 12 * i) 4)
  leafLo := BitVec.ofNat 32 (LittleEndian.get hdr (12 + 12 * i + 4) 4)
  leafHi := BitVec.ofNat 16 (LittleEndian.get hdr (12 + 12 * i + 8) 2)

/-! ### The lookup -/

def ext4ExtentPblock (ext : Extent) : BitVec 64 :=
  (ext.startHi.setWidth 64 <<< 32) ||| ext.startLo.setWidth 64

def ext4IdxPblock (idx : ExtentIdx) : BitVec 64 :=
  (idx.leafHi.setWidth 64 <<< 32) ||| idx.leafLo.setWidth 64

/-- The loops go through all entries and keep the last one that fits. -/
def lastEntry {α : Type} (n : Nat) (entry : Nat → α) (fits : α → Bool) : Option α :=
  (List.range n).foldl (fun found i => if fits (entry i) then some (entry i) else found) none

def ext4FindExtentInLeaf (hdr : Bytes) (block : BitVec 32) : Option Extent :=
  lastEntry (ehEntries hdr) (extentAt hdr) fun ext =>
    decide (ext.block ≤ block) && decide (block < ext.block + ext.len.setWidth 32)

def ext4FindIdx (hdr : Bytes) (block : BitVec 32) : Option ExtentIdx :=
  lastEntry (ehEntries hdr) (idxAt hdr) fun idx => decide (idx.block ≤ block)

def leafBlock (hdr : Bytes) (block : BitVec 32) : BitVec 32 :=
  match ext4FindExtentInLeaf hdr block with
  | none => 0
  | some ext => (ext4ExtentPblock ext + (block - ext.block).setWidth 64).setWidth 32

/-- The way down the tree, `none` while it has not ended. Each round reads a node into the one buffer. -/
def extentLoop (fs : Fs) (block : BitVec 32) : Nat → Bytes → State → Option (BitVec 32 × State)
  | 0, _, _ => none
  | fuel + 1, hdr, s =>
    if ehDepth hdr = 0 then some (leafBlock hdr block, s)
    else
      match ext4FindIdx hdr block with
      | none => some (0, s)
      | some idx =>
        let (buffer, s) := ext2ReadBlock fs ((ext4IdxPblock idx).setWidth 32) (fun _ => 0) s
        if ehMagic buffer ≠ extMagic then some (0, s) else extentLoop fs block fuel buffer s

def extentRoot (inode : Bytes) : Bytes := fun i => inode (40 + i)

def ext4ExtentGetBlock (fuel : Nat) (fs : Fs) (inode : Bytes) (blockIndex : Nat) (s : State) :
    Option (BitVec 32 × State) :=
  if ehMagic (extentRoot inode) ≠ extMagic then some (0, s)
  else extentLoop fs (BitVec.ofNat 32 blockIndex) fuel (extentRoot inode) s

/-! ### Well-formed trees -/

structure NodeHeader (hdr : Bytes) (size depth : Nat) : Prop where
  magic : ehMagic hdr = extMagic
  depth : ehDepth hdr = depth
  entries : ehEntries hdr ≤ ehMax hdr
  fits : 12 + 12 * ehMax hdr ≤ size

def Extent.stop (ext : Extent) : Nat := ext.block.toNat + ext.len.toNat

def Extent.Covers (ext : Extent) (k : Nat) : Prop := ext.block.toNat ≤ k ∧ k < ext.stop

structure LeafEntries (hdr : Bytes) (lo hi : Nat) : Prop where
  initialised : ∀ i < ehEntries hdr, (extentAt hdr i).len.toNat ≤ 2 ^ 15
  low : ∀ i < ehEntries hdr, lo ≤ (extentAt hdr i).block.toNat
  high : ∀ i < ehEntries hdr, (extentAt hdr i).stop ≤ hi
  sorted : ∀ j < ehEntries hdr, ∀ i < j, (extentAt hdr i).stop ≤ (extentAt hdr j).block.toNat
  physical : ∀ i < ehEntries hdr,
    (ext4ExtentPblock (extentAt hdr i)).toNat + (extentAt hdr i).len.toNat ≤ 2 ^ 32

/-- The end of what the entry `i` of an index node is for. -/
def idxStop (hdr : Bytes) (hi i : Nat) : Nat :=
  if i + 1 < ehEntries hdr then (idxAt hdr (i + 1)).block.toNat else hi

structure IndexEntries (hdr : Bytes) (lo hi : Nat) : Prop where
  low : ∀ i < ehEntries hdr, lo ≤ (idxAt hdr i).block.toNat
  high : ∀ i < ehEntries hdr, (idxAt hdr i).block.toNat ≤ hi
  sorted : ∀ j < ehEntries hdr, ∀ i < j, (idxAt hdr i).block < (idxAt hdr j).block
  physical : ∀ i < ehEntries hdr, (ext4IdxPblock (idxAt hdr i)).toNat < 2 ^ 32

def Fs.child (fs : Fs) (drives : Drives) (idx : ExtentIdx) : Bytes :=
  fs.bytes (fs.block drives ((ext4IdxPblock idx).setWidth 32))

/-- A node of the given depth and size for the logical blocks from `lo` to `hi`, with all nodes below. -/
def Fs.WellFormedNode (fs : Fs) (drives : Drives) : Nat → Nat → Nat → Nat → Bytes → Prop
  | 0, size, lo, hi, hdr => NodeHeader hdr size 0 ∧ LeafEntries hdr lo hi
  | depth + 1, size, lo, hi, hdr =>
    NodeHeader hdr size (depth + 1) ∧ IndexEntries hdr lo hi ∧
      ∀ i < ehEntries hdr, fs.WellFormedNode drives depth fs.blockSize (idxAt hdr i).block.toNat
        (idxStop hdr hi i) (fs.child drives (idxAt hdr i))

def Fs.WellFormedExtents (fs : Fs) (drives : Drives) (inode : Bytes) : Prop :=
  fs.WellFormedNode drives (ehDepth (extentRoot inode)) 60 0 (2 ^ 32 - 1) (extentRoot inode)

/-! ### What the lookup finds -/

def Fs.extentBlock (fs : Fs) (drives : Drives) (block : BitVec 32) : Nat → Bytes → BitVec 32
  | 0, hdr => leafBlock hdr block
  | depth + 1, hdr =>
    match ext4FindIdx hdr block with
    | none => 0
    | some idx => fs.extentBlock drives block depth (fs.child drives idx)

def Fs.extentMap (fs : Fs) (drives : Drives) (inode : Bytes) (k : Nat) : BitVec 32 :=
  fs.extentBlock drives (BitVec.ofNat 32 k) (ehDepth (extentRoot inode)) (extentRoot inode)

variable {α : Type} {depth size lo hi : Nat} {hdr : Bytes} {ext : Extent}

theorem lastEntry_succ (n : Nat) (entry : Nat → α) (fits : α → Bool) :
    lastEntry (n + 1) entry fits = if fits (entry n) then some (entry n) else lastEntry n entry fits := by
  rw [lastEntry, List.range_succ, List.foldl_append, List.foldl_cons, List.foldl_nil]
  rfl

theorem lastEntry_none {n : Nat} {entry : Nat → α} {fits : α → Bool}
    (h : lastEntry n entry fits = none) : ∀ i < n, fits (entry i) = false := by
  induction n with
  | zero => exact fun i hi => absurd hi (Nat.not_lt_zero i)
  | succ n ih =>
    rw [lastEntry_succ] at h
    split at h
    · exact nomatch h
    · next hfits =>
      intro i hi
      rcases Nat.lt_succ_iff_lt_or_eq.mp hi with hlt | rfl
      · exact ih h i hlt
      · exact Bool.eq_false_iff.mpr hfits

theorem lastEntry_some {n : Nat} {entry : Nat → α} {fits : α → Bool} {a : α}
    (h : lastEntry n entry fits = some a) :
    ∃ i < n, entry i = a ∧ fits a = true ∧ ∀ j < n, i < j → fits (entry j) = false := by
  induction n with
  | zero => exact nomatch h
  | succ n ih =>
    rw [lastEntry_succ] at h
    split at h
    · next hfits =>
      refine ⟨n, Nat.lt_succ_self n, Option.some.inj h, Option.some.inj h ▸ hfits, fun j hj hlt => ?_⟩
      omega
    · next hfits =>
      obtain ⟨i, hi, heq, ha, hlast⟩ := ih h
      refine ⟨i, Nat.lt_succ_of_lt hi, heq, ha, fun j hj hlt => ?_⟩
      rcases Nat.lt_succ_iff_lt_or_eq.mp hj with hjn | rfl
      · exact hlast j hjn hlt
      · exact Bool.eq_false_iff.mpr hfits

variable {fs : Fs} {drives : Drives}

theorem Fs.WellFormedNode.header (h : fs.WellFormedNode drives depth size lo hi hdr) :
    NodeHeader hdr size depth := by
  cases depth with
  | zero => exact h.1
  | succ depth => exact h.1

theorem extentLoop_spec (block : BitVec 32) {fuel : Nat} {s : State} (hs : Fresh fs s)
    (h : fs.WellFormedNode s.drives depth size lo hi hdr) (hfuel : depth < fuel) :
    ∃ s', extentLoop fs block fuel hdr s = some (fs.extentBlock s.drives block depth hdr, s') ∧
      Reads fs (fun _ => True) s s' := by
  induction depth generalizing size lo hi fuel hdr s with
  | zero =>
    obtain ⟨fuel, rfl⟩ : ∃ k, fuel = k + 1 := ⟨fuel - 1, by omega⟩
    rw [extentLoop, if_pos h.header.depth]
    exact ⟨s, rfl, .refl⟩
  | succ depth ih =>
    obtain ⟨fuel, rfl⟩ : ∃ k, fuel = k + 1 := ⟨fuel - 1, by omega⟩
    have hdepth : ehDepth hdr ≠ 0 := h.header.depth ▸ Nat.succ_ne_zero depth
    rw [extentLoop, if_neg hdepth, Fs.extentBlock]
    cases hidx : ext4FindIdx hdr block with
    | none => exact ⟨s, rfl, .refl⟩
    | some idx =>
      obtain ⟨i, hi, rfl, -⟩ := lastEntry_some hidx
      have hchild := h.2.2 i hi
      dsimp only
      have hreads : Reads fs (fun _ => True) s
          (ext2ReadBlock fs ((ext4IdxPblock (idxAt hdr i)).setWidth 32) (fun _ => 0) s).2 :=
        Reads.refl.read _ trivial
      -- The buffer holds the child, whose magic number is right.
      have hbytes : (ext2ReadBlock fs ((ext4IdxPblock (idxAt hdr i)).setWidth 32) (fun _ => 0) s).1 =
          fs.child s.drives (idxAt hdr i) := (hs.read _ fun _ => 0).1
      rw [hbytes]
      generalize fs.child s.drives (idxAt hdr i) = child at hchild
      rw [if_neg (not_not.mpr hchild.header.magic)]
      obtain ⟨s', hloop, hreads'⟩ :=
        ih (hreads.fresh hs) (hreads.drives ▸ hchild) (Nat.lt_of_succ_lt_succ hfuel)
      rw [hreads.drives] at hloop
      exact ⟨s', hloop, hreads.trans hreads'⟩

theorem Fs.WellFormedExtents.getBlock {inode : Bytes} {s : State}
    (htree : fs.WellFormedExtents s.drives inode) (hs : Fresh fs s) (k : Nat) {fuel : Nat}
    (hfuel : ehDepth (extentRoot inode) < fuel) :
    ∃ s', ext4ExtentGetBlock fuel fs inode k s = some (fs.extentMap s.drives inode k, s') ∧
      Reads fs (fun _ => True) s s' := by
  rw [ext4ExtentGetBlock, if_neg (not_not.mpr htree.header.magic)]
  exact extentLoop_spec (BitVec.ofNat 32 k) hs htree hfuel

/-! ### The extents of a tree -/

def Fs.extents (fs : Fs) (drives : Drives) : Nat → Bytes → List Extent
  | 0, hdr => (List.range (ehEntries hdr)).map (extentAt hdr)
  | depth + 1, hdr => (List.range (ehEntries hdr)).flatMap fun i =>
      fs.extents drives depth (fs.child drives (idxAt hdr i))

def Fs.inodeExtents (fs : Fs) (drives : Drives) (inode : Bytes) : List Extent :=
  fs.extents drives (ehDepth (extentRoot inode)) (extentRoot inode)

def Extent.place (ext : Extent) (k : Nat) : Nat := (ext4ExtentPblock ext).toNat + (k - ext.block.toNat)

theorem mem_extents_leaf :
    ext ∈ fs.extents drives 0 hdr ↔ ∃ i < ehEntries hdr, extentAt hdr i = ext := by
  rw [Fs.extents, List.mem_map]
  simp only [List.mem_range]

theorem mem_extents_index : ext ∈ fs.extents drives (depth + 1) hdr ↔
      ∃ i < ehEntries hdr, ext ∈ fs.extents drives depth (fs.child drives (idxAt hdr i)) := by
  rw [Fs.extents, List.mem_flatMap]
  simp only [List.mem_range]

theorem idxStop_le {i : Nat} (h : IndexEntries hdr lo hi) : idxStop hdr hi i ≤ hi := by
  rw [idxStop]
  split
  · next hnext => exact h.high (i + 1) hnext
  · exact Nat.le_refl hi

theorem Fs.WellFormedNode.mem_range (h : fs.WellFormedNode drives depth size lo hi hdr)
    (hmem : ext ∈ fs.extents drives depth hdr) :
    lo ≤ ext.block.toNat ∧ ext.stop ≤ hi ∧ (ext4ExtentPblock ext).toNat + ext.len.toNat ≤ 2 ^ 32 := by
  induction depth generalizing size lo hi hdr with
  | zero =>
    obtain ⟨i, hi, rfl⟩ := mem_extents_leaf.mp hmem
    exact ⟨h.2.low i hi, h.2.high i hi, h.2.physical i hi⟩
  | succ depth ih =>
    obtain ⟨i, hi, hchild⟩ := mem_extents_index.mp hmem
    obtain ⟨hlo, hstop, hphysical⟩ := ih (h.2.2 i hi) hchild
    exact ⟨Nat.le_trans (h.2.1.low i hi) hlo, Nat.le_trans hstop (idxStop_le h.2.1), hphysical⟩

variable {k : Nat}

theorem covers_iff_fits (hk : k < 2 ^ 32) (hstop : ext.stop < 2 ^ 32) :
    (decide (ext.block ≤ BitVec.ofNat 32 k) &&
      decide (BitVec.ofNat 32 k < ext.block + ext.len.setWidth 32)) = true ↔ ext.Covers k := by
  have hend : (ext.block + ext.len.setWidth 32).toNat = ext.stop := by
    rw [Extent.stop] at hstop ⊢
    rw [BitVec.toNat_add, BitVec.toNat_setWidth_of_le (by decide), Nat.mod_eq_of_lt hstop]
  rw [Bool.and_eq_true, decide_eq_true_iff, decide_eq_true_iff, BitVec.le_def, BitVec.lt_def, hend,
    BitVec.toNat_ofNat, Nat.mod_eq_of_lt hk]
  rfl

theorem LeafEntries.find (h : LeafEntries hdr lo hi) (hhi : hi < 2 ^ 32) (hk : k < 2 ^ 32) {i : Nat}
    (hi : i < ehEntries hdr) (hcovers : (extentAt hdr i).Covers k) :
    ext4FindExtentInLeaf hdr (BitVec.ofNat 32 k) = some (extentAt hdr i) := by
  have hfits (j : Nat) (hj : j < ehEntries hdr) :=
    covers_iff_fits hk (Nat.lt_of_le_of_lt (h.high j hj) hhi)
  cases hfind : ext4FindExtentInLeaf hdr (BitVec.ofNat 32 k) with
  | none =>
    have hnone := lastEntry_none hfind i hi
    exact absurd ((hfits i hi).mpr hcovers) (Bool.eq_false_iff.mp hnone)
  | some ext =>
    obtain ⟨j, hj, rfl, hfit, -⟩ := lastEntry_some hfind
    obtain ⟨hjlow, hjhigh⟩ := (hfits j hj).mp hfit
    obtain ⟨hlow, hhigh⟩ := hcovers
    -- Of two different extents one ends where or before the other starts.
    rcases Nat.lt_trichotomy i j with hlt | rfl | hlt
    · have := h.sorted j hj i hlt
      omega
    · rfl
    · have := h.sorted i hi j hlt
      omega

theorem leafBlock_of_find (hk : k < 2 ^ 32)
    (hfind : ext4FindExtentInLeaf hdr (BitVec.ofNat 32 k) = some ext) (hcovers : ext.Covers k)
    (hphysical : (ext4ExtentPblock ext).toNat + ext.len.toNat ≤ 2 ^ 32) :
    (leafBlock hdr (BitVec.ofNat 32 k)).toNat = ext.place k := by
  obtain ⟨hlow, hhigh⟩ := hcovers
  rw [Extent.stop] at hhigh
  have hblock := ext.block.isLt
  have hoffset : (BitVec.ofNat 32 k - ext.block).toNat = k - ext.block.toNat := by
    rw [BitVec.toNat_sub, BitVec.toNat_ofNat]
    omega
  rw [leafBlock, hfind]
  dsimp only
  rw [BitVec.toNat_setWidth, BitVec.toNat_add, BitVec.toNat_setWidth_of_le (by decide), hoffset, Extent.place]
  omega

theorem IndexEntries.find (h : IndexEntries hdr lo hi) (hk : k < 2 ^ 32)
    (hchildren : ∀ i < ehEntries hdr, fs.WellFormedNode drives depth fs.blockSize
      (idxAt hdr i).block.toNat (idxStop hdr hi i) (fs.child drives (idxAt hdr i)))
    {j : Nat} (hj : j < ehEntries hdr)
    (hmem : ext ∈ fs.extents drives depth (fs.child drives (idxAt hdr j)))
    (hcovers : ext.Covers k) : ext4FindIdx hdr (BitVec.ofNat 32 k) = some (idxAt hdr j) := by
  obtain ⟨hlow, hstop, -⟩ := (hchildren j hj).mem_range hmem
  obtain ⟨hfirst, hlast⟩ := hcovers
  have hfits (i : Nat) :
      decide ((idxAt hdr i).block ≤ BitVec.ofNat 32 k) = true ↔ (idxAt hdr i).block.toNat ≤ k := by
    rw [decide_eq_true_iff, BitVec.le_def, BitVec.toNat_ofNat, Nat.mod_eq_of_lt hk]
  have hfit : decide ((idxAt hdr j).block ≤ BitVec.ofNat 32 k) = true := (hfits j).mpr (by omega)
  cases hfind : ext4FindIdx hdr (BitVec.ofNat 32 k) with
  | none => exact absurd hfit (Bool.eq_false_iff.mp (lastEntry_none hfind j hj))
  | some idx =>
    obtain ⟨i, hi', rfl, hfound, hafter⟩ := lastEntry_some hfind
    rcases Nat.lt_trichotomy i j with hlt | rfl | hlt
    · exact absurd hfit (Bool.eq_false_iff.mp (hafter j hj hlt))
    · rfl
    · -- The extent ends where the next entry starts.
      rw [idxStop, if_pos (by omega)] at hstop
      have hle : (idxAt hdr (j + 1)).block.toNat ≤ (idxAt hdr i).block.toNat := by
        rcases Nat.eq_or_lt_of_le (show j + 1 ≤ i by omega) with heq | hlt'
        · rw [heq]
        · exact Nat.le_of_lt (h.sorted i hi' (j + 1) hlt')
      have := (hfits i).mp hfound
      omega

theorem Fs.WellFormedNode.covered (h : fs.WellFormedNode drives depth size lo hi hdr)
    (hhi : hi < 2 ^ 32) (hk : k < 2 ^ 32) (hmem : ext ∈ fs.extents drives depth hdr)
    (hcovers : ext.Covers k) :
    (fs.extentBlock drives (BitVec.ofNat 32 k) depth hdr).toNat = ext.place k ∧
      ∀ ext' ∈ fs.extents drives depth hdr, ext'.Covers k → ext' = ext := by
  induction depth generalizing size lo hi hdr with
  | zero =>
    obtain ⟨i, hi, rfl⟩ := mem_extents_leaf.mp hmem
    have hfind := h.2.find hhi hk hi hcovers
    refine ⟨leafBlock_of_find hk hfind hcovers (h.2.physical i hi), fun ext' hmem' hcovers' => ?_⟩
    obtain ⟨j, hj, rfl⟩ := mem_extents_leaf.mp hmem'
    exact Option.some.inj ((h.2.find hhi hk hj hcovers').symm.trans hfind)
  | succ depth ih =>
    obtain ⟨-, hindex, hchildren⟩ := h
    obtain ⟨i, hi, hchild⟩ := mem_extents_index.mp hmem
    have hfind := hindex.find hk hchildren hi hchild hcovers
    obtain ⟨hplace, hunique⟩ :=
      ih (hchildren i hi) (Nat.lt_of_le_of_lt (idxStop_le hindex) hhi) hchild
    rw [Fs.extentBlock, hfind]
    refine ⟨hplace, fun ext' hmem' hcovers' => ?_⟩
    obtain ⟨j, hj, hchild'⟩ := mem_extents_index.mp hmem'
    have hsame : idxAt hdr j = idxAt hdr i :=
      Option.some.inj ((hindex.find hk hchildren hj hchild' hcovers').symm.trans hfind)
    exact hunique ext' (hsame ▸ hchild') hcovers'

theorem Fs.WellFormedNode.hole (h : fs.WellFormedNode drives depth size lo hi hdr)
    (hhi : hi < 2 ^ 32) (hk : k < 2 ^ 32)
    (hnone : ∀ ext ∈ fs.extents drives depth hdr, ¬ext.Covers k) :
    fs.extentBlock drives (BitVec.ofNat 32 k) depth hdr = 0 := by
  induction depth generalizing size lo hi hdr with
  | zero =>
    rw [Fs.extentBlock, leafBlock]
    cases hfind : ext4FindExtentInLeaf hdr (BitVec.ofNat 32 k) with
    | none => rfl
    | some ext =>
      obtain ⟨i, hi, rfl, hfit, -⟩ := lastEntry_some hfind
      have hstop := Nat.lt_of_le_of_lt (h.2.high i hi) hhi
      exact absurd ((covers_iff_fits hk hstop).mp hfit) (hnone _ (mem_extents_leaf.mpr ⟨i, hi, rfl⟩))
  | succ depth ih =>
    obtain ⟨-, hindex, hchildren⟩ := h
    rw [Fs.extentBlock]
    cases hfind : ext4FindIdx hdr (BitVec.ofNat 32 k) with
    | none => rfl
    | some idx =>
      obtain ⟨i, hi, rfl, -⟩ := lastEntry_some hfind
      exact ih (hchildren i hi) (Nat.lt_of_le_of_lt (idxStop_le hindex) hhi) fun ext hmem =>
        hnone ext (mem_extents_index.mpr ⟨i, hi, hmem⟩)

/-- A lookup gives the place that the one extent which covers a block has for it. The result 0 also
stands for the physical block 0. -/
theorem extent_lookup_finds_extent (fs : Fs) (s : State) (hs : Fresh fs s) (inode : Bytes)
    (htree : fs.WellFormedExtents s.drives inode) (k : BitVec 32) (fuel : Nat)
    (hfuel : ehDepth (extentRoot inode) < fuel) :
    ∃ b s', ext4ExtentGetBlock fuel fs inode k.toNat s = some (b, s') ∧
      (∀ ext ∈ fs.inodeExtents s.drives inode, ext.Covers k.toNat → b.toNat = ext.place k.toNat ∧
        ∀ ext' ∈ fs.inodeExtents s.drives inode, ext'.Covers k.toNat → ext' = ext) ∧
      (b = 0 ↔ ∀ ext ∈ fs.inodeExtents s.drives inode, ext.Covers k.toNat → ext.place k.toNat = 0) := by
  obtain ⟨s', hget, -⟩ := htree.getBlock hs k.toNat hfuel
  have hcovered (ext : Extent) (hmem : ext ∈ fs.inodeExtents s.drives inode) (hcovers : ext.Covers k.toNat) :=
    htree.covered (by decide) k.isLt hmem hcovers
  refine ⟨_, s', hget, hcovered, fun hzero ext hmem hcovers => ?_, fun hplaces => ?_⟩
  · exact (hcovered ext hmem hcovers).1.symm.trans (congrArg BitVec.toNat hzero)
  · by_cases hsome : ∃ ext ∈ fs.inodeExtents s.drives inode, ext.Covers k.toNat
    · obtain ⟨ext, hmem, hcovers⟩ := hsome
      exact BitVec.eq_of_toNat_eq ((hcovered ext hmem hcovers).1.trans (hplaces ext hmem hcovers))
    · exact htree.hole (by decide) k.isLt fun ext hmem hcovers => hsome ⟨ext, hmem, hcovers⟩

def withWords (inode : Bytes) (words : List (BitVec 32)) : Bytes :=
  words.zipIdx.foldl (fun inode word => setIBlock inode word.2 word.1) inode

def leafState : State :=
  ext2CacheInit ⟨fun _ sector i => if sector = 8 then
    extentRoot (withWords (fun _ => 0) [0x1F30A, 84, 0, 0, 3, 10]) i else 0, fun _ => {}, 0, []⟩

def indexInode : Bytes := withWords (fun _ => 0) [0x1F30A, 0x10004, 0, 0, 4, 0]

theorem indexInode_wellFormed : (smallFs 1).WellFormedExtents leafState.drives indexInode := by
  have hdepth : ehDepth (extentRoot indexInode) = 1 := by decide +kernel
  have hroot : ehEntries (extentRoot indexInode) = 1 := by decide +kernel
  rw [Fs.WellFormedExtents, hdepth]
  refine ⟨by constructor <;> decide +kernel, by constructor <;> decide +kernel, fun i hi => ?_⟩
  obtain rfl : i = 0 := by omega
  constructor
  · constructor <;> decide +kernel
  · constructor <;> decide +kernel

theorem second_level_lookup : ∃ b s',
    ext4ExtentGetBlock 2 (smallFs 1).toFs indexInode (2 : BitVec 32).toNat leafState = some (b, s') ∧
      b.toNat = 12 := by
  have hfresh : Fresh (smallFs 1).toFs leafState := (coherent_init _ _).fresh
  obtain ⟨b, s', hget, hfound, -⟩ := extent_lookup_finds_extent (smallFs 1).toFs leafState hfresh indexInode
    indexInode_wellFormed 2 2 (by decide +kernel)
  exact ⟨b, s', hget, (hfound ⟨0, 3, 0, 10⟩ (by decide +kernel) ⟨by decide, by decide⟩).1⟩

def bootInode : Bytes := withWords (fun _ => 0) [0x1F30A, 4, 0, 0, 1, 0]

theorem covered_block_zero : (smallFs 1).WellFormedExtents leafState.drives bootInode ∧
    (∃ ext ∈ (smallFs 1).inodeExtents leafState.drives bootInode, ext.Covers 0) ∧
    ext4ExtentGetBlock 1 (smallFs 1).toFs bootInode 0 leafState = some (0, leafState) := by
  have hdepth : ehDepth (extentRoot bootInode) = 0 := by decide +kernel
  have hmagic : ehMagic (extentRoot bootInode) = extMagic := by decide +kernel
  have hblock : leafBlock (extentRoot bootInode) 0 = 0 := by decide +kernel
  refine ⟨?_, ⟨⟨0, 1, 0, 0⟩, by decide +kernel, by decide, by decide⟩, ?_⟩
  · rw [Fs.WellFormedExtents, hdepth]
    constructor
    · constructor <;> decide +kernel
    · constructor <;> decide +kernel
  · rw [ext4ExtentGetBlock, if_neg (not_not.mpr hmagic), extentLoop, if_pos hdepth]
    exact congrArg (fun b => some (b, leafState)) hblock

end TocinOS.Ext2

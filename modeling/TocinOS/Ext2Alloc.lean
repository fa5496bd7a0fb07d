import TocinOS.Bitmap
import TocinOS.Ext2Blocks

/-! Allocation of blocks in `kernel/ext2.c`: one bitmap block for each group on the drive, and
counters of the free blocks in memory. -/

namespace TocinOS.Ext2

open Function

structure AllocFs extends Fs where
  blocksCount : BitVec 32
  blocksPerGroup : BitVec 32
  firstDataBlock : BitVec 32
  blockBitmap : Nat → BitVec 32

structure AllocState extends State where
  groupFree : Nat → BitVec 16
  freeBlocks : BitVec 32

def findClear (bitmap : Bytes) (n : Nat) : Option Nat :=
  match (List.range n).find? fun i => bitmap i != 0xFF with
  | none => none
  | some i => ((List.range 8).find? fun bit => !Bitmap.test bitmap (i * 8 + bit)).map (i * 8 + ·)

/-- `none` when the search goes on with the next group. -/
def allocInGroup (fs : AllocFs) (group : Nat) (s : AllocState) : Option (BitVec 32) × AllocState :=
  if s.groupFree group = 0 then (none, s)
  else
    let bitmapBlock := fs.blockBitmap group
    let (bitmap, io) := ext2ReadBlock fs.toFs bitmapBlock (fun _ => 0) s.toState
    match findClear bitmap (fs.blocksPerGroup.toNat / 8) with
    | none => (none, { s with toState := io })
    | some index =>
      (some (BitVec.ofNat 32 group * fs.blocksPerGroup + BitVec.ofNat 32 index + fs.firstDataBlock),
        { toState := ext2WriteBlock fs.toFs bitmapBlock (Bitmap.set bitmap index) io
          groupFree := Function.update s.groupFree group (s.groupFree group - 1)
          freeBlocks := s.freeBlocks - 1 })

def AllocFs.groupAt (fs : AllocFs) (preferredGroup : BitVec 32) (g : Nat) : Nat :=
  if 0 ≤ preferredGroup.toInt then ((preferredGroup + BitVec.ofNat 32 g) % fs.numGroups).toNat else g

def allocRounds (fs : AllocFs) (preferredGroup : BitVec 32) :
    List Nat → AllocState → BitVec 32 × AllocState
  | [], s => (0, s)
  | g :: rest, s =>
    match allocInGroup fs (fs.groupAt preferredGroup g) s with
    | (some block, s) => (block, s)
    | (none, s) => allocRounds fs preferredGroup rest s

def ext2AllocBlock (fs : AllocFs) (preferredGroup : BitVec 32) (s : AllocState) :
    BitVec 32 × AllocState :=
  if s.freeBlocks = 0 then (0, s)
  else allocRounds fs preferredGroup (List.range fs.numGroups.toNat) s

/-- The place of a block in the groups; the difference wraps. -/
def AllocFs.place (fs : AllocFs) (block : BitVec 32) : Nat := (block - fs.firstDataBlock).toNat

/-- `false` stands for the result -1. -/
def ext2FreeBlock (fs : AllocFs) (block : BitVec 32) (s : AllocState) : Bool × AllocState :=
  let group := fs.place block / fs.blocksPerGroup.toNat
  let index := fs.place block % fs.blocksPerGroup.toNat
  if block = 0 ∨ fs.numGroups.toNat ≤ group then (false, s)
  else
    let bitmapBlock := fs.blockBitmap group
    let (bitmap, io) := ext2ReadBlock fs.toFs bitmapBlock (fun _ => 0) s.toState
    if !Bitmap.test bitmap index then (false, { s with toState := io })
    else
      (true,
        { toState := ext2WriteBlock fs.toFs bitmapBlock (Bitmap.clear bitmap index) io
          groupFree := Function.update s.groupFree group (s.groupFree group + 1)
          freeBlocks := s.freeBlocks + 1 })

/-! ### Bitmaps and counters -/

structure Layout (fs : AllocFs) : Prop where
  pos : 0 < fs.blocksPerGroup.toNat
  dvd : 8 ∣ fs.blocksPerGroup.toNat
  fits : fs.blocksPerGroup.toNat ≤ 8 * fs.blockSize
  total : fs.numGroups.toNat * fs.blocksPerGroup.toNat < 2 ^ 32
  addressable : ∀ g < fs.numGroups.toNat, fs.Addressable (fs.blockBitmap g)
  distinct : ∀ g < fs.numGroups.toNat, ∀ h < fs.numGroups.toNat,
    fs.blockBitmap g = fs.blockBitmap h → g = h

def AllocFs.bitmap (fs : AllocFs) (drives : Drives) (g : Nat) : Bytes :=
  fs.bytes (fs.block drives (fs.blockBitmap g))

def clearBits (n : Nat) (b : Bytes) : Nat := n - Bitmap.count n b

structure Counted (fs : AllocFs) (s : AllocState) : Prop where
  coherent : Coherent fs.toFs s.toState
  group : ∀ g < fs.numGroups.toNat,
    (s.groupFree g).toNat = clearBits fs.blocksPerGroup.toNat (fs.bitmap s.drives g)
  total : s.freeBlocks.toNat = ∑ g ∈ Finset.range fs.numGroups.toNat,
    clearBits fs.blocksPerGroup.toNat (fs.bitmap s.drives g)

def AllocFs.Inside (fs : AllocFs) (block : BitVec 32) : Prop :=
  fs.place block < fs.numGroups.toNat * fs.blocksPerGroup.toNat

def AllocFs.Free (fs : AllocFs) (drives : Drives) (block : BitVec 32) : Prop :=
  fs.Inside block ∧ Bitmap.test (fs.bitmap drives (fs.place block / fs.blocksPerGroup.toNat))
    (fs.place block % fs.blocksPerGroup.toNat) = false

variable {fs : AllocFs} {s : AllocState}

theorem clearBits_le (n : Nat) (b : Bytes) : clearBits n b ≤ n := Nat.sub_le ..

variable {n i index g : Nat} {b : Bytes} {drives : Drives} {block : BitVec 32}

theorem clearBits_set (hi : i < n) (h : Bitmap.test b i = false) :
    clearBits n (Bitmap.set b i) + 1 = clearBits n b := by
  have hset := Bitmap.count_set hi h
  have hle := Bitmap.count_le n (Bitmap.set b i)
  rw [clearBits, clearBits]
  omega

theorem clearBits_clear (hi : i < n) (h : Bitmap.test b i = true) :
    clearBits n (Bitmap.clear b i) = clearBits n b + 1 := by
  have hclear := Bitmap.count_clear hi h
  have hle := Bitmap.count_le n b
  rw [clearBits, clearBits]
  omega

theorem clearBits_eq_zero : clearBits n b = 0 ↔ ∀ i < n, Bitmap.test b i = true := by
  have hle := Bitmap.count_le n b
  have hlength : (List.range n).length = n := List.length_range
  constructor
  · intro h i hi
    have hall : Bitmap.count n b = (List.range n).length := by
      rw [clearBits] at h
      omega
    exact List.countP_eq_length.mp hall i (List.mem_range.mpr hi)
  · intro h
    have hall : Bitmap.count n b = (List.range n).length :=
      List.countP_eq_length.mpr fun i hi => h i (List.mem_range.mp hi)
    rw [clearBits]
    omega

theorem eq_of_all_set {byte : Byte} (h : ∀ bit < 8, byte.getLsbD bit = true) : byte = 0xFF := by
  apply BitVec.eq_of_getLsbD_eq
  intro i hi
  rw [h i hi]
  have : ∀ i < 8, (0xFF : Byte).getLsbD i = true := by decide
  exact (this i hi).symm

theorem findClear_some {bitmap : Bytes} (h : findClear bitmap n = some index) :
    index < n * 8 ∧ Bitmap.test bitmap index = false := by
  unfold findClear at h
  split at h
  · simp at h
  · next i hi =>
    obtain ⟨bit, hbit, rfl⟩ := Option.map_eq_some_iff.mp h
    have hin := List.mem_range.mp (List.mem_of_find?_eq_some hi)
    have hlt := List.mem_range.mp (List.mem_of_find?_eq_some hbit)
    have htest := List.find?_some hbit
    exact ⟨by omega, by simpa using htest⟩

theorem findClear_none {bitmap : Bytes} (h : findClear bitmap n = none) :
    ∀ index < n * 8, Bitmap.test bitmap index = true := by
  unfold findClear at h
  split at h
  · next hnone =>
    intro index hindex
    have hbyte := List.find?_eq_none.mp hnone (index / 8) (List.mem_range.mpr (by omega))
    simp only [bne_iff_ne, ne_eq, Decidable.not_not] at hbyte
    rw [Bitmap.test_eq, hbyte]
    have hall : ∀ i < 8, (0xFF : Byte).getLsbD i = true := by decide
    exact hall _ (Nat.mod_lt _ (by decide))
  · next i hi =>
    have hbits := List.find?_eq_none.mp (Option.map_eq_none_iff.mp h)
    have hne := List.find?_some hi
    refine absurd (eq_of_all_set fun bit hbit => ?_) (bne_iff_ne.mp hne)
    have hset := hbits bit (List.mem_range.mpr hbit)
    rw [Bool.not_eq_true', Bool.not_eq_false, Bitmap.test_eq] at hset
    have hdiv : (i * 8 + bit) / 8 = i := by omega
    have hmod : (i * 8 + bit) % 8 = bit := by omega
    rwa [hdiv, hmod] at hset

/-! ### One bitmap -/

theorem bytes_stored {fs : Fs} {buffer : Bytes} (h : ∀ i, fs.blockSize ≤ i → buffer i = 0) :
    fs.bytes (fs.stored buffer) = buffer := by
  funext i
  simp only [Fs.bytes, Fs.loaded, Fs.stored]
  split
  · rfl
  · next hi => exact (h i (Nat.le_of_not_lt hi)).symm

theorem bytes_of_le (fs : Fs) (block : Block fs) (hi : fs.blockSize ≤ i) :
    fs.bytes block i = 0 := dif_neg (Nat.not_lt.mpr hi)

theorem Layout.index_lt (hl : Layout fs) (hindex : index < fs.blocksPerGroup.toNat)
    (hi : fs.blockSize ≤ i) : i ≠ index / 8 := by
  have hfits := hl.fits
  omega

theorem Counted.read (h : Counted fs s) (hl : Layout fs) (hg : g < fs.numGroups.toNat) :
    (ext2ReadBlock fs.toFs (fs.blockBitmap g) (fun _ => 0) s.toState).1 = fs.bitmap s.drives g ∧
      Counted fs { s with
        toState := (ext2ReadBlock fs.toFs (fs.blockBitmap g) (fun _ => 0) s.toState).2 } := by
  obtain ⟨hbytes, hcoherent⟩ := h.coherent.read (hl.addressable g hg) fun _ => 0
  refine ⟨hbytes, hcoherent, fun k hk => ?_, ?_⟩
  · dsimp only
    rw [ext2ReadBlock_drives]
    exact h.group k hk
  · dsimp only
    rw [ext2ReadBlock_drives]
    exact h.total

theorem Layout.bitmap_write (hl : Layout fs) {k : Nat} (hg : g < fs.numGroups.toNat)
    (hk : k < fs.numGroups.toNat) (drives : Drives) (buffer : Bytes) :
    fs.bitmap (writeSectors fs.toFs drives (fs.blockBitmap g) buffer) k =
      if k = g then fs.bytes (fs.stored buffer) else fs.bitmap drives k := by
  rw [AllocFs.bitmap]
  split
  · next hkg =>
    subst hkg
    rw [block_writeSectors_self]
  · next hkg =>
    rw [block_writeSectors_of_ne (hl.addressable g hg) (hl.addressable k hk)
      fun heq => hkg (hl.distinct k hk g hg heq)]
    rfl

theorem Counted.write (h : Counted fs s) (hl : Layout fs) (hg : g < fs.numGroups.toNat)
    (buffer : Bytes) (count : BitVec 16) (total : BitVec 32)
    (hbuffer : ∀ i, fs.blockSize ≤ i → buffer i = 0)
    (hcount : count.toNat = clearBits fs.blocksPerGroup.toNat buffer)
    (htotal : total.toNat + clearBits fs.blocksPerGroup.toNat (fs.bitmap s.drives g) =
      s.freeBlocks.toNat + clearBits fs.blocksPerGroup.toNat buffer) :
    let t := ext2WriteBlock fs.toFs (fs.blockBitmap g) buffer s.toState
    Counted fs ⟨t, update s.groupFree g count, total⟩ ∧ ∀ k < fs.numGroups.toNat,
      fs.bitmap t.drives k = if k = g then buffer else fs.bitmap s.drives k := by
  have hcoherent := h.coherent.write (hl.addressable g hg) buffer
  have hdrives := ext2WriteBlock_drives fs.toFs (fs.blockBitmap g) buffer s.toState
  dsimp only
  generalize ext2WriteBlock fs.toFs (fs.blockBitmap g) buffer s.toState = t at *
  have hbitmap : ∀ k < fs.numGroups.toNat,
      fs.bitmap t.drives k = if k = g then buffer else fs.bitmap s.drives k := by
    intro k hk
    rw [hdrives, hl.bitmap_write hg hk, bytes_stored hbuffer]
  refine ⟨⟨hcoherent, fun k hk => ?_, ?_⟩, hbitmap⟩
  · dsimp only
    rw [hbitmap k hk]
    by_cases hkg : k = g
    · subst hkg
      rw [update_self, if_pos rfl, hcount]
    · rw [update_of_ne hkg, if_neg hkg]
      exact h.group k hk
  · have hmem := Finset.mem_range.mpr hg
    have hold := Finset.add_sum_erase _ (fun k => clearBits fs.blocksPerGroup.toNat
      (fs.bitmap s.drives k)) hmem
    have hnew := Finset.add_sum_erase _ (fun k => clearBits fs.blocksPerGroup.toNat
      (fs.bitmap t.drives k)) hmem
    have hothers : ∑ k ∈ (Finset.range fs.numGroups.toNat).erase g,
        clearBits fs.blocksPerGroup.toNat (fs.bitmap t.drives k) =
        ∑ k ∈ (Finset.range fs.numGroups.toNat).erase g,
          clearBits fs.blocksPerGroup.toNat (fs.bitmap s.drives k) := by
      refine Finset.sum_congr rfl fun k hk => ?_
      obtain ⟨hkg, hkmem⟩ := Finset.mem_erase.mp hk
      rw [hbitmap k (Finset.mem_range.mp hkmem), if_neg hkg]
    have htot := h.total
    dsimp only at hold hnew ⊢
    rw [hbitmap g hg, if_pos rfl, hothers] at hnew
    omega

theorem Counted.total_eq (h : Counted fs s) (hg : g < fs.numGroups.toNat) :
    s.freeBlocks.toNat = clearBits fs.blocksPerGroup.toNat (fs.bitmap s.drives g) +
      ∑ k ∈ (Finset.range fs.numGroups.toNat).erase g,
        clearBits fs.blocksPerGroup.toNat (fs.bitmap s.drives k) := by
  rw [h.total]
  exact (Finset.add_sum_erase _ _ (Finset.mem_range.mpr hg)).symm

theorem Counted.freeBlocks_lt (h : Counted fs s) (hl : Layout fs) (hg : g < fs.numGroups.toNat)
    (htest : Bitmap.test (fs.bitmap s.drives g) index = true)
    (hindex : index < fs.blocksPerGroup.toNat) : s.freeBlocks.toNat + 1 < 2 ^ 32 := by
  have hclear := clearBits_clear hindex htest
  have hle := clearBits_le fs.blocksPerGroup.toNat (Bitmap.clear (fs.bitmap s.drives g) index)
  have hothers := Finset.sum_le_card_nsmul ((Finset.range fs.numGroups.toNat).erase g)
    (fun k => clearBits fs.blocksPerGroup.toNat (fs.bitmap s.drives k)) fs.blocksPerGroup.toNat
    fun k _ => clearBits_le _ _
  rw [Finset.card_erase_of_mem (Finset.mem_range.mpr hg), Finset.card_range, Nat.nsmul_eq_mul,
    Nat.sub_one_mul] at hothers
  have hone : fs.blocksPerGroup.toNat ≤ fs.numGroups.toNat * fs.blocksPerGroup.toNat :=
    Nat.le_mul_of_pos_left _ (Nat.zero_lt_of_lt hg)
  have htotal := h.total_eq hg
  have hl := hl.total
  omega

theorem Layout.set_zero (hl : Layout fs) (hindex : index < fs.blocksPerGroup.toNat)
    (hi : fs.blockSize ≤ i) : Bitmap.set (fs.bitmap drives g) index i = 0 := by
  rw [Bitmap.set, update_of_ne (hl.index_lt hindex hi)]
  exact bytes_of_le _ _ hi

theorem Layout.clear_zero (hl : Layout fs) (hindex : index < fs.blocksPerGroup.toNat)
    (hi : fs.blockSize ≤ i) : Bitmap.clear (fs.bitmap drives g) index i = 0 := by
  rw [Bitmap.clear, update_of_ne (hl.index_lt hindex hi)]
  exact bytes_of_le _ _ hi

/-! ### Places -/

theorem Layout.place_div_lt (hl : Layout fs) (h : fs.Inside block) :
    fs.place block / fs.blocksPerGroup.toNat < fs.numGroups.toNat :=
  (Nat.div_lt_iff_lt_mul hl.pos).mpr h

theorem place_inj {b c : BitVec 32} (h : fs.place b = fs.place c) : b = c := by
  have hsub : b - fs.firstDataBlock = c - fs.firstDataBlock := BitVec.eq_of_toNat_eq h
  exact (BitVec.sub_left_inj ..).mp hsub

theorem place_inside (hg : g < fs.numGroups.toNat) (hindex : index < fs.blocksPerGroup.toNat) :
    g * fs.blocksPerGroup.toNat + index < fs.numGroups.toNat * fs.blocksPerGroup.toNat := by
  have hle : (g + 1) * fs.blocksPerGroup.toNat ≤ fs.numGroups.toNat * fs.blocksPerGroup.toNat :=
    Nat.mul_le_mul_right _ hg
  rw [Nat.succ_mul] at hle
  omega

theorem Layout.place_block (hl : Layout fs) (hg : g < fs.numGroups.toNat)
    (hindex : index < fs.blocksPerGroup.toNat) :
    fs.place (BitVec.ofNat 32 g * fs.blocksPerGroup + BitVec.ofNat 32 index + fs.firstDataBlock) =
      g * fs.blocksPerGroup.toNat + index := by
  have htotal := hl.total
  have hinside := place_inside hg hindex
  have hlt : g * fs.blocksPerGroup.toNat + index < 2 ^ 32 := by omega
  have hgroups := fs.numGroups.isLt
  have hblocks := fs.blocksPerGroup.isLt
  rw [AllocFs.place, BitVec.add_sub_cancel, BitVec.toNat_add, BitVec.toNat_mul, BitVec.toNat_ofNat,
    BitVec.toNat_ofNat, Nat.mod_eq_of_lt (a := g) (by omega), Nat.mod_eq_of_lt (a := index) (by omega),
    Nat.mod_eq_of_lt (a := g * _) (by omega), Nat.mod_eq_of_lt hlt]

theorem Layout.eq_block_iff (hl : Layout fs) (hg : g < fs.numGroups.toNat)
    (hindex : index < fs.blocksPerGroup.toNat)
    (hblock : fs.place block = g * fs.blocksPerGroup.toNat + index) (c : BitVec 32) :
    c = block ↔ fs.place c / fs.blocksPerGroup.toNat = g ∧
      fs.place c % fs.blocksPerGroup.toNat = index := by
  constructor
  · rintro rfl
    rw [hblock, Nat.mul_comm, Nat.mul_add_div hl.pos, Nat.div_eq_of_lt hindex, Nat.mul_add_mod,
      Nat.mod_eq_of_lt hindex]
    exact ⟨Nat.add_zero g, rfl⟩
  · rintro ⟨rfl, rfl⟩
    have hplace : fs.place c = fs.place block := by
      rw [hblock, Nat.mul_comm, Nat.div_add_mod]
    exact place_inj hplace

theorem test_set_ite (b : Bytes) (i j : Nat) :
    Bitmap.test (Bitmap.set b i) j = if j = i then true else Bitmap.test b j := by
  rw [Bitmap.test_set]
  split
  · next h => simp [h]
  · next h => simp [h]

theorem test_clear_ite (b : Bytes) (i j : Nat) :
    Bitmap.test (Bitmap.clear b i) j = if j = i then false else Bitmap.test b j := by
  rw [Bitmap.test_clear]
  split
  · next h => simp [h]
  · next h => simp [h]

theorem Layout.free_iff (hl : Layout fs) {drives' : Drives} (hg : g < fs.numGroups.toNat)
    (hb : ∀ k < fs.numGroups.toNat,
      fs.bitmap drives' k = if k = g then b else fs.bitmap drives k)
    {value : Bool}
    (hbit : ∀ j, Bitmap.test b j = if j = index then value else Bitmap.test (fs.bitmap drives g) j)
    (hindex : index < fs.blocksPerGroup.toNat)
    (hblock : fs.place block = g * fs.blocksPerGroup.toNat + index) (c : BitVec 32) :
    fs.Free drives' c ↔ if c = block then value = false else fs.Free drives c := by
  have heq := hl.eq_block_iff hg hindex hblock c
  by_cases hc : fs.Inside c
  · have hlt := hl.place_div_lt hc
    rw [AllocFs.Free, AllocFs.Free, hb _ hlt]
    by_cases hcb : c = block
    · obtain ⟨hdiv, hmod⟩ := heq.mp hcb
      rw [if_pos hcb, if_pos hdiv, hbit, if_pos hmod]
      exact ⟨fun h => h.2, fun h => ⟨hc, h⟩⟩
    · rw [if_neg hcb]
      by_cases hdiv : fs.place c / fs.blocksPerGroup.toNat = g
      · have hmod : fs.place c % fs.blocksPerGroup.toNat ≠ index := fun hmod => hcb (heq.mpr ⟨hdiv, hmod⟩)
        rw [if_pos hdiv, hbit, if_neg hmod, hdiv]
      · rw [if_neg hdiv]
  · have hcb : c ≠ block := by
      rintro rfl
      refine hc ?_
      rw [AllocFs.Inside, hblock]
      exact place_inside hg hindex
    rw [if_neg hcb]
    exact iff_of_false (fun h => hc h.1) fun h => hc h.1

theorem clearBits_pos_of_free (hl : Layout fs) {c : BitVec 32} (h : fs.Free drives c) :
    0 < clearBits fs.blocksPerGroup.toNat
      (fs.bitmap drives (fs.place c / fs.blocksPerGroup.toNat)) := by
  refine Nat.pos_of_ne_zero fun hzero => ?_
  have hset := clearBits_eq_zero.mp hzero _ (Nat.mod_lt (fs.place c) hl.pos)
  rw [h.2] at hset
  exact Bool.false_ne_true hset

/-! ### Allocation -/

def AllocFs.Plain (fs : AllocFs) (c : BitVec 32) : Prop := ∀ g < fs.numGroups.toNat, c ≠ fs.blockBitmap g

structure Takes (fs : AllocFs) (s s' : AllocState) (block : BitVec 32) : Prop where
  counted : Counted fs s'
  wasFree : fs.Free s.drives block
  free : ∀ c, fs.Free s'.drives c ↔ fs.Free s.drives c ∧ c ≠ block
  one : s'.freeBlocks.toNat + 1 = s.freeBlocks.toNat
  blocks : ∀ c, fs.Addressable c → fs.Plain c → fs.block s'.drives c = fs.block s.drives c

theorem Counted.allocInGroup (h : Counted fs s) (hl : Layout fs) (hg : g < fs.numGroups.toNat) :
    s.groupFree g = 0 ∧ allocInGroup fs g s = (none, s) ∨
      ∃ block s', allocInGroup fs g s = (some block, s') ∧ Takes fs s s' block := by
  by_cases hzero : s.groupFree g = 0
  · exact .inl ⟨hzero, if_pos hzero⟩
  right
  obtain ⟨hbitmap, hread⟩ := h.read hl hg
  have hdrives := ext2ReadBlock_drives fs.toFs (fs.blockBitmap g) (fun _ => 0) s.toState
  simp only [Ext2.allocInGroup, if_neg hzero, hbitmap]
  generalize (ext2ReadBlock fs.toFs (fs.blockBitmap g) (fun _ => 0) s.toState).2 = io at *
  have hbits : fs.blocksPerGroup.toNat / 8 * 8 = fs.blocksPerGroup.toNat :=
    Nat.div_mul_cancel hl.dvd
  have hgroup := h.group g hg
  have hne : (s.groupFree g).toNat ≠ 0 := fun hz => hzero (BitVec.eq_of_toNat_eq hz)
  cases hfind : findClear (fs.bitmap s.drives g) (fs.blocksPerGroup.toNat / 8) with
  | none =>
    have hall := findClear_none hfind
    rw [hbits] at hall
    exact absurd (hgroup.trans (clearBits_eq_zero.mpr hall)) hne
  | some index =>
    obtain ⟨hindex, hclear⟩ := findClear_some hfind
    rw [hbits] at hindex
    have hset := clearBits_set hindex hclear
    have hfits := hl.fits
    have hsize := fs.blockSize_le
    have hle := clearBits_le fs.blocksPerGroup.toNat (fs.bitmap s.drives g)
    have htotal := h.total_eq hg
    obtain ⟨hcounted, hbitmaps⟩ := hread.write hl hg (Bitmap.set (fs.bitmap s.drives g) index)
      (s.groupFree g - 1) (s.freeBlocks - 1) (fun i hi => hl.set_zero hindex hi) (by bv_omega) (by
        rw [hdrives]
        bv_omega)
    have hplace := hl.place_block hg hindex
    have hfree (c : BitVec 32) := hl.free_iff hg
      (fun k hk => (hbitmaps k hk).trans (by rw [hdrives])) (test_set_ite _ index) hindex hplace c
    refine ⟨_, _, rfl, hcounted, ⟨?_, ?_⟩, fun c => ?_, by bv_omega, fun c hc hplain => ?_⟩
    · rw [AllocFs.Inside, hplace]
      exact place_inside hg hindex
    · obtain ⟨hdiv, hmod⟩ := (hl.eq_block_iff hg hindex hplace _).mp rfl
      rw [hdiv, hmod]
      exact hclear
    · rw [hfree c]
      split
      · next hc => exact iff_of_false Bool.noConfusion fun hfalse => hfalse.2 hc
      · next hc => exact ⟨fun hc' => ⟨hc', hc⟩, fun hc' => hc'.1⟩
    · dsimp only
      rw [ext2WriteBlock_drives, block_writeSectors_of_ne (hl.addressable g hg) hc (hplain g hg), hdrives]

theorem Counted.allocRounds (h : Counted fs s) (hl : Layout fs) (preferredGroup : BitVec 32)
    {rounds : List Nat}
    (hrounds : ∀ g ∈ rounds, fs.groupAt preferredGroup g < fs.numGroups.toNat) :
    (allocRounds fs preferredGroup rounds s = (0, s) ∧
        ∀ g ∈ rounds, s.groupFree (fs.groupAt preferredGroup g) = 0) ∨
      Takes fs s (allocRounds fs preferredGroup rounds s).2
        (allocRounds fs preferredGroup rounds s).1 := by
  induction rounds with
  | nil => exact .inl ⟨rfl, by simp⟩
  | cons g rounds ih =>
    rcases h.allocInGroup hl (hrounds g (List.mem_cons_self ..)) with
      ⟨hzero, hnone⟩ | ⟨block, s', hsome, htakes⟩
    · rw [Ext2.allocRounds, hnone]
      refine (ih fun k hk => hrounds k (List.mem_cons_of_mem g hk)).imp_left fun ⟨he, hall⟩ => ?_
      refine ⟨he, fun k hk => ?_⟩
      rcases List.mem_cons.mp hk with rfl | hk
      · exact hzero
      · exact hall k hk
    · rw [Ext2.allocRounds, hsome]
      exact .inr htakes

theorem Layout.numGroups_lt (hl : Layout fs) : fs.numGroups.toNat < 2 ^ 29 := by
  have htotal := hl.total
  obtain ⟨k, hk⟩ := hl.dvd
  have hpos := hl.pos
  have hle : fs.numGroups.toNat * 8 ≤ fs.numGroups.toNat * fs.blocksPerGroup.toNat :=
    Nat.mul_le_mul_left _ (by omega)
  omega

theorem Layout.groupAt_eq (hl : Layout fs) {preferredGroup : BitVec 32}
    (hp : 0 ≤ preferredGroup.toInt) (hg : g < fs.numGroups.toNat) :
    fs.groupAt preferredGroup g = (preferredGroup.toNat + g) % fs.numGroups.toNat := by
  have hgroups := hl.numGroups_lt
  have hlt : preferredGroup.toNat < 2 ^ 31 := by
    rw [BitVec.toInt_eq_toNat_cond] at hp
    split at hp <;> omega
  have hsum : preferredGroup.toNat + g < 2 ^ 32 := by omega
  rw [AllocFs.groupAt, if_pos hp, BitVec.toNat_umod, BitVec.toNat_add, BitVec.toNat_ofNat,
    Nat.mod_eq_of_lt (a := g) (by omega), Nat.mod_eq_of_lt hsum]

theorem Layout.groupAt_lt (hl : Layout fs) (preferredGroup : BitVec 32)
    (hg : g < fs.numGroups.toNat) : fs.groupAt preferredGroup g < fs.numGroups.toNat := by
  by_cases hp : 0 ≤ preferredGroup.toInt
  · rw [hl.groupAt_eq hp hg]
    exact Nat.mod_lt _ (Nat.zero_lt_of_lt hg)
  · rwa [AllocFs.groupAt, if_neg hp]

theorem Layout.groupAt_surj (hl : Layout fs) (preferredGroup : BitVec 32) {k : Nat}
    (hk : k < fs.numGroups.toNat) :
    ∃ g < fs.numGroups.toNat, fs.groupAt preferredGroup g = k := by
  by_cases hp : 0 ≤ preferredGroup.toInt
  · have hpos := Nat.zero_lt_of_lt hk
    have hlt := Nat.mod_lt preferredGroup.toNat hpos
    refine ⟨(k + (fs.numGroups.toNat - preferredGroup.toNat % fs.numGroups.toNat)) %
      fs.numGroups.toNat, Nat.mod_lt _ hpos, ?_⟩
    rw [hl.groupAt_eq hp (Nat.mod_lt _ hpos), Nat.add_mod_mod]
    have hsum : preferredGroup.toNat + (k + (fs.numGroups.toNat -
        preferredGroup.toNat % fs.numGroups.toNat)) =
          k + (preferredGroup.toNat / fs.numGroups.toNat + 1) * fs.numGroups.toNat := by
      have := Nat.div_add_mod preferredGroup.toNat fs.numGroups.toNat
      rw [Nat.add_mul, Nat.mul_comm _ fs.numGroups.toNat]
      omega
    rw [hsum, Nat.add_mul_mod_self_right, Nat.mod_eq_of_lt hk]
  · exact ⟨k, hk, by rw [AllocFs.groupAt, if_neg hp]⟩

theorem Counted.not_free_of_groups (h : Counted fs s) (hl : Layout fs)
    (hall : ∀ g < fs.numGroups.toNat, s.groupFree g = 0) (c : BitVec 32) : ¬ fs.Free s.drives c := by
  intro hc
  have hlt := hl.place_div_lt hc.1
  have hpos := clearBits_pos_of_free hl hc
  rw [← h.group _ hlt, hall _ hlt] at hpos
  exact absurd hpos (by decide)

theorem Counted.not_free_of_total (h : Counted fs s) (hl : Layout fs) (hzero : s.freeBlocks = 0)
    (c : BitVec 32) : ¬ fs.Free s.drives c := by
  refine h.not_free_of_groups hl (fun g hg => BitVec.eq_of_toNat_eq ?_) c
  have htotal := h.total_eq hg
  rw [hzero] at htotal
  rw [h.group g hg]
  have : (0 : BitVec 32).toNat = 0 := rfl
  show _ = 0
  omega

theorem Counted.alloc (h : Counted fs s) (hl : Layout fs) (preferredGroup : BitVec 32) :
    (ext2AllocBlock fs preferredGroup s = (0, s) ∧ ∀ c, ¬ fs.Free s.drives c) ∨
      Takes fs s (ext2AllocBlock fs preferredGroup s).2 (ext2AllocBlock fs preferredGroup s).1 := by
  by_cases hzero : s.freeBlocks = 0
  · exact .inl ⟨if_pos hzero, h.not_free_of_total hl hzero⟩
  · rw [ext2AllocBlock, if_neg hzero]
    refine (h.allocRounds hl preferredGroup fun g hg =>
      hl.groupAt_lt preferredGroup (List.mem_range.mp hg)).imp_left fun ⟨he, hall⟩ => ?_
    refine ⟨he, h.not_free_of_groups hl fun k hk => ?_⟩
    obtain ⟨g, hg, rfl⟩ := hl.groupAt_surj preferredGroup hk
    exact hall g (List.mem_range.mpr hg)

theorem Counted.exists_free (h : Counted fs s) (hl : Layout fs) (hpos : 0 < s.freeBlocks.toNat) :
    ∃ c, fs.Free s.drives c := by
  rw [h.total] at hpos
  obtain ⟨g, hg, hne⟩ := Finset.exists_ne_zero_of_sum_ne_zero (Nat.pos_iff_ne_zero.mp hpos)
  have hg := Finset.mem_range.mp hg
  have hbit : ∃ index < fs.blocksPerGroup.toNat, Bitmap.test (fs.bitmap s.drives g) index = false := by
    by_contra hnone
    refine hne (clearBits_eq_zero.mpr fun i hi => ?_)
    exact Bool.of_not_eq_false fun hfalse => hnone ⟨i, hi, hfalse⟩
  obtain ⟨index, hindex, hclear⟩ := hbit
  have hplace := hl.place_block hg hindex
  have hinside := place_inside hg hindex
  obtain ⟨hdiv, hmod⟩ := (hl.eq_block_iff hg hindex hplace _).mp rfl
  refine ⟨_, hplace ▸ hinside, ?_⟩
  rw [hdiv, hmod]
  exact hclear

/-! ### Freeing -/

structure SameBlocks (s s' : AllocState) : Prop where
  drives : s'.drives = s.drives
  groupFree : s'.groupFree = s.groupFree
  freeBlocks : s'.freeBlocks = s.freeBlocks

theorem Counted.free (h : Counted fs s) (hl : Layout fs) (block : BitVec 32) :
    let r := ext2FreeBlock fs block s
    (r.1 = false ∧ Counted fs r.2 ∧ SameBlocks s r.2 ∧
        (block = 0 ∨ ¬ fs.Inside block ∨ fs.Free s.drives block)) ∨
      r.1 = true ∧ Counted fs r.2 ∧ block ≠ 0 ∧ fs.Inside block ∧ ¬ fs.Free s.drives block ∧
        (∀ c, fs.Free r.2.drives c ↔ fs.Free s.drives c ∨ c = block) ∧
        ∀ c, fs.Addressable c → fs.Plain c → fs.block r.2.drives c = fs.block s.drives c := by
  have hinside : fs.numGroups.toNat ≤ fs.place block / fs.blocksPerGroup.toNat ↔
      ¬ fs.Inside block := by
    rw [AllocFs.Inside, ← Nat.div_lt_iff_lt_mul hl.pos, Nat.not_lt]
  rw [ext2FreeBlock]
  dsimp only
  by_cases hreject : block = 0 ∨ fs.numGroups.toNat ≤ fs.place block / fs.blocksPerGroup.toNat
  · rw [if_pos hreject]
    exact .inl ⟨rfl, h, ⟨rfl, rfl, rfl⟩, hreject.imp_right fun hge => .inl (hinside.mp hge)⟩
  rw [if_neg hreject]
  obtain ⟨hne, hlt⟩ := not_or.mp hreject
  have hin : fs.Inside block := not_not.mp fun hnot => hlt (hinside.mpr hnot)
  have hg := hl.place_div_lt hin
  have hindex := Nat.mod_lt (fs.place block) hl.pos
  have hplace : fs.place block = fs.place block / fs.blocksPerGroup.toNat *
      fs.blocksPerGroup.toNat + fs.place block % fs.blocksPerGroup.toNat := by
    rw [Nat.mul_comm, Nat.div_add_mod]
  obtain ⟨hbitmap, hread⟩ := h.read hl hg
  have hdrives := ext2ReadBlock_drives fs.toFs
    (fs.blockBitmap (fs.place block / fs.blocksPerGroup.toNat)) (fun _ => 0) s.toState
  rw [hbitmap]
  generalize (ext2ReadBlock fs.toFs (fs.blockBitmap (fs.place block / fs.blocksPerGroup.toNat))
    (fun _ => 0) s.toState).2 = io at *
  have hfree : fs.Free s.drives block ↔ Bitmap.test (fs.bitmap s.drives
      (fs.place block / fs.blocksPerGroup.toNat)) (fs.place block % fs.blocksPerGroup.toNat) = false :=
    ⟨fun hfree => hfree.2, fun hclear => ⟨hin, hclear⟩⟩
  generalize fs.place block / fs.blocksPerGroup.toNat = g at *
  generalize fs.place block % fs.blocksPerGroup.toNat = index at *
  cases htest : Bitmap.test (fs.bitmap s.drives g) index with
  | false => exact .inl ⟨rfl, hread, ⟨hdrives, rfl, rfl⟩, .inr (.inr (hfree.mpr htest))⟩
  | true =>
    have hclear := clearBits_clear hindex htest
    have hfits := hl.fits
    have hsize := fs.blockSize_le
    have hle := clearBits_le fs.blocksPerGroup.toNat (Bitmap.clear (fs.bitmap s.drives g) index)
    have hgroup := h.group g hg
    have htotal := h.freeBlocks_lt hl hg htest hindex
    obtain ⟨hcounted, hbitmaps⟩ := hread.write hl hg (Bitmap.clear (fs.bitmap s.drives g) index)
      (s.groupFree g + 1) (s.freeBlocks + 1) (fun i hi => hl.clear_zero hindex hi) (by bv_omega) (by
        rw [hdrives]
        bv_omega)
    refine .inr ⟨rfl, hcounted, hne, hin, fun hc => ?_, fun c => ?_, fun c hc hplain => ?_⟩
    · rw [hfree, htest] at hc
      exact Bool.noConfusion hc
    · have hiff := hl.free_iff hg (fun k hk => (hbitmaps k hk).trans (by rw [hdrives]))
        (test_clear_ite _ index) hindex hplace c
      rw [if_neg (by simp)]
      refine hiff.trans ?_
      split
      · next hc => exact iff_of_true rfl (.inr hc)
      · next hc => exact ⟨.inl, fun hc' => hc'.resolve_right hc⟩
    · rw [if_neg (by simp)]
      dsimp only
      rw [ext2WriteBlock_drives, block_writeSectors_of_ne (hl.addressable g hg) hc (hplain g hg), hdrives]

/-! ### Runs -/

def AllocFs.IsBlock (fs : AllocFs) (block : BitVec 32) : Prop :=
  fs.firstDataBlock.toNat ≤ block.toNat ∧ block.toNat < fs.blocksCount.toNat

/-- The bitmap of the last group has a bit for this number, but there is no such block. -/
def AllocFs.Padding (fs : AllocFs) (block : BitVec 32) : Prop := fs.Inside block ∧ ¬ fs.IsBlock block

inductive AllocCall
  | alloc (preferredGroup : BitVec 32)
  | free (block : BitVec 32)

def AllocCall.run (fs : AllocFs) (s : AllocState) : AllocCall → AllocState
  | .alloc preferredGroup => (ext2AllocBlock fs preferredGroup s).2
  | .free block => (ext2FreeBlock fs block s).2

/-- The number to be freed does not belong to a padding bit. -/
def AllocCall.Real (fs : AllocFs) : AllocCall → Prop
  | .alloc _ => True
  | .free block => ¬ fs.Padding block

def AllocStep (fs : AllocFs) (ok : AllocCall → Prop) (s s' : AllocState) : Prop :=
  ∃ c, ok c ∧ s' = c.run fs s

structure Agreed (fs : AllocFs) (s : AllocState) : Prop where
  counted : Counted fs s
  padded : ∀ c, fs.Free s.drives c → fs.IsBlock c

structure AllocSound (fs : AllocFs) (s s' : AllocState) (block : BitVec 32) : Prop where
  zero : block = 0 ↔ ∀ c, fs.IsBlock c → ¬ fs.Free s.drives c
  wasFree : block ≠ 0 → fs.IsBlock block ∧ fs.Free s.drives block
  free : ∀ c, fs.Free s'.drives c ↔ fs.Free s.drives c ∧ c ≠ block

structure FreeSound (fs : AllocFs) (s s' : AllocState) (block : BitVec 32) (done : Bool) : Prop where
  rejected : fs.Free s.drives block ∨ ¬ (fs.IsBlock block ∧ fs.Inside block) →
    done = false ∧ SameBlocks s s'
  free : ∀ c, fs.Free s'.drives c ↔ fs.Free s.drives c ∨ c = block ∧ done = true

structure BlocksSound (fs : AllocFs) (ok : AllocCall → Prop) (s : AllocState) : Prop where
  counted : Counted fs s
  alloc : ∀ preferredGroup, ok (.alloc preferredGroup) →
    AllocSound fs s (ext2AllocBlock fs preferredGroup s).2 (ext2AllocBlock fs preferredGroup s).1
  free : ∀ block, ok (.free block) →
    FreeSound fs s (ext2FreeBlock fs block s).2 block (ext2FreeBlock fs block s).1

theorem Agreed.sound (h : Agreed fs s) (hl : Layout fs) (hzero : ¬ fs.Free s.drives 0) :
    BlocksSound fs (AllocCall.Real fs) s := by
  refine ⟨h.counted, fun preferredGroup _ => ?_, fun block hreal => ?_⟩
  · rcases h.counted.alloc hl preferredGroup with ⟨he, hnone⟩ | htakes
    · rw [he]
      exact ⟨iff_of_true rfl fun c _ => hnone c, fun hne => absurd rfl hne,
        fun c => ⟨fun hc => absurd hc (hnone c), fun hc => hc.1⟩⟩
    · have hblock := h.padded _ htakes.wasFree
      have hne : (ext2AllocBlock fs preferredGroup s).1 ≠ 0 := by
        intro heq
        exact hzero (heq ▸ htakes.wasFree)
      exact ⟨iff_of_false hne fun hnone => hnone _ hblock htakes.wasFree,
        fun _ => ⟨hblock, htakes.wasFree⟩, htakes.free⟩
  · rcases h.counted.free hl block with ⟨hdone, -, hsame, -⟩ | ⟨hdone, -, -, hin, hused, hfree, -⟩
    · refine ⟨fun _ => ⟨hdone, hsame⟩, fun c => ?_⟩
      rw [hsame.drives, hdone]
      simp
    · have hblock : fs.IsBlock block := not_not.mp fun hnot => hreal ⟨hin, hnot⟩
      refine ⟨fun hor => absurd hor (not_or.mpr ⟨hused, not_not.mpr ⟨hblock, hin⟩⟩), fun c => ?_⟩
      rw [hfree c, hdone]
      simp

theorem Agreed.run (h : Agreed fs s) (hl : Layout fs) (hzero : ¬ fs.Free s.drives 0)
    {c : AllocCall} (hreal : c.Real fs) : Agreed fs (c.run fs s) ∧ ¬ fs.Free (c.run fs s).drives 0 := by
  cases c with
  | alloc preferredGroup =>
    rcases h.counted.alloc hl preferredGroup with ⟨he, -⟩ | htakes
    · rw [AllocCall.run, he]
      exact ⟨h, hzero⟩
    · exact ⟨⟨htakes.counted, fun c hc => h.padded c ((htakes.free c).mp hc).1⟩,
        fun hc => hzero ((htakes.free 0).mp hc).1⟩
  | free block =>
    rcases h.counted.free hl block with ⟨-, hcounted, hsame, -⟩ | ⟨-, hcounted, hne, hin, -, hfree, -⟩
    · rw [AllocCall.run, hsame.drives]
      refine ⟨⟨hcounted, fun c hc => h.padded c ?_⟩, hzero⟩
      rwa [hsame.drives] at hc
    · refine ⟨⟨hcounted, fun c hc => ((hfree c).mp hc).elim (h.padded c) fun heq => ?_⟩, fun hc => ?_⟩
      · rw [heq]
        exact not_not.mp fun hnot => hreal ⟨hin, hnot⟩
      · exact ((hfree 0).mp hc).elim hzero fun heq => hne heq.symm

/-- Block 0 is in use at the start and stays so, since it cannot be freed; 0 can then stand
for a failed allocation. -/
theorem blocks_sound {s' : AllocState} (hl : Layout fs) (h : Agreed fs s)
    (hzero : ¬ fs.Free s.drives 0)
    (hrun : Relation.ReflTransGen (AllocStep fs (AllocCall.Real fs)) s s') :
    BlocksSound fs (AllocCall.Real fs) s' := by
  have hinv : Agreed fs s' ∧ ¬ fs.Free s'.drives 0 := by
    induction hrun with
    | refl => exact ⟨h, hzero⟩
    | tail _ hstep ih =>
      obtain ⟨c, hc, rfl⟩ := hstep
      exact ih.1.run hl ih.2 hc
  exact hinv.1.sound hl hinv.2

/-- One group of eight bits for the blocks up to 6. -/
def smallFs (firstDataBlock : BitVec 32) : AllocFs where
  device := 0
  blockSize := 1024
  blockSize_dvd := by decide
  blockSize_pos := by decide
  blockSize_le := by decide
  numGroups := 1
  inodesPerGroup := 8
  inodeTable := fun _ => 5
  inodeSize := 128
  revLevel := 0
  journalInum := 0
  blocksCount := 7
  blocksPerGroup := 8
  firstDataBlock
  blockBitmap := fun _ => 3

def smallState : AllocState where
  toState := ext2CacheInit ⟨fun _ sector _ => if sector = 6 ∨ sector = 7 then 0xFE else 0, fun _ => {}, 0, []⟩
  groupFree := fun _ => 1
  freeBlocks := 1

theorem smallFs_layout (first : BitVec 32) : Layout (smallFs first) where
  pos := show 0 < 8 by decide
  dvd := show 8 ∣ 8 by decide
  fits := show 8 ≤ 8 * 1024 by decide
  total := show 1 * 8 < 2 ^ 32 by decide
  addressable := fun _ _ => show (3 + 1) * (1024 / 512) ≤ 2 ^ 28 by decide
  distinct := fun g hg h hh _ => (Nat.lt_one_iff.mp hg).trans (Nat.lt_one_iff.mp hh).symm

def smallBitmap : Bytes := fun i => if i < 1024 then 0xFE else 0

theorem smallFs_bitmap (first : BitVec 32) (g : Nat) :
    (smallFs first).bitmap smallState.drives g = smallBitmap := by
  funext i
  rw [AllocFs.bitmap, Fs.bytes, Fs.loaded, smallBitmap]
  split
  · next hi =>
    have hlt : i < 1024 := hi
    rw [if_pos hlt, Fs.block, Fs.sector_eq]
    show (if (3 * (1024 / 512) + i / 512) % 2 ^ 28 = 6 ∨ (3 * (1024 / 512) + i / 512) % 2 ^ 28 = 7
      then (0xFE : Byte) else 0) = 0xFE
    exact if_pos (by omega)
  · next hi => exact (if_neg hi).symm

theorem smallFs_counted (first : BitVec 32) : Counted (smallFs first) smallState where
  coherent := coherent_init _ _
  group := fun g _ => by
    rw [smallFs_bitmap]
    show 1 = clearBits 8 smallBitmap
    decide
  total := by
    simp only [smallFs_bitmap]
    show 1 = ∑ g ∈ Finset.range 1, clearBits 8 smallBitmap
    decide

theorem smallFs_free (first c : BitVec 32) : (smallFs first).Free smallState.drives c ↔ c = first := by
  have hbits : ∀ p < 8, Bitmap.test smallBitmap (p % 8) = false ↔ p = 0 := by decide
  have hplace : (smallFs first).place c = 0 ↔ c = first := by
    show (c - first).toNat = 0 ↔ _
    bv_omega
  rw [AllocFs.Free, smallFs_bitmap]
  constructor
  · intro h
    exact hplace.mp ((hbits _ h.1).mp h.2)
  · intro h
    have hzero := hplace.mpr h
    have hlt : (smallFs first).place c < 8 := by omega
    exact ⟨hlt, (hbits _ hlt).mpr hzero⟩

theorem smallFs_agreed {first : BitVec 32} (h : first.toNat < 7) : Agreed (smallFs first) smallState :=
  ⟨smallFs_counted first, fun c hc => by
    rw [smallFs_free] at hc
    subst hc
    exact ⟨Nat.le_refl _, h⟩⟩

theorem smallState_sound : BlocksSound (smallFs 1) (AllocCall.Real (smallFs 1))
    (AllocCall.run (smallFs 1) smallState (.alloc 0)) :=
  blocks_sound (smallFs_layout 1) (smallFs_agreed (by decide))
    (mt (smallFs_free 1 0).mp (by decide)) (.single ⟨.alloc 0, trivial, rfl⟩)

/-- The number 7 is past the last block, and freeing it is not rejected; where block 0 is free,
it is handed out and the result 0 says that there is none. -/
theorem smallState_not_sound :
    (Layout (smallFs 1) ∧ Agreed (smallFs 1) smallState ∧
      ¬ BlocksSound (smallFs 1) (fun _ => True) smallState) ∧
    Layout (smallFs 0) ∧ Agreed (smallFs 0) smallState ∧
      ¬ BlocksSound (smallFs 0) (fun _ => True) smallState := by
  refine ⟨⟨smallFs_layout 1, smallFs_agreed (by decide), fun h => ?_⟩,
    smallFs_layout 0, smallFs_agreed (by decide), fun h => ?_⟩
  · have hreject := (h.free 7 trivial).rejected (.inr fun hblock => absurd hblock.1.2 (by decide))
    exact absurd hreject.1 (by decide +kernel)
  · have hzero : (ext2AllocBlock (smallFs 0) 0 smallState).1 = 0 := by decide +kernel
    exact (h.alloc 0 trivial).zero.mp hzero 0 ⟨Nat.le_refl _, by decide⟩ ((smallFs_free 0 0).mpr rfl)

end TocinOS.Ext2

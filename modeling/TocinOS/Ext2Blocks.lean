import TocinOS.Ext2

/-! A volume as its blocks. Writing a block changes that block alone, and the block
cache is transparent: a read returns the block that is on the drive. -/

namespace TocinOS.Ext2

open Function

variable {fs : Fs}

abbrev Block (fs : Fs) := Fin fs.blockSize → Byte

/-- The sector that the driver goes to for sector `k` of a block. -/
def Fs.sector (fs : Fs) (b : BitVec 32) (k : Nat) : Nat :=
  Ide.sectorOf (fs.startSector b + BitVec.ofNat 32 k) 0

/-- A block as the driver finds it. -/
def Fs.block (fs : Fs) (drives : Drives) (b : BitVec 32) : Block fs :=
  fun i => drives fs.device (fs.sector b (i / sectorSize)) (i % sectorSize)

/-- A block where the ext2 layout has it: in the sectors from `b * sectorsPerBlock` on. -/
def Fs.layoutBlock (fs : Fs) (drives : Drives) (b : BitVec 32) : Block fs :=
  fun i => drives fs.device (b.toNat * fs.sectorsPerBlock + i / sectorSize) (i % sectorSize)

def Fs.stored (fs : Fs) (buffer : Bytes) : Block fs := fun i => buffer i

def Fs.loaded (fs : Fs) (block : Block fs) (buffer : Bytes) : Bytes :=
  fun i => if h : i < fs.blockSize then block ⟨i, h⟩ else buffer i

def Fs.bytes (fs : Fs) (block : Block fs) : Bytes := fs.loaded block fun _ => 0

/-- The sectors of the block have numbers that the driver can send. -/
def Fs.Addressable (fs : Fs) (b : BitVec 32) : Prop :=
  (b.toNat + 1) * fs.sectorsPerBlock ≤ 2 ^ 28

instance (fs : Fs) (b : BitVec 32) : Decidable (fs.Addressable b) :=
  inferInstanceAs (Decidable (_ ≤ _))

theorem Fs.le_blockSize (fs : Fs) : 1024 ≤ fs.blockSize :=
  Nat.le_of_dvd fs.blockSize_pos fs.blockSize_dvd

theorem Fs.sectors_mul (fs : Fs) : fs.sectorsPerBlock * sectorSize = fs.blockSize := by
  obtain ⟨c, hc⟩ := fs.blockSize_dvd
  simp only [Fs.sectorsPerBlock, sectorSize]
  omega

theorem Fs.sectors_le (fs : Fs) : fs.sectorsPerBlock ≤ 8 := by
  have hle := fs.blockSize_le
  simp only [Fs.sectorsPerBlock, sectorSize]
  omega

theorem Fs.sectors_pos (fs : Fs) : 0 < fs.sectorsPerBlock :=
  Nat.div_pos (Nat.le_trans (by decide) fs.le_blockSize) (by decide)

theorem Fs.div_lt (fs : Fs) (i : Fin fs.blockSize) : i.val / sectorSize < fs.sectorsPerBlock := by
  rw [Nat.div_lt_iff_lt_mul (by decide), fs.sectors_mul]
  exact i.isLt

theorem Fs.sectorOf_startSector (fs : Fs) (b : BitVec 32) (k : Nat) :
    Ide.sectorOf (fs.startSector b + BitVec.ofNat 32 k) 0 = fs.sector b k :=
  rfl

theorem Fs.sector_eq (fs : Fs) (b : BitVec 32) (k : Nat) :
    fs.sector b k = (b.toNat * fs.sectorsPerBlock + k) % 2 ^ 28 := by
  have hle := fs.sectors_le
  rw [Fs.sector, Ide.sectorOf, Fs.startSector, BitVec.toNat_add, BitVec.toNat_mul, BitVec.toNat_ofNat,
    BitVec.toNat_ofNat, Nat.mod_eq_of_lt (a := fs.sectorsPerBlock) (by omega)]
  generalize b.toNat * fs.sectorsPerBlock = start
  omega

theorem Fs.sector_of_addressable {b : BitVec 32} (hb : fs.Addressable b) {k : Nat}
    (hk : k < fs.sectorsPerBlock) : fs.sector b k = b.toNat * fs.sectorsPerBlock + k := by
  rw [Fs.Addressable, Nat.succ_mul] at hb
  rw [Fs.sector_eq, Nat.mod_eq_of_lt (by omega)]

theorem Fs.block_eq_layoutBlock {b : BitVec 32} (hb : fs.Addressable b) (drives : Drives) :
    fs.block drives b = fs.layoutBlock drives b := by
  funext i
  rw [Fs.block, Fs.layoutBlock, Fs.sector_of_addressable hb (fs.div_lt i)]

variable {c : BitVec 32} {n : Nat}

theorem Fs.sector_inj {b : BitVec 32} (hb : fs.Addressable b) (hc : fs.Addressable c) {k l : Nat}
    (hk : k < fs.sectorsPerBlock) (hl : l < fs.sectorsPerBlock) (h : fs.sector b k = fs.sector c l) :
    b = c ∧ k = l := by
  rw [Fs.sector_of_addressable hb hk, Fs.sector_of_addressable hc hl] at h
  have hdiv := congrArg (· / fs.sectorsPerBlock) h
  have hmod := congrArg (· % fs.sectorsPerBlock) h
  simp only [Nat.mul_comm _ fs.sectorsPerBlock, Nat.mul_add_div (Nat.zero_lt_of_lt hk),
    Nat.div_eq_of_lt hk, Nat.div_eq_of_lt hl, Nat.add_zero, Nat.mul_add_mod,
    Nat.mod_eq_of_lt hk, Nat.mod_eq_of_lt hl] at hdiv hmod
  exact ⟨BitVec.eq_of_toNat_eq hdiv, hmod⟩

/-! ### Sector transfers -/

theorem in_sector_iff {i : Nat} :
    n * sectorSize ≤ i ∧ i < n * sectorSize + sectorSize ↔ i / sectorSize = n := by
  simp only [sectorSize]
  omega

theorem readSectors_eq (fs : Fs) (drives : Drives) (b : BitVec 32) (buffer : Bytes) :
    readSectors fs drives b buffer = fs.loaded (fs.block drives b) buffer := by
  have hloop : ∀ n i, (List.range n).foldl (fun buffer i => ideReadSector drives fs.device
      (fs.startSector b + BitVec.ofNat 32 i) buffer (i * sectorSize)) buffer i =
        if i / sectorSize < n then drives fs.device (fs.sector b (i / sectorSize)) (i % sectorSize)
        else buffer i := by
    intro n i
    induction n with
    | zero => simp
    | succ n ih =>
      rw [List.range_succ, List.foldl_append, List.foldl_cons, List.foldl_nil, ideReadSector, ih]
      by_cases hin : i / sectorSize = n
      · have hmod : i - n * sectorSize = i % sectorSize := by
          rw [← hin, Nat.mod_eq_sub_div_mul]
        rw [if_pos (in_sector_iff.mpr hin), if_pos (by omega), hin, hmod, Fs.sectorOf_startSector]
      · rw [if_neg fun h => hin (in_sector_iff.mp h)]
        by_cases hlt : i / sectorSize < n
        · rw [if_pos hlt, if_pos (by omega)]
        · rw [if_neg hlt, if_neg (by omega)]
  funext i
  have hlt : i / sectorSize < fs.sectorsPerBlock ↔ i < fs.blockSize := by
    rw [Nat.div_lt_iff_lt_mul (by decide), fs.sectors_mul]
  simp only [readSectors, hloop, hlt, Fs.loaded, Fs.block, dite_eq_ite]

theorem writeSectors_loop (fs : Fs) (drives : Drives) (b : BitVec 32) (buffer : Bytes)
    (hn : n ≤ fs.sectorsPerBlock) :
    let written := (List.range n).foldl (fun drives i => ideWriteSector drives fs.device
      (fs.startSector b + BitVec.ofNat 32 i) buffer (i * sectorSize)) drives
    (∀ k < n, written fs.device (fs.sector b k) = fun i => buffer (k * sectorSize + i)) ∧
      ∀ sector, (∀ k < n, sector ≠ fs.sector b k) →
        written fs.device sector = drives fs.device sector := by
  have hle := fs.sectors_le
  induction n with
  | zero => simp
  | succ n ih =>
    obtain ⟨hwritten, hother⟩ := ih (Nat.le_of_succ_le hn)
    simp only [List.range_succ, List.foldl_append, List.foldl_cons, List.foldl_nil,
      ideWriteSector, update_self, Fs.sectorOf_startSector]
    constructor
    · intro k hk
      by_cases hkn : k = n
      · subst hkn
        rw [update_self]
      · have hne : fs.sector b k ≠ fs.sector b n := by
          rw [Fs.sector_eq, Fs.sector_eq]
          omega
        rw [update_of_ne hne]
        exact hwritten k (by omega)
    · intro sector hsector
      rw [update_of_ne (hsector n (Nat.lt_succ_self n))]
      exact hother sector fun k hk => hsector k (Nat.lt_succ_of_lt hk)

theorem writeSectors_device {d : BitVec 8} (hd : d ≠ fs.device) (drives : Drives) (b : BitVec 32)
    (buffer : Bytes) (n : Nat) :
    (List.range n).foldl (fun drives i => ideWriteSector drives fs.device
      (fs.startSector b + BitVec.ofNat 32 i) buffer (i * sectorSize)) drives d = drives d := by
  induction n with
  | zero => rfl
  | succ n ih =>
    rw [List.range_succ, List.foldl_append, List.foldl_cons, List.foldl_nil, ideWriteSector,
      update_of_ne hd, ih]

theorem block_writeSectors_self (fs : Fs) (drives : Drives) (b : BitVec 32) (buffer : Bytes) :
    fs.block (writeSectors fs drives b buffer) b = fs.stored buffer := by
  funext i
  have hwritten := (writeSectors_loop fs drives b buffer le_rfl).1 _ (fs.div_lt i)
  simp only [Fs.block, writeSectors, hwritten, Fs.stored]
  rw [Nat.mul_comm, Nat.div_add_mod]

theorem block_writeSectors_of_ne {b : BitVec 32} (hb : fs.Addressable b) (hc : fs.Addressable c)
    (hne : c ≠ b) (drives : Drives) (buffer : Bytes) :
    fs.block (writeSectors fs drives b buffer) c = fs.block drives c := by
  funext i
  have hother := (writeSectors_loop fs drives b buffer le_rfl).2
  simp only [Fs.block, writeSectors]
  rw [hother]
  intro k hk h
  exact hne (Fs.sector_inj hc hb (fs.div_lt i) hk h).1

/-- Blocks of one slot have the same sectors for the driver. -/
def Fs.slot (fs : Fs) (b : BitVec 32) : Nat := b.toNat % (2 ^ 28 / fs.sectorsPerBlock)

theorem Fs.sector_slot (hdvd : fs.sectorsPerBlock ∣ 2 ^ 28) (b : BitVec 32) {k : Nat}
    (hk : k < fs.sectorsPerBlock) : fs.sector b k = fs.sectorsPerBlock * fs.slot b + k := by
  have hpos := fs.sectors_pos
  rw [Fs.sector_eq, Fs.slot, ← Nat.mul_div_cancel' hdvd, Nat.mul_div_cancel_left _ hpos, Nat.mod_mul,
    Nat.mul_comm b.toNat, Nat.mul_add_mod, Nat.mod_eq_of_lt hk, Nat.mul_add_div hpos, Nat.div_eq_of_lt hk,
    Nat.add_zero, Nat.add_comm]

theorem Fs.block_of_slot (hdvd : fs.sectorsPerBlock ∣ 2 ^ 28) {b : BitVec 32} (h : fs.slot c = fs.slot b)
    (drives : Drives) : fs.block drives c = fs.block drives b := by
  funext i
  rw [Fs.block, Fs.block, Fs.sector_slot hdvd c (fs.div_lt i), Fs.sector_slot hdvd b (fs.div_lt i), h]

theorem block_writeSectors (hdvd : fs.sectorsPerBlock ∣ 2 ^ 28) (b c : BitVec 32) (drives : Drives)
    (buffer : Bytes) : fs.block (writeSectors fs drives b buffer) c =
      if fs.slot c = fs.slot b then fs.stored buffer else fs.block drives c := by
  split
  · next h => rw [Fs.block_of_slot hdvd h, block_writeSectors_self]
  · next h =>
    funext i
    have hother := (writeSectors_loop fs drives b buffer le_rfl).2
    simp only [Fs.block, writeSectors]
    rw [hother]
    intro k hk hsector
    rw [Fs.sector_slot hdvd c (fs.div_lt i), Fs.sector_slot hdvd b hk] at hsector
    have hdiv := congrArg (· / fs.sectorsPerBlock) hsector
    simp only [Nat.mul_add_div fs.sectors_pos, Nat.div_eq_of_lt hk, Nat.div_eq_of_lt (fs.div_lt i),
      Nat.add_zero] at hdiv
    exact h hdiv

/-! ### The cache -/

theorem ext2CacheFind_cases (b : BitVec 32) (s : State) :
    (ext2CacheFind b s = (none, s) ∧
      ∀ i < cacheSize, (s.blockCache i).valid = true → (s.blockCache i).blockNum ≠ b) ∨
    ∃ i < cacheSize, (s.blockCache i).valid = true ∧ (s.blockCache i).blockNum = b ∧
      ext2CacheFind b s = (some i, { s with
        cacheAccessCounter := s.cacheAccessCounter + 1
        blockCache := update s.blockCache i
          { s.blockCache i with lastAccess := s.cacheAccessCounter + 1 } }) := by
  unfold ext2CacheFind
  cases hfind : (List.range cacheSize).find? fun i =>
      (s.blockCache i).valid && (s.blockCache i).blockNum == b with
  | none =>
    refine .inl ⟨rfl, fun i hi hv hb => ?_⟩
    have := List.find?_eq_none.mp hfind i (List.mem_range.mpr hi)
    simp [hv, hb] at this
  | some i =>
    have hi := List.mem_range.mp (List.mem_of_find?_eq_some hfind)
    have hfound := List.find?_some hfind
    rw [Bool.and_eq_true, beq_iff_eq] at hfound
    exact .inr ⟨i, hi, hfound.1, hfound.2, rfl⟩

theorem ext2CacheGetFree_drives (s : State) : (ext2CacheGetFree s).2.drives = s.drives := by
  unfold ext2CacheGetFree
  split <;> rfl

theorem ext2CacheGetFree_entry {s : State} {j : Nat}
    (hv : ((ext2CacheGetFree s).2.blockCache j).valid = true) :
    (ext2CacheGetFree s).2.blockCache j = s.blockCache j := by
  revert hv
  unfold ext2CacheGetFree
  cases (List.range cacheSize).find? fun i => !(s.blockCache i).valid with
  | some i => exact fun _ => rfl
  | none =>
    intro hv
    by_cases hj : j = leastRecentlyUsed s
    · simp [hj] at hv
    · exact update_of_ne hj ..

theorem ext2ReadBlock_drives (fs : Fs) (b : BitVec 32) (buffer : Bytes) (s : State) :
    (ext2ReadBlock fs b buffer s).2.drives = s.drives := by
  rcases ext2CacheFind_cases b s with ⟨hfind, -⟩ | ⟨i, -, -, -, hfind⟩ <;>
    simp only [ext2ReadBlock, hfind, ext2CacheGetFree_drives]

theorem ext2WriteBlock_drives (fs : Fs) (b : BitVec 32) (buffer : Bytes) (s : State) :
    (ext2WriteBlock fs b buffer s).drives = writeSectors fs s.drives b buffer := by
  unfold ext2WriteBlock
  rcases ext2CacheFind_cases b { s with
    drives := writeSectors fs s.drives b buffer
    history := s.drives :: s.history } with ⟨hfind, -⟩ | ⟨i, -, -, -, hfind⟩ <;> simp only [hfind]

structure Coherent (fs : Fs) (s : State) : Prop where
  addressable : ∀ i < cacheSize, (s.blockCache i).valid = true →
    fs.Addressable (s.blockCache i).blockNum
  data : ∀ i < cacheSize, (s.blockCache i).valid = true →
    fs.stored (s.blockCache i).data = fs.block s.drives (s.blockCache i).blockNum
  unique : ∀ i < cacheSize, ∀ j < cacheSize, (s.blockCache i).valid = true →
    (s.blockCache j).valid = true → (s.blockCache i).blockNum = (s.blockCache j).blockNum → i = j

/-- The same for entries of several volumes: `own b` is the one that block `b` is cached for. -/
structure Cached (own : BitVec 32 → Fs) (s : State) : Prop where
  addressable : ∀ i < cacheSize, (s.blockCache i).valid = true →
    (own (s.blockCache i).blockNum).Addressable (s.blockCache i).blockNum
  data : ∀ i < cacheSize, (s.blockCache i).valid = true →
    (own (s.blockCache i).blockNum).stored (s.blockCache i).data =
      (own (s.blockCache i).blockNum).block s.drives (s.blockCache i).blockNum
  unique : ∀ i < cacheSize, ∀ j < cacheSize, (s.blockCache i).valid = true →
    (s.blockCache j).valid = true → (s.blockCache i).blockNum = (s.blockCache j).blockNum → i = j

theorem coherent_iff {s : State} : Coherent fs s ↔ Cached (fun _ => fs) s :=
  ⟨fun h => ⟨h.addressable, h.data, h.unique⟩, fun h => ⟨h.addressable, h.data, h.unique⟩⟩

theorem cached_init (own : BitVec 32 → Fs) (s : State) : Cached own (ext2CacheInit s) where
  addressable := fun _ _ h => absurd h Bool.false_ne_true
  data := fun _ _ h => absurd h Bool.false_ne_true
  unique := fun _ _ _ _ h => absurd h Bool.false_ne_true

theorem coherent_init (fs : Fs) (s : State) : Coherent fs (ext2CacheInit s) :=
  coherent_iff.mpr (cached_init _ s)

section Cached

variable {own : BitVec 32 → Fs} {s : State} {b : BitVec 32}

theorem cached_setEntry (i : Nat) (e : CacheEntry) (counter : BitVec 32)
    (hothers : ∀ j < cacheSize, j ≠ i → (s.blockCache j).valid = true →
      (own (s.blockCache j).blockNum).Addressable (s.blockCache j).blockNum ∧
        (own (s.blockCache j).blockNum).stored (s.blockCache j).data =
          (own (s.blockCache j).blockNum).block s.drives (s.blockCache j).blockNum ∧
        (e.valid = true → (s.blockCache j).blockNum ≠ e.blockNum))
    (hunique : ∀ j < cacheSize, ∀ k < cacheSize, (s.blockCache j).valid = true →
      (s.blockCache k).valid = true →
        (s.blockCache j).blockNum = (s.blockCache k).blockNum → j = k)
    (he : e.valid = true → (own e.blockNum).Addressable e.blockNum ∧
      (own e.blockNum).stored e.data = (own e.blockNum).block s.drives e.blockNum) :
    Cached own { s with
      blockCache := update s.blockCache i e, cacheAccessCounter := counter } := by
  constructor
  · intro j hj
    dsimp only
    by_cases hji : j = i
    · subst hji
      rw [update_self]
      exact fun hv => (he hv).1
    · rw [update_of_ne hji]
      exact fun hv => (hothers j hj hji hv).1
  · intro j hj
    dsimp only
    by_cases hji : j = i
    · subst hji
      rw [update_self]
      exact fun hv => (he hv).2
    · rw [update_of_ne hji]
      exact fun hv => (hothers j hj hji hv).2.1
  · intro j hj k hk
    by_cases hji : j = i <;> by_cases hki : k = i
    · exact fun _ _ _ => hji.trans hki.symm
    · subst hji
      simp only [update_self, update_of_ne hki]
      exact fun hv hvk hb => absurd hb.symm ((hothers k hk hki hvk).2.2 hv)
    · subst hki
      simp only [update_self, update_of_ne hji]
      exact fun hvj hv hb => absurd hb ((hothers j hj hji hvj).2.2 hv)
    · simpa [hji, hki] using hunique j hj k hk

theorem Cached.setEntry (h : Cached own s) (i : Nat) (e : CacheEntry) (counter : BitVec 32)
    (he : e.valid = true → (own e.blockNum).Addressable e.blockNum ∧
      (own e.blockNum).stored e.data = (own e.blockNum).block s.drives e.blockNum ∧
      ∀ j < cacheSize, j ≠ i → (s.blockCache j).valid = true →
        (s.blockCache j).blockNum ≠ e.blockNum) :
    Cached own { s with
      blockCache := update s.blockCache i e, cacheAccessCounter := counter } := by
  apply cached_setEntry i e counter
  · intro j hj hji hv
    exact ⟨h.addressable j hj hv, h.data j hj hv, fun hve => (he hve).2.2 j hj hji hv⟩
  · exact h.unique
  · exact fun hv => ⟨(he hv).1, (he hv).2.1⟩

theorem Cached.getFree (h : Cached own s) : Cached own (ext2CacheGetFree s).2 := by
  unfold ext2CacheGetFree
  cases (List.range cacheSize).find? fun i => !(s.blockCache i).valid with
  | some i => exact h
  | none => exact h.setEntry _ _ s.cacheAccessCounter (by simp)

theorem copyBytes_eq_loaded (fs : Fs) (source buffer : Bytes) :
    copyBytes fs.blockSize source buffer = fs.loaded (fs.stored source) buffer := by
  funext i
  simp only [copyBytes, Fs.loaded, Fs.stored, dite_eq_ite]

theorem stored_loaded (fs : Fs) (block : Block fs) (buffer : Bytes) :
    fs.stored (fs.loaded block buffer) = block := by
  funext i
  simp [Fs.stored, Fs.loaded]

theorem Cached.read (h : Cached own s) (hb : (own b).Addressable b) (buffer : Bytes) :
    (ext2ReadBlock (own b) b buffer s).1 = (own b).loaded ((own b).block s.drives b) buffer ∧
      Cached own (ext2ReadBlock (own b) b buffer s).2 := by
  rcases ext2CacheFind_cases b s with ⟨hfind, hmiss⟩ | ⟨i, hi, hv, hnum, hfind⟩
  · simp only [ext2ReadBlock, hfind, readSectors_eq, true_and]
    apply h.getFree.setEntry
    refine fun _ => ⟨hb, ?_, ?_⟩
    · rw [copyBytes_eq_loaded, stored_loaded, stored_loaded, ext2CacheGetFree_drives]
    · intro j hj _ hvj
      have hsame := ext2CacheGetFree_entry hvj
      rw [hsame] at hvj ⊢
      exact hmiss j hj hvj
  · subst hnum
    simp only [ext2ReadBlock, hfind]
    constructor
    · rw [update_self, copyBytes_eq_loaded, h.data i hi hv]
    · apply h.setEntry
      refine fun _ => ⟨h.addressable i hi hv, h.data i hi hv, ?_⟩
      intro j hj hji hvj hsame
      exact hji (h.unique j hj i hi hvj hv hsame)

def Uniform (own : BitVec 32 → Fs) : Prop :=
  ∀ b c, (own b).device = (own c).device → (own b).blockSize = (own c).blockSize

theorem Uniform.block_of_ne (hown : Uniform own) (hb : (own b).Addressable b)
    (hc : (own c).Addressable c) (hne : c ≠ b) (drives : Drives) (buffer : Bytes)
    (hn : n ≤ (own b).sectorsPerBlock) :
    (own c).block ((List.range n).foldl (fun drives i => ideWriteSector drives (own b).device
      ((own b).startSector b + BitVec.ofNat 32 i) buffer (i * sectorSize)) drives) c =
        (own c).block drives c := by
  funext i
  simp only [Fs.block]
  by_cases hdevice : (own c).device = (own b).device
  · have hsize : (own c).sectorsPerBlock = (own b).sectorsPerBlock := by
      rw [Fs.sectorsPerBlock, Fs.sectorsPerBlock, hown c b hdevice]
    have hsector (k : Nat) : (own c).sector c k = (own b).sector c k := by
      rw [Fs.sector_eq, Fs.sector_eq, hsize]
    have hlt : i.val / sectorSize < (own b).sectorsPerBlock := hsize ▸ (own c).div_lt i
    rw [Fs.Addressable, hsize] at hc
    rw [hdevice, hsector, (writeSectors_loop (own b) drives b buffer hn).2]
    intro k hk h
    exact hne (Fs.sector_inj hc hb hlt (Nat.lt_of_lt_of_le hk hn) h).1
  · rw [writeSectors_device hdevice]

theorem Cached.write (hown : Uniform own) (h : Cached own s) (hb : (own b).Addressable b)
    (buffer : Bytes) : Cached own (ext2WriteBlock (own b) b buffer s) := by
  -- an entry of another block keeps its data, since the write leaves that block alone
  have hother : ∀ i < cacheSize, (s.blockCache i).valid = true → (s.blockCache i).blockNum ≠ b →
      (own (s.blockCache i).blockNum).stored (s.blockCache i).data =
        (own (s.blockCache i).blockNum).block (writeSectors (own b) s.drives b buffer)
          (s.blockCache i).blockNum := by
    intro i hi hv hne
    rw [writeSectors, hown.block_of_ne hb (h.addressable i hi hv) hne s.drives buffer le_rfl]
    exact h.data i hi hv
  rcases ext2CacheFind_cases b { s with
    drives := writeSectors (own b) s.drives b buffer
    history := s.drives :: s.history } with ⟨hfind, hmiss⟩ | ⟨i, hi, hv, hnum, hfind⟩
  · simp only [ext2WriteBlock, hfind]
    exact ⟨h.addressable, fun i hi hv => hother i hi hv (hmiss i hi hv), h.unique⟩
  · simp only [ext2WriteBlock, hfind, update_self, update_idem]
    apply cached_setEntry (s := { s with
      drives := writeSectors (own b) s.drives b buffer, history := s.drives :: s.history })
    · intro j hj hji hvj
      have hne : (s.blockCache j).blockNum ≠ b := fun hnumj =>
        hji (h.unique j hj i hi hvj hv (hnumj.trans hnum.symm))
      exact ⟨h.addressable j hj hvj, hother j hj hvj hne, fun _ => by rw [hnum]; exact hne⟩
    · exact h.unique
    · intro _
      refine ⟨h.addressable i hi hv, ?_⟩
      obtain rfl : (s.blockCache i).blockNum = b := hnum
      show (own _).stored _ = (own _).block _ (s.blockCache i).blockNum
      rw [copyBytes_eq_loaded, stored_loaded]
      exact (block_writeSectors_self ..).symm

end Cached

theorem Coherent.read {s : State} (h : Coherent fs s) {b : BitVec 32} (hb : fs.Addressable b)
    (buffer : Bytes) :
    (ext2ReadBlock fs b buffer s).1 = fs.loaded (fs.block s.drives b) buffer ∧
      Coherent fs (ext2ReadBlock fs b buffer s).2 := by
  rw [coherent_iff]
  exact (coherent_iff.mp h).read hb buffer

theorem Coherent.write {s : State} (h : Coherent fs s) {b : BitVec 32} (hb : fs.Addressable b)
    (buffer : Bytes) : Coherent fs (ext2WriteBlock fs b buffer s) :=
  coherent_iff.mpr ((coherent_iff.mp h).write (fun _ _ _ => rfl) hb buffer)

/-! ### Transfers that may fail -/

variable {faults : Faults}

theorem tryReadSectors_cases (faults : Faults) (fs : Fs) (drives : Drives) (b : BitVec 32)
    (sectors : List Nat) (buffer : Bytes) (time : Nat) :
    let r := tryReadSectors faults fs drives b sectors buffer time
    ((∀ t, faults.reads t = true) → r.1 = true) ∧
    (r.1 = true → r.2.1 = sectors.foldl (fun buffer i =>
      ideReadSector drives fs.device (fs.startSector b + BitVec.ofNat 32 i) buffer
        (i * sectorSize)) buffer) ∧
    ∀ buffer', (tryReadSectors faults fs drives b sectors buffer' time).1 = r.1 ∧
      (tryReadSectors faults fs drives b sectors buffer' time).2.2 = r.2.2 := by
  induction sectors generalizing buffer time with
  | nil => exact ⟨fun _ => rfl, fun _ => rfl, fun _ => ⟨rfl, rfl⟩⟩
  | cons i rest ih =>
    rw [tryReadSectors]
    by_cases hdone : faults.reads time = true
    · obtain ⟨hall, hbuffer, hsame⟩ := ih (ideReadSector drives fs.device
        (fs.startSector b + BitVec.ofNat 32 i) buffer (i * sectorSize)) (time + 1)
      rw [if_pos hdone]
      refine ⟨hall, hbuffer, fun buffer' => ?_⟩
      rw [tryReadSectors, if_pos hdone]
      exact hsame _
    · rw [if_neg hdone]
      refine ⟨fun h => absurd (h time) hdone, fun h => absurd h Bool.false_ne_true, fun buffer' => ?_⟩
      rw [tryReadSectors, if_neg hdone]
      exact ⟨rfl, rfl⟩

/-- A read that succeeds is that of a drive without errors; one that fails leaves the cache alone. -/
theorem tryReadBlock_cases (faults : Faults) (fs : Fs) (b : BitVec 32) (buffer : Bytes) (s : State)
    (time : Nat) : ∃ ok buffer' s' time', tryReadBlock faults fs b buffer s time = (ok, buffer', s', time') ∧
      ((∀ t, faults.reads t = true) → ok = true) ∧
      (ok = true → buffer' = (ext2ReadBlock fs b buffer s).1 ∧ s' = (ext2ReadBlock fs b buffer s).2) ∧
      (ok = false → s' = s) := by
  rcases ext2CacheFind_cases b s with ⟨hfind, -⟩ | ⟨i, -, -, -, hfind⟩
  · obtain ⟨hall, hbuffer, -⟩ := tryReadSectors_cases faults fs s.drives b
      (List.range fs.sectorsPerBlock) buffer time
    simp only [tryReadBlock, ext2ReadBlock, hfind]
    generalize tryReadSectors faults fs s.drives b (List.range fs.sectorsPerBlock) buffer time = r
      at hall hbuffer
    obtain ⟨ok, buffer', time'⟩ := r
    cases ok with
    | false => exact ⟨false, buffer', _, time', rfl, hall, fun h => absurd h Bool.false_ne_true, fun _ => rfl⟩
    | true =>
      obtain rfl : buffer' = readSectors fs s.drives b buffer := hbuffer rfl
      exact ⟨true, _, _, time', rfl, hall, fun _ => ⟨rfl, rfl⟩, fun h => absurd h.symm Bool.false_ne_true⟩
  · simp only [tryReadBlock, ext2ReadBlock, hfind]
    exact ⟨true, _, _, time, rfl, fun _ => rfl, fun _ => ⟨rfl, rfl⟩,
      fun h => absurd h.symm Bool.false_ne_true⟩

/-- What is in the buffer before a read makes no difference to its success or to the cache. -/
theorem tryReadBlock_buffer (faults : Faults) (fs : Fs) (b : BitVec 32) (buffer buffer' : Bytes) (s : State)
    (time : Nat) : (tryReadBlock faults fs b buffer s time).1 = (tryReadBlock faults fs b buffer' s time).1 ∧
      (tryReadBlock faults fs b buffer s time).2.2 = (tryReadBlock faults fs b buffer' s time).2.2 := by
  rcases ext2CacheFind_cases b s with ⟨hfind, -⟩ | ⟨i, -, -, -, hfind⟩
  · obtain ⟨-, hbuffer, hsame⟩ := tryReadSectors_cases faults fs s.drives b
      (List.range fs.sectorsPerBlock) buffer time
    have hbuffer' := (tryReadSectors_cases faults fs s.drives b (List.range fs.sectorsPerBlock) buffer' time).2.1
    obtain ⟨hok, htime⟩ := hsame buffer'
    simp only [tryReadBlock, hfind]
    generalize tryReadSectors faults fs s.drives b (List.range fs.sectorsPerBlock) buffer time = r at *
    generalize tryReadSectors faults fs s.drives b (List.range fs.sectorsPerBlock) buffer' time = r' at *
    obtain ⟨ok, bytes, t⟩ := r
    obtain ⟨ok', bytes', t'⟩ := r'
    obtain rfl : ok' = ok := hok
    obtain rfl : t' = t := htime
    cases ok' with
    | false => exact ⟨rfl, rfl⟩
    | true =>
      obtain rfl : bytes = readSectors fs s.drives b buffer := hbuffer rfl
      obtain rfl : bytes' = readSectors fs s.drives b buffer' := hbuffer' rfl
      simp only [readSectors_eq, copyBytes_eq_loaded, stored_loaded, and_self]
  · simp only [tryReadBlock, hfind, and_self]

/-- Reads blocks one after the other, up to the first that cannot be read. -/
def readAll (faults : Faults) (fs : Fs) : List (BitVec 32) → State → Nat → Bool × State × Nat
  | [], s, time => (true, s, time)
  | b :: rest, s, time =>
    match tryReadBlock faults fs b (fun _ => 0) s time with
    | (false, _, s, time) => (false, s, time)
    | (true, _, s, time) => readAll faults fs rest s time

theorem readAll_cons {b : BitVec 32} {buffer buffer' : Bytes} {s s' : State} {time time' : Nat} {ok : Bool}
    (h : tryReadBlock faults fs b buffer s time = (ok, buffer', s', time')) (rest : List (BitVec 32)) :
    readAll faults fs (b :: rest) s time =
      if ok then readAll faults fs rest s' time' else (false, s', time') := by
  obtain ⟨hok, hrest⟩ := tryReadBlock_buffer faults fs b (fun _ => 0) buffer s time
  rw [h] at hok hrest
  rw [readAll]
  generalize tryReadBlock faults fs b (fun _ => 0) s time = r at *
  obtain ⟨ok', bytes, s'', time''⟩ := r
  obtain rfl : ok' = ok := hok
  obtain ⟨rfl, rfl⟩ := Prod.mk.inj (show (s'', time'') = (s', time') from hrest)
  cases ok' <;> rfl

theorem readAll_append (faults : Faults) (fs : Fs) (blocks : List (BitVec 32)) (b : BitVec 32) (s : State)
    (time : Nat) : (readAll faults fs (blocks ++ [b]) s time).1 = true ↔
      (readAll faults fs blocks s time).1 = true ∧ (tryReadBlock faults fs b (fun _ => 0)
        (readAll faults fs blocks s time).2.1 (readAll faults fs blocks s time).2.2).1 = true := by
  induction blocks generalizing s time with
  | nil =>
    obtain ⟨ok, bytes, s', time', hread, -⟩ := tryReadBlock_cases faults fs b (fun _ => 0) s time
    rw [List.nil_append, readAll_cons hread, readAll, readAll, hread]
    cases ok with
    | false => exact iff_of_false Bool.false_ne_true fun h => Bool.false_ne_true h.2
    | true => exact iff_of_true rfl ⟨rfl, rfl⟩
  | cons c rest ih =>
    obtain ⟨ok, bytes, s', time', hread, -⟩ := tryReadBlock_cases faults fs c (fun _ => 0) s time
    rw [List.cons_append, readAll_cons hread, readAll_cons hread]
    cases ok with
    | false => exact iff_of_false Bool.false_ne_true fun h => Bool.false_ne_true h.1
    | true => exact ih s' time'

theorem readAll_of_reads (h : ∀ t, faults.reads t = true) (fs : Fs) (blocks : List (BitVec 32)) (s : State)
    (time : Nat) : (readAll faults fs blocks s time).1 = true := by
  induction blocks generalizing s time with
  | nil => rfl
  | cons b rest ih =>
    obtain ⟨ok, buffer, s', time', hread, hok, -⟩ := tryReadBlock_cases faults fs b (fun _ => 0) s time
    rw [readAll_cons hread, if_pos (hok h)]
    exact ih s' time'

/-- The same as far as the driver can tell, which sends sector numbers of 28 bits. -/
def Alike (fs : Fs) (drives drives' : Drives) : Prop :=
  ∀ sector < 2 ^ 28, drives' fs.device sector = drives fs.device sector

theorem Alike.block {drives drives' : Drives} (h : Alike fs drives drives') (b : BitVec 32) :
    fs.block drives' b = fs.block drives b := by
  funext i
  rw [Fs.block, Fs.block, Fs.sector, Ide.sectorOf, h _ (Nat.mod_lt _ (Nat.two_pow_pos 28))]

/-- A write that fails when part of the block may already be on the drive. -/
def Faults.Torn (faults : Faults) (fs : Fs) (time : Nat) : Prop :=
  faults.writes time ≠ .refused ∧ ∃ t < fs.sectorsPerBlock, faults.writes (time + t) ≠ .done

theorem tryWriteSectors_cases (faults : Faults) (fs : Fs) (b : BitVec 32) (buffer : Bytes)
    (sectors : List Nat) (drives : Drives) (time : Nat) : ∃ ok n time',
      tryWriteSectors faults fs b buffer sectors drives time =
        (ok, (sectors.take n).foldl (fun drives i => ideWriteSector drives fs.device
          (fs.startSector b + BitVec.ofNat 32 i) buffer (i * sectorSize)) drives, time') ∧
      n ≤ sectors.length ∧ (ok = true → n = sectors.length) ∧
      (ok = false → (∃ t < sectors.length, faults.writes (time + t) ≠ .done) ∧
        (0 < n → faults.writes time ≠ .refused)) := by
  induction sectors generalizing drives time with
  | nil => exact ⟨true, 0, time, rfl, Nat.le_refl _, fun _ => rfl, fun h => absurd h.symm Bool.false_ne_true⟩
  | cons i rest ih =>
    rw [tryWriteSectors]
    cases hanswer : faults.writes time with
    | done =>
      obtain ⟨ok, n, time', heq, hle, hall, hfail⟩ := ih (ideWriteSector drives fs.device
        (fs.startSector b + BitVec.ofNat 32 i) buffer (i * sectorSize)) (time + 1)
      refine ⟨ok, n + 1, time', heq, Nat.succ_le_succ hle, fun h => congrArg (· + 1) (hall h), fun h => ?_⟩
      obtain ⟨⟨t, ht, hbad⟩, -⟩ := hfail h
      refine ⟨⟨t + 1, Nat.succ_lt_succ ht, ?_⟩, fun _ h => Answer.noConfusion h⟩
      rwa [Nat.add_comm t, ← Nat.add_assoc]
    | refused =>
      refine ⟨false, 0, time + 1, rfl, Nat.zero_le _, fun h => absurd h Bool.false_ne_true, fun _ =>
        ⟨⟨0, Nat.succ_pos _, ?_⟩, fun h => absurd h (Nat.lt_irrefl 0)⟩⟩
      rw [Nat.add_zero, hanswer]
      exact Answer.noConfusion
    | unconfirmed =>
      refine ⟨false, 1, time + 1, rfl, Nat.succ_pos _, fun h => absurd h Bool.false_ne_true, fun _ =>
        ⟨⟨0, Nat.succ_pos _, ?_⟩, fun _ h => Answer.noConfusion h⟩⟩
      rw [Nat.add_zero, hanswer]
      exact Answer.noConfusion

/-- A write that ends without an error is that of a drive without errors; after an error some of the
sectors may be stored, all of them if the last one was not confirmed. -/
theorem tryWriteBlock_cases (faults : Faults) (fs : Fs) (b : BitVec 32) (buffer : Bytes) (s : State)
    (time : Nat) :
    (∃ time', tryWriteBlock faults fs b buffer s time = (true, ext2WriteBlock fs b buffer s, time')) ∨
    ∃ n ≤ fs.sectorsPerBlock, ∃ time', tryWriteBlock faults fs b buffer s time =
        (false, { s with
          drives := (List.range n).foldl (fun drives i => ideWriteSector drives fs.device
            (fs.startSector b + BitVec.ofNat 32 i) buffer (i * sectorSize)) s.drives
          history := s.drives :: s.history }, time') ∧
      (0 < n → faults.Torn fs time) := by
  obtain ⟨ok, n, time', heq, hle, hall, hfail⟩ := tryWriteSectors_cases faults fs b buffer
    (List.range fs.sectorsPerBlock) s.drives time
  rw [List.length_range] at hle hall hfail
  rw [List.take_range, Nat.min_eq_left hle] at heq
  rw [tryWriteBlock, heq]
  cases ok with
  | false =>
    obtain ⟨hbad, hstored⟩ := hfail rfl
    exact .inr ⟨n, hle, time', rfl, fun h => ⟨hstored h, hbad⟩⟩
  | true =>
    refine .inl ⟨time', ?_⟩
    dsimp only
    rw [hall rfl, ext2WriteBlock, writeSectors]
    generalize ext2CacheFind b _ = found
    obtain ⟨_ | i, s'⟩ := found <;> rfl

theorem tryWriteSectors_done (hw : ∀ t, faults.writes t = .done) (fs : Fs) (b : BitVec 32)
    (buffer : Bytes) (sectors : List Nat) (drives : Drives) (time : Nat) :
    tryWriteSectors faults fs b buffer sectors drives time =
      (true, sectors.foldl (fun drives i => ideWriteSector drives fs.device
        (fs.startSector b + BitVec.ofNat 32 i) buffer (i * sectorSize)) drives,
        time + sectors.length) := by
  induction sectors generalizing drives time with
  | nil => rfl
  | cons i rest ih =>
    rw [tryWriteSectors, hw]
    dsimp only
    rw [ih, List.foldl_cons, List.length_cons, Nat.add_assoc, Nat.add_comm 1]

theorem tryWriteBlock_done (hw : ∀ t, faults.writes t = .done) (fs : Fs) (b : BitVec 32)
    (buffer : Bytes) (s : State) (time : Nat) :
    tryWriteBlock faults fs b buffer s time =
      (true, ext2WriteBlock fs b buffer s, time + fs.sectorsPerBlock) := by
  rw [tryWriteBlock, tryWriteSectors_done hw, List.length_range, ext2WriteBlock]
  dsimp only
  rw [writeSectors]
  generalize ext2CacheFind b _ = found
  obtain ⟨_ | i, s'⟩ := found <;> rfl

end TocinOS.Ext2

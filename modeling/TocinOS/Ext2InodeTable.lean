import TocinOS.Ext2Mounts
import TocinOS.Ext2Write

/-! The inode table. An inode is written by reading its block, changing 128 bytes and writing
the block back; what other inodes read depends on where the table puts them. -/

namespace TocinOS.Ext2

open SparseBlocks (copyAt)
open Function

def Fs.tableLength (fs : Fs) : Nat :=
  (fs.inodesPerGroup.toNat * fs.inodeBytes.toNat + fs.blockSize - 1) / fs.blockSize

structure InodeTables (fs : Fs) : Prop where
  blockSize : fs.blockSize ∣ 2 ^ 32
  inodes : 0 < fs.inodesPerGroup.toNat
  least : 128 ≤ fs.inodeBytes.toNat
  dvd : fs.inodeBytes.toNat ∣ fs.blockSize
  numbered : ∀ g < fs.numGroups, ∀ k < fs.tableLength, (fs.inodeTable g).toNat + k < 2 ^ 32
  disjoint : ∀ g < fs.numGroups, ∀ g' < fs.numGroups, ∀ k < fs.tableLength, ∀ k' < fs.tableLength,
    (fs.inodeTable g).toNat + k = (fs.inodeTable g').toNat + k' → g = g'

/-- Where the layout has the inode, in bytes from the start of the drive. -/
def Fs.inodeAddress (fs : Fs) (num : BitVec 32) : Nat :=
  (fs.inodeTable (fs.inodeGroup num)).toNat * fs.blockSize +
    (fs.inodeIndex num).toNat * fs.inodeBytes.toNat

def inodeRead (fs : Fs) (num : BitVec 32) (s : State) : Option (Fin 128 → Byte) :=
  (ext2ReadInode fs num s).1.map fun bytes i => bytes i

/-- A written inode reads back, the others read as before, and numbers outside the groups are
rejected. -/
structure InodesKept (fs : Fs) (s : State) : Prop where
  same : ∀ num inode, fs.HasInode num → (ext2WriteInode fs num inode s).1 = true ∧
    inodeRead fs num (ext2WriteInode fs num inode s).2 = some fun i : Fin 128 => inode i
  others : ∀ num inode num', num' ≠ num →
    inodeRead fs num' (ext2WriteInode fs num inode s).2 = inodeRead fs num' s
  outside : ∀ num, ¬fs.HasInode num → ext2ReadInode fs num s = (none, s) ∧
    ∀ inode, ext2WriteInode fs num inode s = (false, s)

variable {fs : Fs} {s : State} {num num' : BitVec 32}

/-! ### Reads after writes -/

theorem ext2ReadBlock_fst (fs : Fs) (b : BitVec 32) (buffer : Bytes) (s : State) :
    (ext2ReadBlock fs b buffer s).1 = match (ext2CacheFind b s).1 with
      | none => fs.loaded (fs.block s.drives b) buffer
      | some i => fs.loaded (fs.stored (s.blockCache i).data) buffer := by
  rcases ext2CacheFind_cases b s with ⟨hfind, -⟩ | ⟨i, -, -, -, hfind⟩
  · simp only [ext2ReadBlock, hfind, readSectors_eq]
  · simp only [ext2ReadBlock, hfind, update_self, copyBytes_eq_loaded]

theorem ext2CacheFind_some {b : BitVec 32} {i : Nat} (h : (ext2CacheFind b s).1 = some i) :
    i < cacheSize ∧ (s.blockCache i).valid = true ∧ (s.blockCache i).blockNum = b := by
  rcases ext2CacheFind_cases b s with ⟨hfind, -⟩ | ⟨j, hj, hv, hnum, hfind⟩ <;> rw [hfind] at h
  · exact nomatch h
  · cases h
    exact ⟨hj, hv, hnum⟩

theorem ext2CacheFind_congr {t : State} (h : ∀ i, (t.blockCache i).valid = (s.blockCache i).valid ∧
    (t.blockCache i).blockNum = (s.blockCache i).blockNum) (b : BitVec 32) :
    (ext2CacheFind b t).1 = (ext2CacheFind b s).1 := by
  have hsame : (fun i => (t.blockCache i).valid && (t.blockCache i).blockNum == b) =
      fun i => (s.blockCache i).valid && (s.blockCache i).blockNum == b := by
    funext i
    rw [(h i).1, (h i).2]
  rw [ext2CacheFind, ext2CacheFind, hsame]
  split <;> rfl

theorem ext2WriteBlock_cache (fs : Fs) (b : BitVec 32) (buffer : Bytes) (s : State) (i : Nat) :
    ((ext2WriteBlock fs b buffer s).blockCache i).valid = (s.blockCache i).valid ∧
    ((ext2WriteBlock fs b buffer s).blockCache i).blockNum = (s.blockCache i).blockNum ∧
    fs.stored ((ext2WriteBlock fs b buffer s).blockCache i).data =
      if (ext2CacheFind b s).1 = some i then fs.stored buffer else fs.stored (s.blockCache i).data := by
  have hsame : (ext2CacheFind b { s with
      drives := writeSectors fs s.drives b buffer
      history := s.drives :: s.history }).1 = (ext2CacheFind b s).1 := by
    apply ext2CacheFind_congr
    exact fun _ => ⟨rfl, rfl⟩
  rcases ext2CacheFind_cases b { s with
    drives := writeSectors fs s.drives b buffer
    history := s.drives :: s.history } with ⟨hfind, -⟩ | ⟨j, -, -, -, hfind⟩
  · simp only [ext2WriteBlock, hfind, ← hsame, reduceCtorEq, if_false, true_and]
  · simp only [ext2WriteBlock, hfind, ← hsame, update_self, update_idem]
    by_cases hij : i = j
    · subst hij
      simp only [update_self, if_true, copyBytes_eq_loaded, stored_loaded, true_and]
    · rw [if_neg fun h => hij (Option.some.inj h).symm, update_of_ne hij]
      exact ⟨rfl, rfl, rfl⟩

/-- The block that was written reads as written, and so does another one in the same sectors unless
it is cached. The cache may hold blocks twice, or blocks that are not on the drive. -/
theorem Fresh.read_write (hs : Fresh fs s) (hdvd : fs.sectorsPerBlock ∣ 2 ^ 28) (b c : BitVec 32)
    (buffer buffer' : Bytes) :
    (ext2ReadBlock fs c buffer' (ext2WriteBlock fs b buffer s)).1 =
      fs.loaded (if c = b ∨ (ext2CacheFind c s).1 = none ∧ fs.slot c = fs.slot b then fs.stored buffer
        else fs.block s.drives c) buffer' := by
  have hcache := ext2WriteBlock_cache fs b buffer s
  rw [ext2ReadBlock_fst, ext2WriteBlock_drives,
    ext2CacheFind_congr (s := s) (fun i => ⟨(hcache i).1, (hcache i).2.1⟩) c]
  cases hfind : (ext2CacheFind c s).1 with
  | none =>
    have hslot : c = b ∨ fs.slot c = fs.slot b ↔ fs.slot c = fs.slot b :=
      ⟨fun h => h.elim (congrArg fs.slot) id, .inr⟩
    simp only [block_writeSectors hdvd, true_and, hslot]
  | some i =>
    obtain ⟨hi, hv, hnum⟩ := ext2CacheFind_some hfind
    simp only [reduceCtorEq, false_and, or_false]
    rw [(hcache i).2.2]
    congr 1
    by_cases hcb : c = b
    · rw [if_pos hcb, if_pos (hcb ▸ hfind)]
    · rw [if_neg hcb, if_neg fun h => hcb (hnum.symm.trans (ext2CacheFind_some h).2.2), hs i hi hv, hnum]

/-- Reading a block brings no other one into the cache. -/
theorem ext2CacheFind_read {b c : BitVec 32} (hne : c ≠ b) (h : Uncached s c) (buffer : Bytes) :
    (ext2CacheFind c (ext2ReadBlock fs b buffer s).2).1 = none := by
  by_contra hcached
  obtain ⟨i, hfind⟩ := Option.ne_none_iff_exists'.mp hcached
  obtain ⟨hi, hv, hnum⟩ := ext2CacheFind_some hfind
  rcases ext2CacheFind_cases b s with ⟨hmiss, -⟩ | ⟨j, -, -, -, hhit⟩
  · simp only [ext2ReadBlock, hmiss] at hv hnum
    by_cases hij : i = (ext2CacheGetFree s).1
    · rw [hij, update_self] at hnum
      exact hne hnum.symm
    · rw [update_of_ne hij] at hv hnum
      have hsame := ext2CacheGetFree_entry hv
      rw [hsame] at hv hnum
      exact h i hi hv hnum
  · simp only [ext2ReadBlock, hhit] at hv hnum
    by_cases hij : i = j
    · subst hij
      rw [update_self] at hv hnum
      exact h i hi hv hnum
    · rw [update_of_ne hij] at hv hnum
      exact h i hi hv hnum

/-! ### Reads and writes of inodes -/

theorem outside_rejected (h : ¬fs.HasInode num) (s : State) :
    ext2ReadInode fs num s = (none, s) ∧ ∀ inode, ext2WriteInode fs num inode s = (false, s) := by
  by_cases hzero : num = 0
  · exact ⟨if_pos hzero, fun inode => if_pos hzero⟩
  · have hgroup : fs.numGroups ≤ fs.inodeGroup num := not_not.mp fun hgroup => h ⟨hzero, hgroup⟩
    exact ⟨(if_neg hzero).trans (if_pos hgroup), fun inode => (if_neg hzero).trans (if_pos hgroup)⟩

theorem readInode_of_has (h : fs.HasInode num) (s : State) : inodeRead fs num s =
    some fun i : Fin 128 => (ext2ReadBlock fs (fs.inodeBlock num) (fun _ => 0) s).1 (fs.inodeOffset num + i) := by
  rw [inodeRead, ext2ReadInode, if_neg h.1, if_neg h.2]
  rfl

/-- What inode `num'` reads after inode `num` was written comes from the written block. -/
def Overwritten (fs : Fs) (s : State) (num num' : BitVec 32) : Prop :=
  fs.inodeBlock num' = fs.inodeBlock num ∨
    (ext2CacheFind (fs.inodeBlock num') (ext2ReadBlock fs (fs.inodeBlock num) (fun _ => 0) s).2).1 = none ∧
      fs.slot (fs.inodeBlock num') = fs.slot (fs.inodeBlock num)

instance (fs : Fs) (s : State) (num num' : BitVec 32) : Decidable (Overwritten fs s num num') :=
  inferInstanceAs (Decidable (_ ∨ _))

theorem Overwritten.slot_eq (h : Overwritten fs s num num') :
    fs.slot (fs.inodeBlock num') = fs.slot (fs.inodeBlock num) :=
  h.elim (congrArg fs.slot) And.right

theorem Fresh.inodeRead_write (hs : Fresh fs s) (hdvd : fs.sectorsPerBlock ∣ 2 ^ 28) (h : fs.HasInode num)
    (h' : fs.HasInode num') (inode : Bytes) :
    inodeRead fs num' (ext2WriteInode fs num inode s).2 = some fun i : Fin 128 =>
      fs.bytes (if Overwritten fs s num num' then fs.stored (copyAt (fs.inodeOffset num) 128 inode
        (fs.bytes (fs.block s.drives (fs.inodeBlock num)))) else fs.block s.drives (fs.inodeBlock num'))
          (fs.inodeOffset num' + i) := by
  obtain ⟨hbytes, hfresh⟩ := hs.read (fs.inodeBlock num) fun _ => 0
  have hdrives := ext2ReadBlock_drives fs (fs.inodeBlock num) (fun _ => 0) s
  rw [readInode_of_has h', ext2WriteInode, if_neg h.1, if_neg h.2]
  dsimp only
  rw [hfresh.read_write hdvd, hbytes, hdrives]
  rfl

/-! ### Places in the table -/

def Fs.inodePos (fs : Fs) (num : BitVec 32) : Nat := (fs.inodeIndex num * fs.inodeBytes).toNat

theorem Fs.blockSize_toNat (fs : Fs) : (BitVec.ofNat 32 fs.blockSize).toNat = fs.blockSize :=
  (BitVec.toNat_ofNat ..).trans (Nat.mod_eq_of_lt (Nat.lt_of_le_of_lt fs.blockSize_le (by decide)))

theorem InodeTables.index_lt (h : InodeTables fs) (num : BitVec 32) :
    (fs.inodeIndex num).toNat < fs.inodesPerGroup.toNat := by
  rw [Fs.inodeIndex, BitVec.toNat_umod]
  exact Nat.mod_lt _ h.inodes

theorem Fs.inodeOffset_eq (fs : Fs) (num : BitVec 32) :
    fs.inodeOffset num = fs.inodePos num % fs.blockSize := by
  rw [Fs.inodeOffset, BitVec.toNat_umod, fs.blockSize_toNat, Fs.inodePos]

theorem InodeTables.pos_div_lt (h : InodeTables fs) (num : BitVec 32) :
    fs.inodePos num / fs.blockSize < fs.tableLength := by
  have hindex := h.index_lt num
  have hle : fs.inodePos num ≤ (fs.inodeIndex num).toNat * fs.inodeBytes.toNat := by
    rw [Fs.inodePos, BitVec.toNat_mul]
    exact Nat.mod_le ..
  have hnext := Nat.mul_le_mul_right fs.inodeBytes.toNat hindex
  rw [Nat.succ_mul] at hnext
  have hleast := h.least
  rw [Fs.tableLength, Nat.lt_iff_add_one_le, ← Nat.add_div_right _ fs.blockSize_pos]
  apply Nat.div_le_div_right
  omega

theorem InodeTables.sectors (h : InodeTables fs) : fs.sectorsPerBlock ∣ 2 ^ 28 := by
  have hdvd := h.blockSize
  rw [← fs.sectors_mul] at hdvd
  exact (Nat.dvd_of_mul_dvd_mul_right (show 0 < sectorSize by decide)
    (show _ ∣ 2 ^ 23 * sectorSize from hdvd)).trans (pow_dvd_pow 2 (by decide))

theorem InodeTables.block (h : InodeTables fs) (hnum : fs.HasInode num) : (fs.inodeBlock num).toNat =
    (fs.inodeTable (fs.inodeGroup num)).toNat + fs.inodePos num / fs.blockSize := by
  have hlt := h.numbered _ (BitVec.not_le.mp hnum.2) _ (h.pos_div_lt num)
  rw [Fs.inodeBlock, BitVec.toNat_add, BitVec.toNat_udiv, fs.blockSize_toNat, ← Fs.inodePos,
    Nat.mod_eq_of_lt hlt]

theorem InodeTables.pos_eq (h : InodeTables fs)
    (hfit : fs.inodesPerGroup.toNat * fs.inodeBytes.toNat ≤ 2 ^ 32) (num : BitVec 32) :
    fs.inodePos num = (fs.inodeIndex num).toNat * fs.inodeBytes.toNat := by
  rw [Fs.inodePos, BitVec.toNat_mul]
  have hlt := Nat.mul_lt_mul_of_pos_right (h.index_lt num) (Nat.lt_of_lt_of_le (by decide) h.least)
  exact Nat.mod_eq_of_lt (Nat.lt_of_lt_of_le hlt hfit)

theorem InodeTables.offset (h : InodeTables fs)
    (hfit : fs.inodesPerGroup.toNat * fs.inodeBytes.toNat ≤ 2 ^ 32) (num : BitVec 32) :
    fs.inodeBytes.toNat ∣ fs.inodeOffset num ∧ fs.inodeOffset num + 128 ≤ fs.blockSize := by
  have hdvd : fs.inodeBytes.toNat ∣ fs.inodeOffset num := by
    rw [Fs.inodeOffset_eq, h.pos_eq hfit, Nat.dvd_mod_iff h.dvd]
    exact Nat.dvd_mul_left ..
  refine ⟨hdvd, ?_⟩
  have hlt : fs.inodeOffset num < fs.blockSize := by
    rw [Fs.inodeOffset_eq]
    exact Nat.mod_lt _ fs.blockSize_pos
  have hroom := Nat.le_of_dvd (Nat.sub_pos_of_lt hlt) (Nat.dvd_sub h.dvd hdvd)
  have hleast := h.least
  omega

/-- The driver drops the bits of the address above the 2^28 sectors it can name. -/
theorem InodeTables.address_mod (h : InodeTables fs)
    (hfit : fs.inodesPerGroup.toNat * fs.inodeBytes.toNat ≤ 2 ^ 32) (hnum : fs.HasInode num) :
    fs.inodeAddress num % 2 ^ 37 = fs.inodeOffset num + fs.blockSize * fs.slot (fs.inodeBlock num) := by
  have haddress : fs.inodeAddress num =
      fs.blockSize * (fs.inodeBlock num).toNat + fs.inodeOffset num := by
    rw [Fs.inodeAddress, ← h.pos_eq hfit, h.block hnum, fs.inodeOffset_eq, Nat.mul_add, Nat.add_assoc,
      Nat.div_add_mod, Nat.mul_comm]
  have hsize : 2 ^ 37 = fs.blockSize * (2 ^ 28 / fs.sectorsPerBlock) := by
    rw [← fs.sectors_mul, Nat.mul_right_comm, Nat.mul_div_cancel' h.sectors]
    rfl
  have hlt : fs.inodeOffset num < fs.blockSize := by
    rw [Fs.inodeOffset_eq]
    exact Nat.mod_lt _ fs.blockSize_pos
  rw [haddress, hsize, Nat.mod_mul, Nat.mul_add_mod, Nat.mod_eq_of_lt hlt, Nat.mul_add_div fs.blockSize_pos,
    Nat.div_eq_of_lt hlt, Nat.add_zero, Fs.slot]

/-- No two inodes are at one place of the drive as its driver sees it. -/
def Fs.PlacesDistinct (fs : Fs) : Prop :=
  ∀ num num', fs.HasInode num → fs.HasInode num' →
    fs.inodeAddress num % 2 ^ 37 = fs.inodeAddress num' % 2 ^ 37 → num = num'

theorem InodeTables.apart (h : InodeTables fs)
    (hfit : fs.inodesPerGroup.toNat * fs.inodeBytes.toNat ≤ 2 ^ 32) (hplaces : fs.PlacesDistinct)
    (hnum : fs.HasInode num) (hnum' : fs.HasInode num') (hne : num' ≠ num)
    (hslot : fs.slot (fs.inodeBlock num') = fs.slot (fs.inodeBlock num)) :
    fs.inodeOffset num' + 128 ≤ fs.inodeOffset num ∨ fs.inodeOffset num + 128 ≤ fs.inodeOffset num' := by
  have hoffset : fs.inodeOffset num' ≠ fs.inodeOffset num := by
    intro hoffset
    apply hne
    apply hplaces _ _ hnum' hnum
    rw [h.address_mod hfit hnum, h.address_mod hfit hnum', hslot, hoffset]
  have hdvd := (h.offset hfit num).1
  have hdvd' := (h.offset hfit num').1
  have hleast := h.least
  rcases Nat.lt_or_gt_of_ne hoffset with hlt | hlt
  · exact .inl (by have := Nat.le_of_dvd (Nat.sub_pos_of_lt hlt) (Nat.dvd_sub hdvd hdvd'); omega)
  · exact .inr (by have := Nat.le_of_dvd (Nat.sub_pos_of_lt hlt) (Nat.dvd_sub hdvd' hdvd); omega)

/-! ### Inodes are kept -/

theorem bytes_stored_of_lt {i : Nat} (hi : i < fs.blockSize) (buffer : Bytes) :
    fs.bytes (fs.stored buffer) i = buffer i := by
  rw [Fs.bytes, Fs.loaded, dif_pos hi, Fs.stored]

theorem InodeTables.kept (h : InodeTables fs)
    (hfit : fs.inodesPerGroup.toNat * fs.inodeBytes.toNat ≤ 2 ^ 32) (hplaces : fs.PlacesDistinct)
    (hs : Fresh fs s) : InodesKept fs s where
  same := by
    intro num inode hnum
    have hroom := (h.offset hfit num).2
    constructor
    · rw [ext2WriteInode, if_neg hnum.1, if_neg hnum.2]
    · rw [hs.inodeRead_write h.sectors hnum hnum, if_pos (.inl rfl)]
      congr 1
      funext i
      rw [bytes_stored_of_lt (by omega), copyAt, if_pos ⟨by omega, by omega⟩, Nat.add_sub_cancel_left]
  others := by
    intro num inode num' hne
    by_cases hnum : fs.HasInode num
    · by_cases hnum' : fs.HasInode num'
      · obtain ⟨hbytes, -⟩ := hs.read (fs.inodeBlock num') fun _ => 0
        rw [hs.inodeRead_write h.sectors hnum hnum', readInode_of_has hnum', hbytes]
        congr 1
        funext i
        split
        · next hover =>
          have hapart := h.apart hfit hplaces hnum hnum' hne hover.slot_eq
          have hroom := (h.offset hfit num').2
          rw [bytes_stored_of_lt (by omega), copyAt, if_neg (by omega),
            Fs.block_of_slot h.sectors hover.slot_eq]
          rfl
        · rfl
      · rw [inodeRead, inodeRead, (outside_rejected hnum' _).1, (outside_rejected hnum' _).1]
    · rw [(outside_rejected hnum s).2]
  outside := fun _ hnum => outside_rejected hnum s

def Fs.aliasNum (fs : Fs) : BitVec 32 := BitVec.ofNat 32 (2 ^ 32 / fs.inodeBytes.toNat + 1)

theorem InodeTables.alias (h : InodeTables fs) (hgroups : fs.numGroups ≠ 0)
    (hlong : 2 ^ 32 < fs.inodesPerGroup.toNat * fs.inodeBytes.toNat) :
    fs.aliasNum ≠ 1 ∧ fs.HasInode 1 ∧ fs.HasInode fs.aliasNum ∧
      fs.inodeBlock fs.aliasNum = fs.inodeBlock 1 ∧ fs.inodeOffset fs.aliasNum = 0 ∧ fs.inodeOffset 1 = 0 := by
  have hbytes : 0 < fs.inodeBytes.toNat := Nat.lt_of_lt_of_le (by decide) h.least
  have hmul := Nat.div_mul_cancel (Nat.dvd_trans h.dvd h.blockSize)
  have hlt : 2 ^ 32 / fs.inodeBytes.toNat < fs.inodesPerGroup.toNat :=
    (Nat.div_lt_iff_lt_mul hbytes).mpr hlong
  have hpos : 0 < 2 ^ 32 / fs.inodeBytes.toNat :=
    Nat.div_pos (Nat.le_of_dvd (by decide) (Nat.dvd_trans h.dvd h.blockSize)) hbytes
  have hwidth := fs.inodesPerGroup.isLt
  have hnum : fs.aliasNum.toNat = 2 ^ 32 / fs.inodeBytes.toNat + 1 :=
    (BitVec.toNat_ofNat ..).trans (Nat.mod_eq_of_lt (by omega))
  have hprev : (fs.aliasNum - 1).toNat = 2 ^ 32 / fs.inodeBytes.toNat := by bv_omega
  have hgroup : fs.inodeGroup fs.aliasNum = 0 := by
    apply BitVec.eq_of_toNat_eq
    rw [Fs.inodeGroup, BitVec.toNat_udiv, hprev, Nat.div_eq_of_lt hlt]
    rfl
  have hgroupOne : fs.inodeGroup 1 = 0 := BitVec.zero_udiv
  have hplace : fs.inodePos fs.aliasNum = 0 := by
    rw [Fs.inodePos, BitVec.toNat_mul, Fs.inodeIndex, BitVec.toNat_umod, hprev, Nat.mod_eq_of_lt hlt, hmul,
      Nat.mod_self]
  have hplaceOne : fs.inodePos 1 = 0 := by
    rw [Fs.inodePos, Fs.inodeIndex, BitVec.sub_self, BitVec.zero_umod, BitVec.zero_mul]
    rfl
  have hexists : ¬fs.numGroups ≤ 0 := fun hle => hgroups (BitVec.le_zero_iff.mp hle)
  have hhas : fs.HasInode fs.aliasNum := by
    refine ⟨fun hzero => ?_, hgroup ▸ hexists⟩
    rw [hzero] at hnum
    exact absurd hnum (by simp)
  have hhasOne : fs.HasInode 1 := ⟨by decide, hgroupOne ▸ hexists⟩
  refine ⟨fun hone => ?_, hhasOne, hhas, BitVec.eq_of_toNat_eq ?_, ?_, ?_⟩
  · rw [hone] at hnum
    have : (1 : BitVec 32).toNat = 1 := rfl
    omega
  · rw [h.block hhas, h.block hhasOne, hgroup, hgroupOne, hplace, hplaceOne]
  · rw [Fs.inodeOffset_eq, hplace, Nat.zero_mod]
  · rw [Fs.inodeOffset_eq, hplaceOne, Nat.zero_mod]

theorem Overwritten.not_kept (hover : Overwritten fs s num num') (hdvd : fs.sectorsPerBlock ∣ 2 ^ 28)
    (hs : Fresh fs s) (hnum : fs.HasInode num) (hnum' : fs.HasInode num') (hne : num' ≠ num)
    (hoffset : fs.inodeOffset num' = fs.inodeOffset num) : ¬InodesKept fs s := by
  intro hkept
  have hroom : fs.inodeOffset num < fs.blockSize := by
    rw [Fs.inodeOffset_eq]
    exact Nat.mod_lt _ fs.blockSize_pos
  have hsame := hkept.others num
    (fun _ => fs.bytes (fs.block s.drives (fs.inodeBlock num')) (fs.inodeOffset num') + 1) _ hne
  rw [hs.inodeRead_write hdvd hnum hnum', if_pos hover, readInode_of_has hnum', (hs.read _ _).1] at hsame
  have hbyte := congrFun (Option.some.inj hsame) 0
  rw [bytes_stored_of_lt (by simp; omega), copyAt, if_pos (by simp; omega)] at hbyte
  exact absurd hbyte (by simp [Fs.bytes])

theorem InodeTables.not_kept (h : InodeTables fs) (hgroups : fs.numGroups ≠ 0)
    (hlong : 2 ^ 32 < fs.inodesPerGroup.toNat * fs.inodeBytes.toNat) (hs : Fresh fs s) : ¬InodesKept fs s := by
  obtain ⟨hne, hone, halias, hblock, hoffset, hoffsetOne⟩ := h.alias hgroups hlong
  exact Overwritten.not_kept (.inl hblock) h.sectors hs hone halias hne (hoffset.trans hoffsetOne.symm)

/-- Inodes are kept apart if and only if no table is longer than 4 GiB and the driver has a place of
its own for each of them. -/
theorem inode_round_trip_iff (h : InodeTables fs) : (∀ s, Fresh fs s → InodesKept fs s) ↔
    (fs.numGroups = 0 ∨ fs.inodesPerGroup.toNat * fs.inodeBytes.toNat ≤ 2 ^ 32) ∧ fs.PlacesDistinct := by
  constructor
  · intro hkept
    have hfresh (drives : Drives) : Fresh fs (ext2CacheInit ⟨drives, fun _ => {}, 0, []⟩) :=
      (coherent_init _ _).fresh
    have hfit : fs.numGroups = 0 ∨ fs.inodesPerGroup.toNat * fs.inodeBytes.toNat ≤ 2 ^ 32 := by
      by_contra hnot
      rw [not_or, Nat.not_le] at hnot
      exact h.not_kept hnot.1 hnot.2 (hfresh fun _ _ _ => 0) (hkept _ (hfresh _))
    refine ⟨hfit, fun num num' hnum hnum' haddress => ?_⟩
    by_contra hne
    have hfit := hfit.resolve_left fun hgroups => hnum.2 (hgroups ▸ BitVec.le_def.mpr (Nat.zero_le _))
    rw [h.address_mod hfit hnum, h.address_mod hfit hnum'] at haddress
    have hoffset := congrArg (· % fs.blockSize) haddress
    have hslot := congrArg (· / fs.blockSize) haddress
    have hlt (num : BitVec 32) : fs.inodeOffset num < fs.blockSize :=
      Nat.lt_of_lt_of_le (Nat.lt_add_of_pos_right (by decide)) (h.offset hfit num).2
    simp only [Nat.add_mul_mod_self_left, Nat.mod_eq_of_lt (hlt _)] at hoffset
    simp only [Nat.add_mul_div_left _ _ fs.blockSize_pos, Nat.div_eq_of_lt (hlt _), Nat.zero_add] at hslot
    -- with an empty cache the read that follows the write goes to the drive
    have hover : Overwritten fs (ext2CacheInit ⟨fun _ _ _ => 0, fun _ => {}, 0, []⟩) num' num := by
      by_cases hblock : fs.inodeBlock num = fs.inodeBlock num'
      · exact .inl hblock
      · exact .inr ⟨ext2CacheFind_read hblock (fun _ _ hv => absurd hv Bool.false_ne_true) _, hslot⟩
    exact hover.not_kept h.sectors (hfresh _) hnum' hnum hne hoffset (hkept _ (hfresh _))
  · rintro ⟨hgroups | hfit, hplaces⟩ s hs
    · have hnone (num : BitVec 32) : ¬fs.HasInode num := fun hnum => hnum.2 (hgroups ▸ BitVec.le_def.mpr (Nat.zero_le _))
      refine ⟨fun num _ hnum => absurd hnum (hnone num), fun num inode num' _ => ?_,
        fun num _ => outside_rejected (hnone num) s⟩
      rw [(outside_rejected (hnone num) s).2]
    · exact h.kept hfit hplaces hs

theorem smallFs_inodeTables : InodeTables (smallFs 1).toFs := by
  refine ⟨by decide, by decide, by decide, by decide, fun g hg k hk => ?_, fun g hg g' hg' _ _ _ _ _ => ?_⟩
  · have hlength : (smallFs 1).tableLength = 1 := by decide
    have htable : ((smallFs 1).inodeTable g).toNat = 5 := rfl
    omega
  · have : (smallFs 1).numGroups = 1 := rfl
    bv_omega

theorem small_round_trip : InodesKept (smallFs 1).toFs smallState.toState := by
  refine (inode_round_trip_iff smallFs_inodeTables).mpr ⟨.inr (by decide), fun num num' hnum hnum' h => ?_⟩ _
    (coherent_init _ _).fresh
  have hgroup : ¬1 ≤ (num - 1) / 8 ∧ ¬1 ≤ (num' - 1) / 8 := ⟨hnum.2, hnum'.2⟩
  have haddress : (5 * 1024 + ((num - 1) % 8).toNat * 128) % 2 ^ 37 =
    (5 * 1024 + ((num' - 1) % 8).toNat * 128) % 2 ^ 37 := h
  have height : (8 : BitVec 32).toNat = 8 := rfl
  have hone : (1 : BitVec 32).toNat = 1 := rfl
  simp only [BitVec.le_def, BitVec.toNat_udiv, height, hone] at hgroup
  simp only [BitVec.toNat_umod, height] at haddress
  have hsame : (num - 1).toNat = (num' - 1).toNat := by omega
  bv_omega

/-! ### A table longer than 4 GiB -/

theorem Fresh.readTable (hs : Fresh fs s) (faults : Nat → Fault) (blocks : List Nat) (table : Bytes) :
    Fresh fs (readTable fs faults blocks table s).2 := by
  induction blocks generalizing table s with
  | nil => exact hs
  | cons i rest ih =>
    have hread : Fresh fs (tryReadBlock (faults i).faults fs (fs.tableBlock + BitVec.ofNat 32 i)
        (fun _ => 0) s 0).2.2.1 := by
      obtain ⟨ok, buffer, s', time, hread, -, hdone, hfail⟩ := tryReadBlock_cases (faults i).faults fs
        (fs.tableBlock + BitVec.ofNat 32 i) (fun _ => 0) s 0
      rw [hread]
      cases ok with
      | false => exact hfail rfl ▸ hs
      | true => exact (hdone rfl).2 ▸ (hs.read ..).2
    rw [Ext2.readTable]
    generalize tryReadBlock (faults i).faults fs (fs.tableBlock + BitVec.ofNat 32 i) (fun _ => 0) s 0 =
      result at hread ⊢
    obtain ⟨_ | _, block, t, time⟩ := result
    · exact hread
    · exact ih hread _

def longSuper : Bytes :=
  [(4, 0x200000), (24, 2), (32, 0x200000), (40, 0x2000001), (56, 0xEF53)].foldl
    (fun sb field => LittleEndian.put sb field.1 4 field.2) fun _ => 0

def longState : State :=
  ext2CacheInit ⟨fun _ sector => if sector = 2 then longSuper
    else if sector = 8 then LittleEndian.put (fun _ => 0) 8 4 16 else fun _ => 0, fun _ => {}, 0, []⟩

theorem longLog : sLogBlockSize (superblock longState.drives 0) ≤ 2 := by decide +kernel

def longFs (table : Bytes) : Fs := mountedFs 0 (superblock longState.drives 0) longLog table

theorem ext2Mount_long : ext2Mount 0x30 ⟨3, false, fun _ => none⟩ longState =
    match readTable (longFs fun _ => 0) (fun _ => none) (List.range (longFs fun _ => 0).tableBlocks) (fun _ => 0)
      longState with
    | (none, s) => (none, s)
    | (some table, s) => (some (longFs table), s) := by
  have hok : ¬(3 < 2 ∨ false = true ∨ sMagic (superblock longState.drives 0) ≠ superMagic ∨ 3 < 3) := by
    decide +kernel
  have hgroup : sBlocksPerGroup (superblock longState.drives 0) ≠ 0 := by decide +kernel
  have hdrive : driveOf 0x30 = 0 := by decide
  rw [ext2Mount]
  dsimp only
  rw [hdrive, if_neg hok, dif_pos longLog, if_neg hgroup]
  rfl

theorem longFs_inodeTables {table : Bytes} (h : sbWord table 8 = 16) : InodeTables (longFs table) := by
  have hgroups : (longFs table).numGroups = 1 := show numGroups _ = 1 by decide +kernel
  have hlength : (longFs table).tableLength = 1048577 :=
    show (longFs fun _ => 0).tableLength = 1048577 by decide +kernel
  refine ⟨?_, ?_, ?_, ?_, fun g hg k hk => ?_, fun g hg g' hg' _ _ _ _ _ => ?_⟩
  · show (longFs fun _ => 0).blockSize ∣ 2 ^ 32
    decide +kernel
  · show 0 < (longFs fun _ => 0).inodesPerGroup.toNat
    decide +kernel
  · show 128 ≤ (longFs fun _ => 0).inodeBytes.toNat
    decide +kernel
  · show (longFs fun _ => 0).inodeBytes.toNat ∣ (longFs fun _ => 0).blockSize
    decide +kernel
  · have hzero : g = 0 := by bv_omega
    have htable : (longFs table).inodeTable 0 = 16 := h
    have hfirst : (16 : BitVec 32).toNat = 16 := rfl
    rw [hzero, htable, hfirst]
    omega
  · bv_omega

theorem long_table_aliased : ∃ fs s, ext2Mount 0x30 ⟨3, false, fun _ => none⟩ longState = (some fs, s) ∧
    InodeTables fs ∧ Fresh fs s ∧ ¬InodesKept fs s := by
  have hfresh : Fresh (longFs fun _ => 0) longState := (coherent_init _ _).fresh
  have hread := hfresh.readTable (fun _ => none) (List.range (longFs fun _ => 0).tableBlocks) fun _ => 0
  have htable : (readTable (longFs fun _ => 0) (fun _ => none) (List.range (longFs fun _ => 0).tableBlocks)
      (fun _ => 0) longState).1.map (fun table => sbWord table 8) = some 16 := by decide +kernel
  have hmount := ext2Mount_long
  generalize readTable (longFs fun _ => 0) (fun _ => none) (List.range (longFs fun _ => 0).tableBlocks)
    (fun _ => 0) longState = result at htable hread hmount
  obtain ⟨_ | table, s⟩ := result
  · exact nomatch htable
  have htables := longFs_inodeTables (Option.some.inj htable)
  have hgroups : (longFs table).numGroups ≠ 0 := show numGroups _ ≠ 0 by decide +kernel
  have hlong : 2 ^ 32 < (longFs table).inodesPerGroup.toNat * (longFs table).inodeBytes.toNat :=
    show 2 ^ 32 < (longFs fun _ => 0).inodesPerGroup.toNat * (longFs fun _ => 0).inodeBytes.toNat by
      decide +kernel
  exact ⟨longFs table, s, hmount, htables, hread, htables.not_kept hgroups hlong hread⟩

end TocinOS.Ext2

import TocinOS.Ext2Mounts

/-! What `ext2_mount` makes of a superblock with arbitrary fields: where the driver divides, and where
it stores in its buffers, in the cache and in the page of the group descriptors. -/

namespace TocinOS.Ext2

/-- The size of a block buffer, of the data of a cache entry and of the page of the descriptors. -/
abbrev bufferSize : Nat := 4096

inductive Access
  | divide (divisor : BitVec 32)
  | buffer (pos : Nat)
  | cache (pos : Nat)
  | descriptors (pos : Nat)

def Access.Safe : Access → Prop
  | .divide divisor => divisor ≠ 0
  | .buffer pos => pos < bufferSize
  | .cache pos => pos < bufferSize
  | .descriptors pos => pos < bufferSize

structure Geometry where
  blockSize : BitVec 32
  inodesPerGroup : BitVec 32
  numGroups : BitVec 32
  inodeSize : BitVec 16
  revLevel : BitVec 32

def ext2GetBlockSize (sb : Bytes) : BitVec 32 := 1024 <<< ((sLogBlockSize sb).toNat % 32)

def geometryOf (sb : Bytes) : Geometry where
  blockSize := ext2GetBlockSize sb
  inodesPerGroup := sInodesPerGroup sb
  numGroups := numGroups sb
  inodeSize := sInodeSize sb
  revLevel := sRevLevel sb

@[simp] theorem geometryOf_blockSize (sb : Bytes) : (geometryOf sb).blockSize = ext2GetBlockSize sb := rfl

/-! ### Accesses -/

/-- `ext2_read_block` into a buffer. `hit` says whether the block is in the cache. -/
def readBlockAccesses (g : Geometry) (target : Nat → Access) (hit : Bool) (fault : Fault) :
    Bool × List Access :=
  if hit then (true, (List.range g.blockSize.toNat).map target)
  else
    let sectors := g.blockSize.toNat / sectorSize
    match fault.filter (· < sectors) with
    | some n => (false, (List.range (n * sectorSize)).map target)
    | none =>
      (true, (List.range (sectors * sectorSize)).map target ++
        (List.range g.blockSize.toNat).map .cache)

/-- `ext2_write_block` stores only in the cache. -/
def writeBlockAccesses (g : Geometry) (hit : Bool) (fault : Fault) : List Access :=
  match fault.filter (· < g.blockSize.toNat / sectorSize) with
  | some _ => []
  | none => if hit then (List.range g.blockSize.toNat).map .cache else []

def Geometry.inodeBytes (g : Geometry) : BitVec 32 :=
  if g.inodeSize = 0 ∨ g.revLevel = 0 then goodOldInodeSize else g.inodeSize.setWidth 32

def Geometry.offset (g : Geometry) (index : BitVec 32) : Nat :=
  (index * g.inodeBytes % g.blockSize).toNat

/-- The divisions that find an inode, and what follows for a number inside the groups. -/
def inodeAccesses (g : Geometry) (inodeNum : BitVec 32) (transfer : List Access) : List Access :=
  if inodeNum = 0 then []
  else
    .divide g.inodesPerGroup :: .divide g.inodesPerGroup ::
      if g.numGroups ≤ (inodeNum - 1) / g.inodesPerGroup then []
      else .divide g.blockSize :: .divide g.blockSize :: transfer

def readInodeAccesses (g : Geometry) (inodeNum : BitVec 32) (hit : Bool) (fault : Fault) : List Access :=
  inodeAccesses g inodeNum (readBlockAccesses g .buffer hit fault).2

def writeInodeAccesses (g : Geometry) (inodeNum : BitVec 32) (hit : Bool) (fault : Fault) (hit' : Bool)
    (fault' : Fault) : List Access :=
  inodeAccesses g inodeNum <|
    match readBlockAccesses g .buffer hit fault with
    | (false, reads) => reads
    | (true, reads) =>
      reads ++ (List.range 128).map
        (fun i => .buffer (g.offset ((inodeNum - 1) % g.inodesPerGroup) + i)) ++
          writeBlockAccesses g hit' fault'

def readTableAccesses (g : Geometry) (hits : Nat → Bool) (faults : Nat → Fault) :
    List Nat → Bool × List Access
  | [] => (true, [])
  | i :: rest =>
    match readBlockAccesses g (fun pos => .descriptors (i * g.blockSize.toNat + pos)) (hits i) (faults i) with
    | (false, accesses) => (false, accesses)
    | (true, accesses) =>
      let (ok, others) := readTableAccesses g hits faults rest
      (ok, accesses ++ others)

/-- A division by zero ends the mount without a result. -/
inductive MountResult
  | failed
  | trapped
  | mounted (g : Geometry)

def Geometry.tableBlocks (g : Geometry) : Nat :=
  ((g.numGroups * BitVec.ofNat 32 groupDescSize + g.blockSize - 1) / g.blockSize).toNat

def ext2MountAccesses (faults : MountFaults) (hits : Nat → Bool) (sb : Bytes) :
    MountResult × List Access :=
  if faults.pages < 2 ∨ faults.superblock ∨ sMagic sb ≠ superMagic then (.failed, [])
  else if sBlocksPerGroup sb = 0 then (.trapped, [.divide (sBlocksPerGroup sb)])
  else
    let g := geometryOf sb
    let divisions := [.divide (sBlocksPerGroup sb), .divide g.blockSize]
    if g.blockSize = 0 then (.trapped, divisions)
    else if faults.pages < 3 then (.failed, divisions)
    else
      match readTableAccesses g hits faults.table (List.range g.tableBlocks) with
      | (false, accesses) => (.failed, divisions ++ accesses)
      | (true, accesses) => (.mounted g, divisions ++ accesses)

/-! ### Safety -/

def AllSafe (accesses : List Access) : Prop := ∀ a ∈ accesses, a.Safe

structure GeometrySafe (g : Geometry) : Prop where
  readBlock : ∀ hit fault, AllSafe (readBlockAccesses g .buffer hit fault).2
  writeBlock : ∀ hit fault, AllSafe (writeBlockAccesses g hit fault)
  readInode : ∀ inodeNum hit fault, AllSafe (readInodeAccesses g inodeNum hit fault)
  writeInode : ∀ inodeNum hit fault hit' fault',
    AllSafe (writeInodeAccesses g inodeNum hit fault hit' fault')

def MountSafe (sb : Bytes) : Prop :=
  ∀ faults hits, (ext2MountAccesses faults hits sb).1 = .failed ∨
    ∃ g, (ext2MountAccesses faults hits sb).1 = .mounted g ∧
      AllSafe (ext2MountAccesses faults hits sb).2 ∧ GeometrySafe g

structure FieldsFit (sb : Bytes) : Prop where
  groups : sBlocksPerGroup sb ≠ 0
  inodes : sInodesPerGroup sb ≠ 0
  blockSize : (sLogBlockSize sb).toNat % 32 ≤ 2
  /-- The descriptors fit in one page, or rounding up their size wraps around to no block at all. -/
  table : (numGroups sb).toNat * 32 % 2 ^ 32 ≤ 4096 ∨
    2 ^ 32 < (numGroups sb).toNat * 32 % 2 ^ 32 + 1024 * 2 ^ ((sLogBlockSize sb).toNat % 32)
  /-- In blocks as large as the buffer, no inode starts in the last 127 bytes of a block. -/
  inodeSize : (sLogBlockSize sb).toNat % 32 = 2 → numGroups sb ≠ 0 →
    ∀ index < (sInodesPerGroup sb).toNat, index * (geometryOf sb).inodeBytes.toNat % 4096 ≤ 3968

variable {g : Geometry} {sb : Bytes}

theorem AllSafe.append {l l' : List Access} : AllSafe (l ++ l') ↔ AllSafe l ∧ AllSafe l' :=
  List.forall_mem_append

theorem AllSafe.cons {a : Access} {l : List Access} : AllSafe (a :: l) ↔ a.Safe ∧ AllSafe l :=
  List.forall_mem_cons

theorem AllSafe.nil : AllSafe [] := fun _ h => nomatch h

theorem AllSafe.range {target : Nat → Access} {n : Nat} :
    AllSafe ((List.range n).map target) ↔ ∀ i < n, (target i).Safe := by
  simp only [AllSafe, List.forall_mem_map, List.mem_range]

theorem sectors_le (n : Nat) : n / sectorSize * sectorSize ≤ n := Nat.div_mul_le_self ..

theorem readBlockAccesses_safe (target : Nat → Access) (hbuffer : ∀ pos < g.blockSize.toNat, (target pos).Safe)
    (hcache : g.blockSize.toNat ≤ bufferSize) (hit : Bool) (fault : Fault) :
    AllSafe (readBlockAccesses g target hit fault).2 := by
  have hsectors := sectors_le g.blockSize.toNat
  rw [readBlockAccesses]
  cases hit with
  | true => exact AllSafe.range.mpr hbuffer
  | false =>
    dsimp only [Bool.false_eq_true, if_false]
    cases hfault : fault.filter (· < g.blockSize.toNat / sectorSize) with
    | some n =>
      have hn := (Option.filter_eq_some_iff.mp hfault).2
      have hle := Nat.mul_le_mul_right sectorSize (Nat.le_of_lt (of_decide_eq_true hn))
      exact AllSafe.range.mpr fun i hi => hbuffer i (by omega)
    | none =>
      refine AllSafe.append.mpr ⟨AllSafe.range.mpr fun i hi => hbuffer i (by omega), ?_⟩
      exact AllSafe.range.mpr fun i hi => Nat.lt_of_lt_of_le hi hcache

theorem writeBlockAccesses_safe (hcache : g.blockSize.toNat ≤ bufferSize) (hit : Bool) (fault : Fault) :
    AllSafe (writeBlockAccesses g hit fault) := by
  rw [writeBlockAccesses]
  split
  · exact AllSafe.nil
  · split
    · exact AllSafe.range.mpr fun i hi => Nat.lt_of_lt_of_le hi hcache
    · exact AllSafe.nil

theorem inodeAccesses_safe (hinodes : g.inodesPerGroup ≠ 0) (hblock : g.blockSize ≠ 0) {inodeNum : BitVec 32}
    {transfer : List Access}
    (h : inodeNum ≠ 0 → (inodeNum - 1) / g.inodesPerGroup < g.numGroups → AllSafe transfer) :
    AllSafe (inodeAccesses g inodeNum transfer) := by
  rw [inodeAccesses]
  by_cases hzero : inodeNum = 0
  · rw [if_pos hzero]
    exact AllSafe.nil
  rw [if_neg hzero]
  refine AllSafe.cons.mpr ⟨hinodes, AllSafe.cons.mpr ⟨hinodes, ?_⟩⟩
  by_cases hgroup : g.numGroups ≤ (inodeNum - 1) / g.inodesPerGroup
  · rw [if_pos hgroup]
    exact AllSafe.nil
  · rw [if_neg hgroup]
    exact AllSafe.cons.mpr ⟨hblock, AllSafe.cons.mpr ⟨hblock, h hzero (BitVec.not_le.mp hgroup)⟩⟩

def Geometry.InodesFit (g : Geometry) : Prop :=
  g.numGroups ≠ 0 → ∀ index < g.inodesPerGroup, g.offset index + 128 ≤ bufferSize

theorem geometrySafe_iff (hblock : g.blockSize ≠ 0) : GeometrySafe g ↔
    g.blockSize.toNat ≤ bufferSize ∧ g.inodesPerGroup ≠ 0 ∧ g.InodesFit := by
  constructor
  · intro h
    have hinodes : g.inodesPerGroup ≠ 0 := (AllSafe.cons.mp (h.readInode 1 true none)).1
    refine ⟨Nat.not_lt.mp fun hlt => ?_, hinodes, fun hgroups index hindex => ?_⟩
    · exact absurd (AllSafe.range.mp (h.readBlock true none) bufferSize hlt) (Nat.lt_irrefl _)
    · have hnum : index + 1 ≠ 0 := by bv_omega
      have hprev : index + 1 - 1 = index := by bv_omega
      have hgroup : ¬g.numGroups ≤ (index + 1 - 1) / g.inodesPerGroup := by
        rw [hprev, BitVec.udiv_eq_zero_iff_eq_zero_or_lt.mpr (.inr hindex)]
        exact fun hle => hgroups (BitVec.le_zero_iff.mp hle)
      have hmod : (index + 1 - 1) % g.inodesPerGroup = index := by
        rw [hprev, BitVec.umod_eq_of_lt hindex]
      have hwrite := h.writeInode (index + 1) true none true none
      rw [writeInodeAccesses, inodeAccesses, if_neg hnum, if_neg hgroup, hmod] at hwrite
      have hstores := (AllSafe.append.mp (AllSafe.append.mp (AllSafe.cons.mp (AllSafe.cons.mp
        (AllSafe.cons.mp (AllSafe.cons.mp hwrite).2).2).2).2).1).2
      have hlast : g.offset index + 127 < bufferSize := AllSafe.range.mp hstores 127 (by decide)
      exact hlast
  · rintro ⟨hsize, hinodes, hfit⟩
    have hread (hit : Bool) (fault : Fault) : AllSafe (readBlockAccesses g .buffer hit fault).2 :=
      readBlockAccesses_safe .buffer (fun _ hpos => Nat.lt_of_lt_of_le hpos hsize) hsize hit fault
    refine ⟨hread, writeBlockAccesses_safe hsize, fun num hit fault => ?_, fun num hit fault hit' fault' => ?_⟩
    · exact inodeAccesses_safe hinodes hblock fun _ _ => hread hit fault
    · refine inodeAccesses_safe hinodes hblock fun hnum hgroup => ?_
      have hreads := hread hit fault
      generalize readBlockAccesses g .buffer hit fault = result at hreads
      obtain ⟨_ | _, reads⟩ := result
      · exact hreads
      · have hgroups : g.numGroups ≠ 0 := fun hzero => absurd (hzero ▸ hgroup) BitVec.not_lt_zero
        have hroom := hfit hgroups ((num - 1) % g.inodesPerGroup) (BitVec.umod_lt _ (by bv_omega))
        refine AllSafe.append.mpr ⟨AllSafe.append.mpr ⟨hreads, AllSafe.range.mpr fun i hi => ?_⟩,
          writeBlockAccesses_safe hsize hit' fault'⟩
        show g.offset ((num - 1) % g.inodesPerGroup) + i < bufferSize
        omega

/-! ### The page of the descriptors -/

theorem readTableAccesses_safe (hsize : g.blockSize.toNat ≤ bufferSize) (hits : Nat → Bool)
    (faults : Nat → Fault) {blocks : List Nat}
    (h : ∀ i ∈ blocks, i * g.blockSize.toNat + g.blockSize.toNat ≤ bufferSize) :
    AllSafe (readTableAccesses g hits faults blocks).2 := by
  induction blocks with
  | nil => exact AllSafe.nil
  | cons i rest ih =>
    obtain ⟨hi, hrest⟩ := List.forall_mem_cons.mp h
    have hread := readBlockAccesses_safe (fun pos => .descriptors (i * g.blockSize.toNat + pos))
      (fun pos hpos => show _ < bufferSize by omega) hsize (hits i) (faults i)
    rw [readTableAccesses]
    generalize readBlockAccesses g (fun pos => .descriptors (i * g.blockSize.toNat + pos)) (hits i) (faults i) =
      result at hread
    obtain ⟨_ | _, accesses⟩ := result
    · exact hread
    · exact AllSafe.append.mpr ⟨hread, ih hrest⟩

theorem readTableAccesses_misses (g : Geometry) (blocks : List Nat) :
    (readTableAccesses g (fun _ => false) (fun _ => none) blocks).1 = true ∧
      (AllSafe (readTableAccesses g (fun _ => false) (fun _ => none) blocks).2 →
        ∀ i ∈ blocks, ∀ pos < g.blockSize.toNat / sectorSize * sectorSize,
          i * g.blockSize.toNat + pos < bufferSize) := by
  induction blocks with
  | nil => exact ⟨rfl, fun _ i hi => nomatch hi⟩
  | cons i rest ih =>
    refine ⟨ih.1, fun h => List.forall_mem_cons.mpr ?_⟩
    obtain ⟨hfirst, hrest⟩ := AllSafe.append.mp h
    exact ⟨AllSafe.range.mp (AllSafe.append.mp hfirst).1, ih.2 hrest⟩

theorem ext2GetBlockSize_cases (sb : Bytes) :
    sectorSize ∣ (ext2GetBlockSize sb).toNat ∧
    (ext2GetBlockSize sb ≠ 0 ∧ (ext2GetBlockSize sb).toNat ≤ bufferSize ↔ (sLogBlockSize sb).toNat % 32 ≤ 2) ∧
    ((sLogBlockSize sb).toNat % 32 ≤ 2 →
      (ext2GetBlockSize sb).toNat = 1024 * 2 ^ ((sLogBlockSize sb).toNat % 32)) := by
  have hall : ∀ n < 32, sectorSize ∣ ((1024 : BitVec 32) <<< n).toNat ∧
      ((1024 : BitVec 32) <<< n ≠ 0 ∧ ((1024 : BitVec 32) <<< n).toNat ≤ bufferSize ↔ n ≤ 2) ∧
      (n ≤ 2 → ((1024 : BitVec 32) <<< n).toNat = 1024 * 2 ^ n) := by decide
  exact hall _ (Nat.mod_lt _ (by decide))

theorem tableBlocks_le_iff (hlog : (sLogBlockSize sb).toNat % 32 ≤ 2) :
    (∀ i < (geometryOf sb).tableBlocks,
      i * (ext2GetBlockSize sb).toNat + (ext2GetBlockSize sb).toNat ≤ bufferSize) ↔
    (numGroups sb).toNat * 32 % 2 ^ 32 ≤ 4096 ∨
      2 ^ 32 < (numGroups sb).toNat * 32 % 2 ^ 32 + 1024 * 2 ^ ((sLogBlockSize sb).toNat % 32) := by
  have hsize := (ext2GetBlockSize_cases sb).2.2 hlog
  have hone : (1 : BitVec 32).toNat = 1 := rfl
  have hdesc : (BitVec.ofNat 32 groupDescSize).toNat = 32 := rfl
  have hblocks : (geometryOf sb).tableBlocks =
      (2 ^ 32 - 1 + ((numGroups sb).toNat * 32 % 2 ^ 32 + (ext2GetBlockSize sb).toNat) % 2 ^ 32) % 2 ^ 32 /
        (ext2GetBlockSize sb).toNat := by
    rw [Geometry.tableBlocks, BitVec.toNat_udiv, BitVec.toNat_sub, BitVec.toNat_add, BitVec.toNat_mul, hone, hdesc]
    rfl
  have hlt : (numGroups sb).toNat * 32 % 2 ^ 32 < 2 ^ 32 := Nat.mod_lt _ (by decide)
  generalize (numGroups sb).toNat * 32 % 2 ^ 32 = bytes at hblocks hlt ⊢
  rw [hblocks, hsize]
  have hlast {n size : Nat} (hpos : 0 < size) :
      (∀ i < n, i * size + size ≤ bufferSize) ↔ n * size ≤ bufferSize := by
    constructor
    · intro h
      cases n with
      | zero => omega
      | succ n => exact Nat.succ_mul n size ▸ h n (Nat.lt_succ_self n)
    · intro h i hi
      have := Nat.mul_le_mul_right size (Nat.succ_le_of_lt hi)
      rw [Nat.succ_mul] at this
      omega
  rw [hlast (Nat.mul_pos (by decide) (Nat.pow_pos (by decide)))]
  generalize (sLogBlockSize sb).toNat % 32 = n at hlog ⊢
  obtain rfl | rfl | rfl : n = 0 ∨ n = 1 ∨ n = 2 := by omega
  all_goals
    dsimp only [bufferSize, Nat.reducePow, Nat.reduceMul, Nat.reduceSub] at hlt ⊢
    omega

/-! ### Mounts -/

theorem ext2MountAccesses_clean (hmagic : sMagic sb = superMagic) (hgroups : sBlocksPerGroup sb ≠ 0)
    (hblock : ext2GetBlockSize sb ≠ 0) :
    ext2MountAccesses ⟨3, false, fun _ => none⟩ (fun _ => false) sb =
      (.mounted (geometryOf sb), [.divide (sBlocksPerGroup sb), .divide (ext2GetBlockSize sb)] ++
        (readTableAccesses (geometryOf sb) (fun _ => false) (fun _ => none)
          (List.range (geometryOf sb).tableBlocks)).2) := by
  have hok : ¬(3 < 2 ∨ false = true ∨ sMagic sb ≠ superMagic) := by simp [hmagic]
  have hread := (readTableAccesses_misses (geometryOf sb) (List.range (geometryOf sb).tableBlocks)).1
  rw [ext2MountAccesses, if_neg hok, if_neg hgroups]
  dsimp only
  rw [if_neg (show (geometryOf sb).blockSize ≠ 0 from hblock), if_neg (Nat.lt_irrefl 3)]
  generalize readTableAccesses (geometryOf sb) (fun _ => false) (fun _ => none)
    (List.range (geometryOf sb).tableBlocks) = result at hread ⊢
  obtain ⟨_ | _, accesses⟩ := result
  · exact nomatch hread
  · rfl

theorem inodesFit_iff (hlog : (sLogBlockSize sb).toNat % 32 ≤ 2) : (geometryOf sb).InodesFit ↔
    ((sLogBlockSize sb).toNat % 32 = 2 → numGroups sb ≠ 0 →
      ∀ index < (sInodesPerGroup sb).toNat, index * (geometryOf sb).inodeBytes.toNat % 4096 ≤ 3968) := by
  have hsize := (ext2GetBlockSize_cases sb).2.2 hlog
  have hoffset (index : BitVec 32) : (geometryOf sb).offset index =
      index.toNat * (geometryOf sb).inodeBytes.toNat % 2 ^ 32 % (ext2GetBlockSize sb).toNat := by
    rw [Geometry.offset, BitVec.toNat_umod, BitVec.toNat_mul]
    rfl
  constructor
  · intro hfit hn hgroups index hindex
    have hwidth := (sInodesPerGroup sb).isLt
    have hnat : (BitVec.ofNat 32 index).toNat = index :=
      (BitVec.toNat_ofNat ..).trans (Nat.mod_eq_of_lt (Nat.lt_trans hindex hwidth))
    have hroom := hfit hgroups (BitVec.ofNat 32 index) (BitVec.lt_def.mpr (hnat.symm ▸ hindex))
    rw [hoffset, hnat, hsize, hn, Nat.mod_mod_of_dvd _ (by decide)] at hroom
    exact Nat.le_of_add_le_add_right hroom
  · intro hfields hgroups index hindex
    rw [hoffset, hsize]
    by_cases hn : (sLogBlockSize sb).toNat % 32 = 2
    · have hfield := hfields hn hgroups index.toNat (BitVec.lt_def.mp hindex)
      rw [hn, Nat.mod_mod_of_dvd _ (by decide)]
      exact Nat.add_le_add_right hfield 128
    · have hpow : 2 ^ ((sLogBlockSize sb).toNat % 32) ≤ 2 ^ 1 := Nat.pow_le_pow_right (by decide) (by omega)
      have hlt : index.toNat * (geometryOf sb).inodeBytes.toNat % 2 ^ 32 %
          (1024 * 2 ^ ((sLogBlockSize sb).toNat % 32)) < 1024 * 2 ^ ((sLogBlockSize sb).toNat % 32) :=
        Nat.mod_lt _ (Nat.mul_pos (by decide) (Nat.pow_pos (by decide)))
      show _ ≤ 4096
      omega

theorem MountSafe.not_trapped (h : MountSafe sb) (faults : MountFaults) (hits : Nat → Bool) :
    (ext2MountAccesses faults hits sb).1 ≠ .trapped := by
  intro htrapped
  obtain hfailed | ⟨_, hmounted, -⟩ := h faults hits
  · exact nomatch htrapped.symm.trans hfailed
  · exact nomatch htrapped.symm.trans hmounted

/-- What the fields must be like for `ext2_mount` to leave the fixed sizes respected. -/
theorem mount_safe_iff (hmagic : sMagic sb = superMagic) : MountSafe sb ↔ FieldsFit sb := by
  constructor
  · intro h
    have hok : ¬(3 < 2 ∨ false = true ∨ sMagic sb ≠ superMagic) := by simp [hmagic]
    have hgroups : sBlocksPerGroup sb ≠ 0 := by
      intro hzero
      apply h.not_trapped ⟨3, false, fun _ => none⟩ fun _ => false
      rw [ext2MountAccesses, if_neg hok, if_pos hzero]
    have hblock : ext2GetBlockSize sb ≠ 0 := by
      intro hzero
      apply h.not_trapped ⟨3, false, fun _ => none⟩ fun _ => false
      rw [ext2MountAccesses, if_neg hok, if_neg hgroups]
      dsimp only
      rw [if_pos (show (geometryOf sb).blockSize = 0 from hzero)]
    have hclean := h ⟨3, false, fun _ => none⟩ fun _ => false
    rw [ext2MountAccesses_clean hmagic hgroups hblock] at hclean
    obtain hfailed | ⟨_, hmounted, hsafe, hgeometry⟩ := hclean
    · exact nomatch hfailed
    obtain rfl := MountResult.mounted.inj hmounted
    obtain ⟨hsize, hinodes, hfit⟩ := (geometrySafe_iff hblock).mp hgeometry
    have hlog := (ext2GetBlockSize_cases sb).2.1.mp ⟨hblock, hsize⟩
    refine ⟨hgroups, hinodes, hlog, (tableBlocks_le_iff hlog).mp fun i hi => ?_, (inodesFit_iff hlog).mp hfit⟩
    have hpos : 0 < (ext2GetBlockSize sb).toNat := by bv_omega
    have hlast := (readTableAccesses_misses _ _).2 (AllSafe.append.mp hsafe).2 i (List.mem_range.mpr hi)
      ((ext2GetBlockSize sb).toNat - 1)
    rw [geometryOf_blockSize, Nat.div_mul_cancel (ext2GetBlockSize_cases sb).1] at hlast
    have hend := hlast (Nat.sub_lt hpos Nat.one_pos)
    omega
  · intro h faults hits
    obtain ⟨hblock, hsize⟩ := (ext2GetBlockSize_cases sb).2.1.mpr h.blockSize
    have hgeometry : GeometrySafe (geometryOf sb) :=
      (geometrySafe_iff hblock).mpr ⟨hsize, h.inodes, (inodesFit_iff h.blockSize).mpr h.inodeSize⟩
    have htable := readTableAccesses_safe (g := geometryOf sb) hsize hits faults.table
      fun i hi => (tableBlocks_le_iff h.blockSize).mpr h.table i (List.mem_range.mp hi)
    rw [ext2MountAccesses]
    by_cases hearly : faults.pages < 2 ∨ faults.superblock = true ∨ sMagic sb ≠ superMagic
    · rw [if_pos hearly]
      exact .inl rfl
    rw [if_neg hearly, if_neg h.groups]
    dsimp only
    rw [if_neg (show (geometryOf sb).blockSize ≠ 0 from hblock)]
    by_cases hpages : faults.pages < 3
    · rw [if_pos hpages]
      exact .inl rfl
    rw [if_neg hpages]
    generalize readTableAccesses (geometryOf sb) hits faults.table (List.range (geometryOf sb).tableBlocks) =
      result at htable
    obtain ⟨_ | _, accesses⟩ := result
    · exact .inl rfl
    · refine .inr ⟨_, rfl, AllSafe.append.mpr ⟨?_, htable⟩, hgeometry⟩
      exact AllSafe.cons.mpr ⟨h.groups, AllSafe.cons.mpr ⟨hblock, AllSafe.nil⟩⟩

def superOf (fields : List (Nat × Nat)) : Bytes :=
  fields.foldl (fun sb field => LittleEndian.put sb field.1 4 field.2)
    (LittleEndian.put (fun _ => 0) 56 2 superMagic)

/-- One group of 8192 blocks of 1024 bytes, with 1024 inodes of 128 bytes. -/
theorem plain_mount_safe : MountSafe (superOf [(4, 8192), (32, 8192), (40, 1024)]) := by
  refine (mount_safe_iff (by decide +kernel)).mpr
    ⟨by decide +kernel, by decide +kernel, by decide +kernel, .inl (by decide +kernel), fun hlog => ?_⟩
  exact absurd hlog (by decide +kernel)

/-- Blocks of 8192 bytes are mounted; a superblock without blocks in its groups stops the kernel. -/
theorem unchecked_mount_unsafe :
    sMagic (superOf [(4, 8192), (24, 3), (32, 8192), (40, 1024)]) = superMagic ∧
    ¬MountSafe (superOf [(4, 8192), (24, 3), (32, 8192), (40, 1024)]) ∧
    sMagic (superOf []) = superMagic ∧
    (ext2MountAccesses ⟨3, false, fun _ => none⟩ (fun _ => false) (superOf [])).1 = .trapped ∧
    ¬MountSafe (superOf []) := by
  have hmagic : sMagic (superOf [(4, 8192), (24, 3), (32, 8192), (40, 1024)]) = superMagic := by decide +kernel
  have hblock : ext2GetBlockSize (superOf [(4, 8192), (24, 3), (32, 8192), (40, 1024)]) ≠ 0 := by decide +kernel
  have hlarge : ¬(ext2GetBlockSize (superOf [(4, 8192), (24, 3), (32, 8192), (40, 1024)])).toNat ≤ bufferSize := by
    decide +kernel
  have htrapped :
      (ext2MountAccesses ⟨3, false, fun _ => none⟩ (fun _ => false) (superOf [])).1 = .trapped := by
    have hok : ¬(3 < 2 ∨ false = true ∨ sMagic (superOf []) ≠ superMagic) := by decide +kernel
    rw [ext2MountAccesses, if_neg hok, if_pos (by decide +kernel)]
  refine ⟨hmagic, fun h => ?_, by decide +kernel, htrapped, fun h => h.not_trapped _ _ htrapped⟩
  obtain hfailed | ⟨_, hmounted, -, hgeometry⟩ := h ⟨3, false, fun _ => none⟩ fun _ => false
  · rw [ext2MountAccesses_clean hmagic (by decide +kernel) hblock] at hfailed
    exact nomatch hfailed
  · rw [ext2MountAccesses_clean hmagic (by decide +kernel) hblock] at hmounted
    obtain rfl := MountResult.mounted.inj hmounted
    exact hlarge ((geometrySafe_iff hblock).mp hgeometry).1

/-! ### Handles -/

theorem ext2Mount_geometry {device : BitVec 8} {faults : MountFaults} {s s' : State} {fs : Fs}
    (h : ext2Mount device faults s = (some fs, s')) :
    BitVec.ofNat 32 fs.blockSize = (geometryOf (superblock s.drives (driveOf device))).blockSize ∧
    fs.inodeBytes = (geometryOf (superblock s.drives (driveOf device))).inodeBytes ∧
    fs.tableBlocks = (geometryOf (superblock s.drives (driveOf device))).tableBlocks ∧
    ∀ num, fs.inodeOffset num =
      (geometryOf (superblock s.drives (driveOf device))).offset (fs.inodeIndex num) := by
  rw [ext2Mount] at h
  dsimp only at h
  split at h
  · cases h
  split at h
  · next hlog =>
    split at h
    · cases h
    split at h
    · cases h
    · obtain ⟨hfs, -⟩ := Prod.mk.inj h
      cases hfs
      have hall : ∀ n ≤ 2, BitVec.ofNat 32 (1024 <<< n) = (1024 : BitVec 32) <<< (n % 32) := by decide
      have hsize := hall _ (BitVec.le_def.mp hlog)
      refine ⟨hsize, rfl, ?_, fun num => ?_⟩
      · exact congrArg (fun size => ((numGroups (superblock s.drives (driveOf device)) *
          BitVec.ofNat 32 groupDescSize + size - 1) / size).toNat) hsize
      · exact congrArg (fun size => (_ * _ % size : BitVec 32).toNat) hsize
  · cases h

end TocinOS.Ext2

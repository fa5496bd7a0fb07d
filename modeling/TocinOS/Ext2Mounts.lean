import TocinOS.Ext2Blocks

/-! Several mounted volumes over one block cache. An entry of the cache has a block number
but no drive, so the cache is transparent only as long as each block number is used with one
drive. Drives may answer with errors here. -/

namespace TocinOS.Ext2

abbrev superMagic : Nat := 0xEF53
abbrev groupDescSize : Nat := 32

/-! ### Mounting -/

def superblock (drives : Drives) (drive : BitVec 8) : Bytes :=
  fun i => drives drive (2 + i / sectorSize) (i % sectorSize)

def sbWord (sb : Bytes) (pos : Nat) : BitVec 32 := BitVec.ofNat 32 (LittleEndian.get sb pos 4)

abbrev sBlocksCount (sb : Bytes) : BitVec 32 := sbWord sb 4
abbrev sLogBlockSize (sb : Bytes) : BitVec 32 := sbWord sb 24
abbrev sBlocksPerGroup (sb : Bytes) : BitVec 32 := sbWord sb 32
abbrev sInodesPerGroup (sb : Bytes) : BitVec 32 := sbWord sb 40
abbrev sMagic (sb : Bytes) : Nat := LittleEndian.get sb 56 2
abbrev sRevLevel (sb : Bytes) : BitVec 32 := sbWord sb 76
abbrev sInodeSize (sb : Bytes) : BitVec 16 := BitVec.ofNat 16 (LittleEndian.get sb 88 2)
abbrev sJournalInum (sb : Bytes) : BitVec 32 := sbWord sb 224

def numGroups (sb : Bytes) : BitVec 32 :=
  (sBlocksCount sb + sBlocksPerGroup sb - 1) / sBlocksPerGroup sb

/-- The handle that `ext2_mount` fills in, with the group descriptors of the buffer. -/
def mountedFs (drive : BitVec 8) (sb : Bytes) (h : sLogBlockSize sb ≤ 2) (table : Bytes) : Fs where
  device := drive
  blockSize := 1024 <<< (sLogBlockSize sb).toNat
  blockSize_dvd := ⟨2 ^ (sLogBlockSize sb).toNat, Nat.shiftLeft_eq ..⟩
  blockSize_pos := by
    rw [Nat.shiftLeft_eq]
    exact Nat.mul_pos (by decide) (Nat.pow_pos (by decide))
  blockSize_le := by
    rw [Nat.shiftLeft_eq]
    have hle : (sLogBlockSize sb).toNat ≤ 2 := h
    calc 1024 * 2 ^ (sLogBlockSize sb).toNat ≤ 1024 * 2 ^ 2 :=
          Nat.mul_le_mul_left _ (Nat.pow_le_pow_right (by decide) hle)
      _ = 4096 := rfl
  numGroups := numGroups sb
  inodesPerGroup := sInodesPerGroup sb
  inodeTable := fun g => sbWord table (groupDescSize * g.toNat + 8)
  inodeSize := sInodeSize sb
  revLevel := sRevLevel sb
  journalInum := sJournalInum sb

def Fs.tableBlock (fs : Fs) : BitVec 32 := if fs.blockSize = 1024 then 2 else 1

def Fs.tableBlocks (fs : Fs) : Nat :=
  ((fs.numGroups * BitVec.ofNat 32 groupDescSize + BitVec.ofNat 32 fs.blockSize - 1) /
    BitVec.ofNat 32 fs.blockSize).toNat

/-- The sector of a block whose read fails. -/
abbrev Fault := Option Nat

def Fault.faults (fault : Fault) : Faults := ⟨fun t => fault != some t, fun _ => .done⟩

def readTable (fs : Fs) (faults : Nat → Fault) : List Nat → Bytes → State → Option Bytes × State
  | [], table, s => (some table, s)
  | i :: rest, table, s =>
    match tryReadBlock (faults i).faults fs (fs.tableBlock + BitVec.ofNat 32 i) (fun _ => 0) s 0 with
    | (false, _, s, _) => (none, s)
    | (true, block, s, _) =>
      readTable fs faults rest
        (fun j => if i * fs.blockSize ≤ j ∧ j < (i + 1) * fs.blockSize then
          block (j - i * fs.blockSize) else table j) s

/-- What goes wrong during a mount: the pages that can still be allocated, errors in the two
sectors of the superblock, errors in the blocks of the descriptors. -/
structure MountFaults where
  pages : Nat
  superblock : Bool
  table : Nat → Fault

def driveOf (device : BitVec 8) : BitVec 8 := if 0x30 ≤ device ∧ device ≤ 0x33 then device - 0x30 else 0

/-- `device` is the first character of the name. A superblock whose blocks are larger than
the buffers of the driver, or one with empty groups, gets no handle here. -/
def ext2Mount (device : BitVec 8) (faults : MountFaults) (s : State) : Option Fs × State :=
  let drive := driveOf device
  let sb := superblock s.drives drive
  if faults.pages < 2 ∨ faults.superblock ∨ sMagic sb ≠ superMagic ∨ faults.pages < 3 then (none, s)
  else if h : sLogBlockSize sb ≤ 2 then
    if sBlocksPerGroup sb = 0 then (none, s)
    else
      let fs := mountedFs drive sb h fun _ => 0
      match readTable fs faults.table (List.range fs.tableBlocks) (fun _ => 0) s with
      | (none, s) => (none, s)
      | (some table, s) => (some (mountedFs drive sb h table), s)
  else (none, s)

def ext2Unmount (fs : Fs) (faults : Nat → Faults) (s : State) : State :=
  (List.range cacheSize).foldl (fun s i =>
    let e := s.blockCache i
    if e.valid && e.dirty then
      let s := (tryWriteBlock (faults i) fs e.blockNum e.data s 0).2.1
      { s with blockCache := Function.update s.blockCache i { s.blockCache i with dirty := false } }
    else s) s

/-! ### Calls -/

structure Mounts where
  io : State
  mounted : Nat → Option Fs

inductive MountCall
  | mount (handle : Nat) (device : BitVec 8) (faults : MountFaults)
  | unmount (handle : Nat) (faults : Nat → Faults)
  | read (handle : Nat) (b : BitVec 32) (buffer : Bytes) (faults : Faults)
  | write (handle : Nat) (b : BitVec 32) (buffer : Bytes) (faults : Faults)

def MountCall.run (m : Mounts) : MountCall → Mounts
  | .mount handle device faults =>
    match ext2Mount device faults m.io with
    | (none, io) => { m with io }
    | (some fs, io) => ⟨io, Function.update m.mounted handle (some fs)⟩
  | .unmount handle faults =>
    match m.mounted handle with
    | none => m
    | some fs => ⟨ext2Unmount fs faults m.io, Function.update m.mounted handle none⟩
  | .read handle b buffer faults =>
    match m.mounted handle with
    | none => m
    | some fs => { m with io := (tryReadBlock faults fs b buffer m.io 0).2.2.1 }
  | .write handle b buffer faults =>
    match m.mounted handle with
    | none => m
    | some fs => { m with io := (tryWriteBlock faults fs b buffer m.io 0).2.1 }

/-! ### Block numbers that belong to one drive -/

structure Uses (own : BitVec 32 → Fs) (fs : Fs) (b : BitVec 32) : Prop where
  device : fs.device = (own b).device
  size : fs.blockSize = (own b).blockSize
  addressable : fs.Addressable b

variable {own : BitVec 32 → Fs} {fs fs' : Fs} {b : BitVec 32} {s : State}

theorem ext2ReadBlock_congr (hd : fs.device = fs'.device) (hb : fs.blockSize = fs'.blockSize)
    (b : BitVec 32) (buffer : Bytes) (s : State) :
    ext2ReadBlock fs b buffer s = ext2ReadBlock fs' b buffer s := by
  have hsectors : fs.sectorsPerBlock = fs'.sectorsPerBlock := by
    rw [Fs.sectorsPerBlock, Fs.sectorsPerBlock, hb]
  simp only [ext2ReadBlock, readSectors, Fs.startSector, hsectors, hd, hb]

theorem ext2WriteBlock_congr (hd : fs.device = fs'.device) (hb : fs.blockSize = fs'.blockSize)
    (b : BitVec 32) (buffer : Bytes) (s : State) :
    ext2WriteBlock fs b buffer s = ext2WriteBlock fs' b buffer s := by
  have hsectors : fs.sectorsPerBlock = fs'.sectorsPerBlock := by
    rw [Fs.sectorsPerBlock, Fs.sectorsPerBlock, hb]
  simp only [ext2WriteBlock, writeSectors, Fs.startSector, hsectors, hd, hb]

theorem loaded_block_congr (hd : fs.device = fs'.device) (hb : fs.blockSize = fs'.blockSize)
    (drives : Drives) (b : BitVec 32) (buffer : Bytes) :
    fs.loaded (fs.block drives b) buffer = fs'.loaded (fs'.block drives b) buffer := by
  funext i
  simp only [Fs.loaded, Fs.block, Fs.sector_eq, Fs.sectorsPerBlock, hd, hb]

theorem Uses.ownAddressable (h : Uses own fs b) : (own b).Addressable b := by
  have hb := h.addressable
  rwa [Fs.Addressable, Fs.sectorsPerBlock, h.size] at hb

theorem notDirty_update {cache : Nat → CacheEntry} (h : ∀ i, (cache i).dirty = false) (i : Nat)
    {e : CacheEntry} (he : e.dirty = false) (j : Nat) :
    (Function.update cache i e j).dirty = false := by
  by_cases hji : j = i
  · subst hji
    rwa [Function.update_self]
  · rw [Function.update_of_ne hji]
    exact h j

theorem ext2ReadBlock_notDirty (fs : Fs) (b : BitVec 32)
    (h : ∀ i, (s.blockCache i).dirty = false) (buffer : Bytes) (j : Nat) :
    ((ext2ReadBlock fs b buffer s).2.blockCache j).dirty = false := by
  have hfree : ∀ i, ((ext2CacheGetFree s).2.blockCache i).dirty = false := by
    unfold ext2CacheGetFree
    split
    · exact h
    · exact notDirty_update h _ rfl
  rcases ext2CacheFind_cases b s with ⟨hfind, -⟩ | ⟨i, -, -, -, hfind⟩
  · simp only [ext2ReadBlock, hfind]
    exact notDirty_update hfree _ rfl j
  · simp only [ext2ReadBlock, hfind]
    refine notDirty_update h i ?_ j
    exact h i

theorem ext2WriteBlock_notDirty (fs : Fs) (b : BitVec 32)
    (h : ∀ i, (s.blockCache i).dirty = false) (buffer : Bytes) (j : Nat) :
    ((ext2WriteBlock fs b buffer s).blockCache j).dirty = false := by
  rcases ext2CacheFind_cases b { s with
    drives := writeSectors fs s.drives b buffer
    history := s.drives :: s.history } with ⟨hfind, -⟩ | ⟨i, -, -, -, hfind⟩
  · simp only [ext2WriteBlock, hfind]
    exact h j
  · simp only [ext2WriteBlock, hfind, Function.update_idem]
    exact notDirty_update h i rfl j

structure Clean (own : BitVec 32 → Fs) (s : State) : Prop where
  cached : Cached own s
  notDirty : ∀ i, (s.blockCache i).dirty = false

theorem Clean.read (h : Clean own s) (hb : Uses own fs b) (buffer : Bytes) :
    (ext2ReadBlock fs b buffer s).1 = fs.loaded (fs.block s.drives b) buffer ∧
      Clean own (ext2ReadBlock fs b buffer s).2 := by
  have hdirty := ext2ReadBlock_notDirty fs b h.notDirty buffer
  rw [ext2ReadBlock_congr hb.device hb.size] at hdirty ⊢
  rw [loaded_block_congr hb.device hb.size]
  obtain ⟨hbytes, hcached⟩ := h.cached.read hb.ownAddressable buffer
  exact ⟨hbytes, hcached, hdirty⟩

theorem Clean.tryRead (h : Clean own s) (hb : Uses own fs b) (buffer : Bytes) (faults : Faults) (time : Nat) :
    Clean own (tryReadBlock faults fs b buffer s time).2.2.1 ∧
      ((tryReadBlock faults fs b buffer s time).1 = true →
        (tryReadBlock faults fs b buffer s time).2.1 = fs.loaded (fs.block s.drives b) buffer) := by
  obtain ⟨hbytes, hclean⟩ := h.read hb buffer
  obtain ⟨ok, buffer', s', time', hread, -, hdone, hfail⟩ := tryReadBlock_cases faults fs b buffer s time
  rw [hread]
  cases ok with
  | false =>
    obtain rfl := hfail rfl
    exact ⟨h, fun he => absurd he Bool.false_ne_true⟩
  | true =>
    obtain ⟨rfl, rfl⟩ := hdone rfl
    exact ⟨hclean, fun _ => hbytes⟩

theorem Clean.write (hown : Uniform own) (h : Clean own s) (hb : Uses own fs b) (buffer : Bytes) :
    Clean own (ext2WriteBlock fs b buffer s) := by
  have hdirty := ext2WriteBlock_notDirty fs b h.notDirty buffer
  rw [ext2WriteBlock_congr hb.device hb.size] at hdirty ⊢
  exact ⟨h.cached.write hown hb.ownAddressable buffer, hdirty⟩

def Uncached (s : State) (b : BitVec 32) : Prop :=
  ∀ i < cacheSize, (s.blockCache i).valid = true → (s.blockCache i).blockNum ≠ b

theorem Clean.tryWrite (hown : Uniform own) (h : Clean own s) (hb : Uses own fs b) (buffer : Bytes)
    {faults : Faults} {time : Nat} (hfaults : faults.Torn fs time → Uncached s b) :
    Clean own (tryWriteBlock faults fs b buffer s time).2.1 := by
  rcases tryWriteBlock_cases faults fs b buffer s time with ⟨time', heq⟩ | ⟨n, hn, time', heq, htorn⟩
  · rw [heq]
    exact h.write hown hb buffer
  rw [heq]
  refine ⟨⟨h.cached.addressable, fun i hi hv => ?_, h.cached.unique⟩, h.notDirty⟩
  dsimp only
  rcases Nat.eq_zero_or_pos n with rfl | hpos
  · exact h.cached.data i hi hv
  have hle : n ≤ (own b).sectorsPerBlock := by
    rwa [Fs.sectorsPerBlock, ← hb.size]
  have hstart : fs.startSector b = (own b).startSector b := by
    rw [Fs.startSector, Fs.startSector, Fs.sectorsPerBlock, Fs.sectorsPerBlock, hb.size]
  rw [hb.device, hstart, hown.block_of_ne hb.ownAddressable (h.cached.addressable i hi hv)
    (hfaults (htorn hpos) i hi hv) s.drives buffer hle]
  exact h.cached.data i hi hv

theorem Clean.table (h : Clean own s) (fs : Fs) (faults : Nat → Fault) (blocks : List Nat) (table : Bytes)
    (hb : ∀ i ∈ blocks, Uses own fs (fs.tableBlock + BitVec.ofNat 32 i)) :
    Clean own (readTable fs faults blocks table s).2 := by
  induction blocks generalizing s table with
  | nil => exact h
  | cons i blocks ih =>
    have hread := (h.tryRead (hb i (List.mem_cons_self ..)) (fun _ => 0) (faults i).faults 0).1
    rw [readTable]
    split
    · next he =>
      rw [he] at hread
      exact hread
    · next he =>
      rw [he] at hread
      exact ih hread _ fun j hj => hb j (List.mem_cons_of_mem i hj)

theorem Clean.unmount (h : Clean own s) (fs : Fs) (faults : Nat → Faults) :
    ext2Unmount fs faults s = s := by
  unfold ext2Unmount
  induction List.range cacheSize with
  | nil => rfl
  | cons i rest ih =>
    rw [List.foldl_cons]
    simp only [h.notDirty i, Bool.and_false, Bool.false_eq_true, if_false]
    exact ih

/-! ### Runs -/

/-- A superblock that the driver has room for, and whose descriptors are used with the
drive they are assigned to. -/
def Mountable (own : BitVec 32 → Fs) (drives : Drives) (drive : BitVec 8) : Prop :=
  let sb := superblock drives drive
  sMagic sb = superMagic → ∃ h : sLogBlockSize sb ≤ 2, sBlocksPerGroup sb ≠ 0 ∧
    let fs := mountedFs drive sb h fun _ => 0
    fs.tableBlocks * fs.blockSize ≤ 4096 ∧
      ∀ i < fs.tableBlocks, Uses own fs (fs.tableBlock + BitVec.ofNat 32 i)

def Assigned (own : BitVec 32 → Fs) (m : Mounts) : MountCall → Prop
  | .mount _ device _ => Mountable own m.io.drives (driveOf device)
  | .unmount _ _ => True
  | .read handle b _ _ => ∀ fs, m.mounted handle = some fs → Uses own fs b
  | .write handle b _ faults => ∀ fs, m.mounted handle = some fs →
      Uses own fs b ∧ (faults.Torn fs 0 → Uncached m.io b)

def MountStep (ok : Mounts → MountCall → Prop) (m m' : Mounts) : Prop :=
  ∃ c, ok m c ∧ m' = c.run m

def Booted (m : Mounts) : Prop := (∃ s, m.io = ext2CacheInit s) ∧ ∀ handle, m.mounted handle = none

/-- What a read returns without an error is what the sectors of the block hold. -/
def Transparent (m : Mounts) (handle : Nat) (b : BitVec 32) : Prop :=
  ∀ fs, m.mounted handle = some fs → ∀ buffer faults,
    (tryReadBlock faults fs b buffer m.io 0).1 = true →
      (tryReadBlock faults fs b buffer m.io 0).2.1 = fs.loaded (fs.layoutBlock m.io.drives b) buffer

theorem Clean.mount (h : Clean own s) {device : BitVec 8} (faults : MountFaults)
    (hm : Mountable own s.drives (driveOf device)) : Clean own (ext2Mount device faults s).2 := by
  unfold ext2Mount
  dsimp only
  split
  · exact h
  · next hok =>
    have hmagic : sMagic (superblock s.drives (driveOf device)) = superMagic := by
      by_contra hne
      exact hok (.inr (.inr (.inl hne)))
    obtain ⟨hlog, -, -, huses⟩ := hm hmagic
    rw [dif_pos hlog]
    split
    · exact h
    · have htable := h.table (mountedFs (driveOf device) (superblock s.drives (driveOf device))
        hlog fun _ => 0) faults.table _ (fun _ => 0) fun i hi => huses i (List.mem_range.mp hi)
      split
      · next he =>
        rw [he] at htable
        exact htable
      · next he =>
        rw [he] at htable
        exact htable

theorem Clean.run (hown : Uniform own) {m : Mounts} (h : Clean own m.io) {c : MountCall}
    (hc : Assigned own m c) : Clean own (c.run m).io := by
  cases c with
  | mount handle device faults =>
    have hmount := h.mount faults hc
    rw [MountCall.run]
    split
    · next he =>
      rw [he] at hmount
      exact hmount
    · next he =>
      rw [he] at hmount
      exact hmount
  | unmount handle faults =>
    rw [MountCall.run]
    split
    · exact h
    · dsimp only
      rw [h.unmount]
      exact h
  | read handle b buffer faults =>
    rw [MountCall.run]
    split
    · exact h
    · next fs hfs => exact (h.tryRead (hc fs hfs) buffer faults 0).1
  | write handle b buffer faults =>
    rw [MountCall.run]
    split
    · exact h
    · next fs hfs => exact h.tryWrite hown (hc fs hfs).1 buffer (hc fs hfs).2

theorem Booted.clean {m m' : Mounts} (hown : Uniform own) (h : Booted m)
    (hrun : Relation.ReflTransGen (MountStep (Assigned own)) m m') : Clean own m'.io := by
  induction hrun with
  | refl =>
    obtain ⟨⟨s, hs⟩, -⟩ := h
    rw [hs]
    exact ⟨cached_init own s, fun _ => rfl⟩
  | tail _ hstep ih =>
    obtain ⟨c, hc, rfl⟩ := hstep
    exact ih.run hown hc

/-- As long as each block number is used with one drive, the cache cannot be told from no
cache at all. -/
theorem cache_transparent {m m' : Mounts} (own : BitVec 32 → Fs) (hown : Uniform own) (h : Booted m)
    (hrun : Relation.ReflTransGen (MountStep (Assigned own)) m m') {handle : Nat} {b : BitVec 32}
    (hb : ∀ fs, m'.mounted handle = some fs → Uses own fs b) : Transparent m' handle b := by
  intro fs hfs buffer faults hread
  rw [← Fs.block_eq_layoutBlock (hb fs hfs).addressable]
  exact ((h.clean hown hrun).tryRead (hb fs hfs) buffer faults 0).2 hread

/-- Drives with a volume of 1024-byte blocks and one group on each. In block 5 they have
their own number. -/
def numberedDrives : Drives := fun drive lba i =>
  if lba = 2 then
    if i = 4 ∨ i = 32 then 1 else if i = 56 then 0x53 else if i = 57 then 0xEF else 0
  else if lba = 10 then drive else 0

def numberedStart : Mounts := ⟨ext2CacheInit ⟨numberedDrives, fun _ => {}, 0, []⟩, fun _ => none⟩

def quietMount : MountFaults := ⟨3, false, fun _ => none⟩

def oneMounted : Mounts := MountCall.run numberedStart (.mount 0 0x30 quietMount)

def numberedFs : Fs := mountedFs 0 (superblock numberedDrives 0) (by decide) fun _ => 0

theorem numberedStart_assigned :
    Assigned (fun _ => numberedFs) numberedStart (.mount 0 0x30 quietMount) := by
  refine fun _ => ⟨by decide, by decide, ?_, fun i hi => ⟨rfl, rfl, ?_⟩⟩
  · show numberedFs.tableBlocks * numberedFs.blockSize ≤ 4096
    decide +kernel
  · have htable : numberedFs.tableBlocks = 1 := by decide +kernel
    obtain rfl : i = 0 := Nat.lt_one_iff.mp (htable ▸ hi)
    show numberedFs.Addressable (numberedFs.tableBlock + BitVec.ofNat 32 0)
    decide +kernel

theorem oneMounted_transparent :
    (oneMounted.mounted 0).isSome = true ∧ Transparent oneMounted 0 5 := by
  refine ⟨by decide +kernel, cache_transparent (fun _ => numberedFs) (fun _ _ _ => rfl)
    ⟨⟨_, rfl⟩, fun _ => rfl⟩ (.single ⟨_, numberedStart_assigned, rfl⟩) fun fs hfs => ?_⟩
  have hshape : (oneMounted.mounted 0).all
      (fun fs => fs.device == 0 && (fs.blockSize == 1024)) = true := by decide +kernel
  change oneMounted.mounted 0 = some fs at hfs
  rw [hfs, Option.all_some, Bool.and_eq_true, beq_iff_eq, beq_iff_eq] at hshape
  refine ⟨hshape.1, hshape.2, ?_⟩
  rw [Fs.Addressable, Fs.sectorsPerBlock, hshape.2]
  decide

theorem twoMounted_not_transparent :
    ∃ m m' handle b, Booted m ∧ Relation.ReflTransGen (MountStep fun _ _ => True) m m' ∧
      ¬ Transparent m' handle b := by
  let mounted := MountCall.run oneMounted (.mount 1 0x31 quietMount)
  let m' := MountCall.run mounted (.read 0 5 (fun _ => 0) noFaults)
  refine ⟨numberedStart, m', 1, 5, ⟨⟨_, rfl⟩, fun _ => rfl⟩,
    ((Relation.ReflTransGen.single ⟨_, trivial, rfl⟩).tail ⟨_, trivial, rfl⟩).tail
      ⟨_, trivial, rfl⟩, fun h => ?_⟩
  have hread : (m'.mounted 1).map (fun fs => ((tryReadBlock noFaults fs 5 (fun _ => 0) m'.io 0).1,
      (tryReadBlock noFaults fs 5 (fun _ => 0) m'.io 0).2.1 0,
      fs.loaded (fs.layoutBlock m'.io.drives 5) (fun _ => 0) 0)) = some (true, 0, 1) := by decide +kernel
  obtain ⟨fs, hfs, htriple⟩ := Option.map_eq_some_iff.mp hread
  obtain ⟨hok, hbytes⟩ := Prod.mk.inj htriple
  obtain ⟨hcached, hdrive⟩ := Prod.mk.inj hbytes
  rw [h fs hfs (fun _ => 0) noFaults hok, hdrive] at hcached
  exact absurd hcached (by decide)

end TocinOS.Ext2

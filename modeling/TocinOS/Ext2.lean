import TocinOS.Ide
import TocinOS.LittleEndian
import TocinOS.SparseBlocks

/-! The block layer of `kernel/ext2.c`: the block cache, block transfers to and from
the IDE drives, and the inode table. `tryReadBlock` and `tryWriteBlock` are the block transfers on
drives that may fail; where drives answer without errors they come down to `ext2ReadBlock` and
`ext2WriteBlock`. -/

namespace TocinOS.Ext2

open SparseBlocks (copyAt)

abbrev Byte := BitVec 8
abbrev Bytes := Nat → Byte

/-- The sectors of each drive. The driver reaches those with a number of 28 bits. -/
abbrev Drives := BitVec 8 → Nat → Bytes

abbrev sectorSize : Nat := 512
abbrev cacheSize : Nat := 32
abbrev goodOldInodeSize : BitVec 32 := 128

structure CacheEntry where
  blockNum : BitVec 32 := 0
  lastAccess : BitVec 32 := 0
  valid : Bool := false
  dirty : Bool := false
  data : Bytes := fun _ => 0

/-- `ext2_fs_t` with the superblock fields that are read after mounting. The block sizes
are those that the 4096-byte buffers of the driver are made for. -/
structure Fs where
  device : BitVec 8
  blockSize : Nat
  blockSize_dvd : 1024 ∣ blockSize
  blockSize_pos : 0 < blockSize
  blockSize_le : blockSize ≤ 4096
  numGroups : BitVec 32
  inodesPerGroup : BitVec 32
  inodeTable : BitVec 32 → BitVec 32
  inodeSize : BitVec 16
  revLevel : BitVec 32
  journalInum : BitVec 32

structure State where
  drives : Drives
  blockCache : Nat → CacheEntry
  cacheAccessCounter : BitVec 32
  /-- The drives as they were before each block write, newest first. -/
  history : List Drives

def copyBytes (n : Nat) (source target : Bytes) : Bytes :=
  fun i => if i < n then source i else target i

def ideReadSector (drives : Drives) (drive : BitVec 8) (lba : BitVec 32) (buffer : Bytes)
    (pos : Nat) : Bytes :=
  fun i => if pos ≤ i ∧ i < pos + sectorSize then drives drive (Ide.sectorOf lba 0) (i - pos) else buffer i

def ideWriteSector (drives : Drives) (drive : BitVec 8) (lba : BitVec 32) (buffer : Bytes)
    (pos : Nat) : Drives :=
  Function.update drives drive
    (Function.update (drives drive) (Ide.sectorOf lba 0) fun i => buffer (pos + i))

/-! ### The block cache -/

/-- `ext2_cache_init`; it leaves the data of the entries as it is. -/
def ext2CacheInit (s : State) : State where
  drives := s.drives
  blockCache := fun i => { data := (s.blockCache i).data }
  cacheAccessCounter := 0
  history := s.history

def ext2CacheFind (blockNum : BitVec 32) (s : State) : Option Nat × State :=
  match (List.range cacheSize).find? fun i =>
      (s.blockCache i).valid && (s.blockCache i).blockNum == blockNum with
  | none => (none, s)
  | some i =>
    let counter := s.cacheAccessCounter + 1
    (some i, { s with
      cacheAccessCounter := counter
      blockCache := Function.update s.blockCache i
        { s.blockCache i with lastAccess := counter } })

def leastRecentlyUsed (s : State) : Nat :=
  (List.range cacheSize).foldl (fun lru i =>
    if (s.blockCache i).lastAccess < (s.blockCache lru).lastAccess then i else lru) 0

def ext2CacheGetFree (s : State) : Nat × State :=
  match (List.range cacheSize).find? fun i => !(s.blockCache i).valid with
  | some i => (i, s)
  | none =>
    let lru := leastRecentlyUsed s
    (lru, { s with
      blockCache := Function.update s.blockCache lru
        { s.blockCache lru with valid := false, dirty := false } })

/-! ### Blocks -/

def Fs.sectorsPerBlock (fs : Fs) : Nat := fs.blockSize / sectorSize

def Fs.startSector (fs : Fs) (blockNum : BitVec 32) : BitVec 32 :=
  blockNum * BitVec.ofNat 32 fs.sectorsPerBlock

def readSectors (fs : Fs) (drives : Drives) (blockNum : BitVec 32) (buffer : Bytes) : Bytes :=
  (List.range fs.sectorsPerBlock).foldl (fun buffer i =>
    ideReadSector drives fs.device (fs.startSector blockNum + BitVec.ofNat 32 i) buffer
      (i * sectorSize)) buffer

def writeSectors (fs : Fs) (drives : Drives) (blockNum : BitVec 32) (buffer : Bytes) : Drives :=
  (List.range fs.sectorsPerBlock).foldl (fun drives i =>
    ideWriteSector drives fs.device (fs.startSector blockNum + BitVec.ofNat 32 i) buffer
      (i * sectorSize)) drives

def ext2ReadBlock (fs : Fs) (blockNum : BitVec 32) (buffer : Bytes) (s : State) :
    Bytes × State :=
  match ext2CacheFind blockNum s with
  | (some i, s) => (copyBytes fs.blockSize (s.blockCache i).data buffer, s)
  | (none, s) =>
    let buffer := readSectors fs s.drives blockNum buffer
    let (i, s) := ext2CacheGetFree s
    let counter := s.cacheAccessCounter + 1
    (buffer, { s with
      cacheAccessCounter := counter
      blockCache := Function.update s.blockCache i
        { blockNum, lastAccess := counter, valid := true, dirty := false,
          data := copyBytes fs.blockSize buffer (s.blockCache i).data } })

def ext2WriteBlock (fs : Fs) (blockNum : BitVec 32) (buffer : Bytes) (s : State) : State :=
  let s := { s with
    drives := writeSectors fs s.drives blockNum buffer
    history := s.drives :: s.history }
  match ext2CacheFind blockNum s with
  | (some i, s) =>
    { s with
      blockCache := Function.update s.blockCache i
        { s.blockCache i with
          data := copyBytes fs.blockSize buffer (s.blockCache i).data, dirty := false } }
  | (none, s) => s

/-! ### Blocks on drives that fail -/

/-- How the drive answers the request to write a sector. The sector may be on the drive although
the flush after it timed out. -/
inductive Answer
  | done
  | refused
  | unconfirmed
  deriving DecidableEq

/-- The errors of the drive, by the number of the request: whether it would read the sector, and
how it would write it. -/
structure Faults where
  reads : Nat → Bool
  writes : Nat → Answer

/-- The drive performs every request. -/
def noFaults : Faults := ⟨fun _ => true, fun _ => .done⟩

section

variable (faults : Faults)

def tryReadSectors (fs : Fs) (drives : Drives) (blockNum : BitVec 32) :
    List Nat → Bytes → Nat → Bool × Bytes × Nat
  | [], buffer, time => (true, buffer, time)
  | i :: rest, buffer, time =>
    if faults.reads time then
      tryReadSectors fs drives blockNum rest
        (ideReadSector drives fs.device (fs.startSector blockNum + BitVec.ofNat 32 i) buffer
          (i * sectorSize)) (time + 1)
    else (false, buffer, time + 1)

def tryReadBlock (fs : Fs) (blockNum : BitVec 32) (buffer : Bytes) (s : State) (time : Nat) :
    Bool × Bytes × State × Nat :=
  match ext2CacheFind blockNum s with
  | (some i, s) => (true, copyBytes fs.blockSize (s.blockCache i).data buffer, s, time)
  | (none, s) =>
    match tryReadSectors faults fs s.drives blockNum (List.range fs.sectorsPerBlock) buffer time with
    | (false, buffer, time) => (false, buffer, s, time)
    | (true, buffer, time) =>
      let (i, s) := ext2CacheGetFree s
      let counter := s.cacheAccessCounter + 1
      (true, buffer, { s with
        cacheAccessCounter := counter
        blockCache := Function.update s.blockCache i
          { blockNum, lastAccess := counter, valid := true, dirty := false,
            data := copyBytes fs.blockSize buffer (s.blockCache i).data } }, time)

def tryWriteSectors (fs : Fs) (blockNum : BitVec 32) (buffer : Bytes) :
    List Nat → Drives → Nat → Bool × Drives × Nat
  | [], drives, time => (true, drives, time)
  | i :: rest, drives, time =>
    let stored := ideWriteSector drives fs.device (fs.startSector blockNum + BitVec.ofNat 32 i) buffer
      (i * sectorSize)
    match faults.writes time with
    | .done => tryWriteSectors fs blockNum buffer rest stored (time + 1)
    | .refused => (false, drives, time + 1)
    | .unconfirmed => (false, stored, time + 1)

/-- The cached copy is only brought up to date when the whole block was written. -/
def tryWriteBlock (fs : Fs) (blockNum : BitVec 32) (buffer : Bytes) (s : State) (time : Nat) :
    Bool × State × Nat :=
  match tryWriteSectors faults fs blockNum buffer (List.range fs.sectorsPerBlock) s.drives time with
  | (false, drives, time) => (false, { s with drives, history := s.drives :: s.history }, time)
  | (true, drives, time) =>
    match ext2CacheFind blockNum { s with drives, history := s.drives :: s.history } with
    | (some i, s) =>
      (true, { s with
        blockCache := Function.update s.blockCache i
          { s.blockCache i with
            data := copyBytes fs.blockSize buffer (s.blockCache i).data, dirty := false } }, time)
    | (none, s) => (true, s, time)

end

/-! ### The driver

What `drivers/ide_driver.c` does with a sector of the buffer is what `Faults` lets it do: the sector
is read or not, and it is written, refused or stored without being confirmed. -/

theorem driver_reads (drive : BitVec 8) (lba : BitVec 32) (buffer : Bytes) (pos : Nat) (s : Ide.State) :
    ∃ e sector s', Ide.ideReadSector drive lba (fun i => buffer (pos + i)) s = (e, sector, s') ∧
      s'.sectors = s.sectors ∧
      (e = 1 ∧ copyAt pos sectorSize sector buffer = ideReadSector s.sectors drive lba buffer pos ∨
        e < 0 ∧ copyAt pos sectorSize sector buffer = buffer) := by
  obtain ⟨s', hsectors, h | ⟨e, he, h⟩⟩ := Ide.ideReadSector_cases drive lba (fun i => buffer (pos + i)) s
  · refine ⟨_, _, s', h, hsectors, .inl ⟨rfl, funext fun i => ?_⟩⟩
    by_cases hi : pos ≤ i ∧ i < pos + sectorSize
    · rw [copyAt, if_pos hi, if_pos (Nat.sub_lt_left_of_lt_add hi.1 hi.2), ideReadSector, if_pos hi]
    · rw [copyAt, if_neg hi, ideReadSector, if_neg hi]
  · refine ⟨e, _, s', h, hsectors, .inr ⟨he, funext fun i => ?_⟩⟩
    by_cases hi : pos ≤ i ∧ i < pos + sectorSize
    · rw [copyAt, if_pos hi, Nat.add_sub_cancel' hi.1]
    · rw [copyAt, if_neg hi]

theorem driver_writes (drive : BitVec 8) (lba : BitVec 32) (buffer : Bytes) (pos : Nat) (s : Ide.State) :
    ∃ e s', Ide.ideWriteSector drive lba (fun i => buffer (pos + i)) s = (e, s') ∧
      (e < 0 ∧ s'.sectors = s.sectors ∨
        (e = 1 ∨ e < 0) ∧ s'.sectors = ideWriteSector s.sectors drive lba buffer pos) :=
  Ide.ideWriteSector_cases ..

/-! ### Inodes -/

def Fs.inodeBytes (fs : Fs) : BitVec 32 :=
  if fs.inodeSize = 0 ∨ fs.revLevel = 0 then goodOldInodeSize else fs.inodeSize.setWidth 32

def Fs.inodeGroup (fs : Fs) (inodeNum : BitVec 32) : BitVec 32 :=
  (inodeNum - 1) / fs.inodesPerGroup

def Fs.inodeIndex (fs : Fs) (inodeNum : BitVec 32) : BitVec 32 :=
  (inodeNum - 1) % fs.inodesPerGroup

def Fs.inodeBlock (fs : Fs) (inodeNum : BitVec 32) : BitVec 32 :=
  fs.inodeTable (fs.inodeGroup inodeNum) +
    fs.inodeIndex inodeNum * fs.inodeBytes / BitVec.ofNat 32 fs.blockSize

def Fs.inodeOffset (fs : Fs) (inodeNum : BitVec 32) : Nat :=
  (fs.inodeIndex inodeNum * fs.inodeBytes % BitVec.ofNat 32 fs.blockSize).toNat

/-- The bytes of the inode, `none` when the number is rejected. The static block buffer is
zero past the block. -/
def ext2ReadInode (fs : Fs) (inodeNum : BitVec 32) (s : State) : Option Bytes × State :=
  if inodeNum = 0 then (none, s)
  else if fs.numGroups ≤ fs.inodeGroup inodeNum then (none, s)
  else
    let (buffer, s) := ext2ReadBlock fs (fs.inodeBlock inodeNum) (fun _ => 0) s
    (some fun i => buffer (fs.inodeOffset inodeNum + i), s)

def iSize (inode : Bytes) : BitVec 32 := BitVec.ofNat 32 (LittleEndian.get inode 4 4)

def iBlock (inode : Bytes) (k : Nat) : BitVec 32 :=
  BitVec.ofNat 32 (LittleEndian.get inode (40 + 4 * k) 4)

end TocinOS.Ext2

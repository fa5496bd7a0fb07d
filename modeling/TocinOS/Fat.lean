import TocinOS.Ide
import TocinOS.LittleEndian
import TocinOS.SparseBlocks

/-! The file reading half of the FAT driver `kernel/fat.c`: mounting, the walk
along the file allocation table, and `fat_read` and `fat_seek` on open files. -/

namespace TocinOS.Fat

abbrev Sector := Nat → BitVec 8

inductive FatType where
  | fat12
  | fat16
  | fat32
deriving DecidableEq

abbrev endOfChain : Nat := 0xFFFFFFFF

structure Bpb where
  bytesPerSector : Nat
  sectorsPerCluster : Nat
  reservedSectors : Nat
  fatCount : Nat
  rootEntryCount : Nat
  totalSectors16 : Nat
  sectorsPerFat16 : Nat
  totalSectors32 : Nat
  sectorsPerFat32 : Nat
  rootCluster : Nat

def field (sector : Sector) (offset width : Nat) : Nat :=
  LittleEndian.decode width fun i => sector (offset + i)

def Bpb.parse (sector : Sector) : Bpb where
  bytesPerSector := field sector 11 2
  sectorsPerCluster := field sector 13 1
  reservedSectors := field sector 14 2
  fatCount := field sector 16 1
  rootEntryCount := field sector 17 2
  totalSectors16 := field sector 19 2
  sectorsPerFat16 := field sector 22 2
  totalSectors32 := field sector 32 4
  sectorsPerFat32 := field sector 36 4
  rootCluster := field sector 44 4

structure Info where
  type : FatType
  fatStart : BitVec 32
  dataStart : BitVec 32
  rootStart : BitVec 32
  rootCluster : Nat
  clusterCount : Nat
  bytesPerSector : Nat
  sectorsPerCluster : Nat
  reservedSectors : Nat
  fatCount : Nat
  sectorsPerFat : Nat
  rootEntryCount : Nat

def Info.clusterSize (info : Info) : Nat := info.sectorsPerCluster * info.bytesPerSector

structure State where
  info : Info
  mounted : Bool
  currentDrive : BitVec 8
  partitionOffset : BitVec 32
  sectorBuffer : Sector
  reads : Nat

structure File where
  firstCluster : Nat
  currentCluster : Nat
  position : Nat
  size : Nat
  isOpen : Bool

/-- The drives: what the read with the given number finds at a sector, `none`
when `ide_read_sector` reports an error. -/
abbrev Ide := Nat → BitVec 8 → BitVec 32 → Option Sector

/-- The driver of `drivers/ide_driver.c`, in the states that the requests find it in. -/
def driver (states : Nat → TocinOS.Ide.State) : Ide := fun t drive lba =>
  let (result, data, _) := TocinOS.Ide.ideReadSector drive lba (fun _ => 0) (states t)
  if result ≤ 0 then none else some data

theorem driver_some {states : Nat → TocinOS.Ide.State} {t : Nat} {drive : BitVec 8} {lba : BitVec 32}
    {data : Sector} (h : driver states t drive lba = some data) {i : Nat} (hi : i < 512) :
    data i = (states t).sectors drive (TocinOS.Ide.sectorOf lba 0) i := by
  rw [driver] at h
  obtain ⟨s', -, hread | ⟨e, he, hread⟩⟩ := TocinOS.Ide.ideReadSector_cases drive lba (fun _ => 0) (states t)
  · rw [hread] at h
    dsimp only at h
    rw [if_neg (by decide), Option.some.injEq] at h
    rw [← h]
    exact if_pos hi
  · rw [hread] at h
    dsimp only at h
    rw [if_pos he.le] at h
    cases h

section

variable (ide : Ide)

def fatReadSector (s : State) (sector : BitVec 32) : State × Int :=
  let absSector := sector + s.partitionOffset
  match ide s.reads s.currentDrive absSector with
  | some data =>
    ({ s with
      reads := s.reads + 1
      sectorBuffer := fun i => if i < 512 then data i else s.sectorBuffer i }, 0)
  | none => ({ s with reads := s.reads + 1 }, -1)

def rootDirSectors (rootEntryCount bytesPerSector : Nat) : Nat :=
  (rootEntryCount * 32 + (bytesPerSector - 1)) / bytesPerSector

def Bpb.totalSectors (bpb : Bpb) : Nat :=
  if bpb.totalSectors16 ≠ 0 then bpb.totalSectors16 else bpb.totalSectors32

def fatDetectType (bpb : Bpb) : FatType :=
  let fatSize := if bpb.sectorsPerFat16 ≠ 0 then bpb.sectorsPerFat16 else bpb.sectorsPerFat32
  let usedSectors := bpb.reservedSectors + bpb.fatCount * fatSize +
    rootDirSectors bpb.rootEntryCount bpb.bytesPerSector
  let dataSectors := (bpb.totalSectors + (2 ^ 32 - usedSectors % 2 ^ 32)) % 2 ^ 32
  let clusterCount := dataSectors / bpb.sectorsPerCluster
  if clusterCount < 4085 then .fat12 else if clusterCount < 65525 then .fat16 else .fat32

def Info.ofBpb (bpb : Bpb) : Info :=
  let type := fatDetectType bpb
  let sectorsPerFat := if type = .fat32 then bpb.sectorsPerFat32 else bpb.sectorsPerFat16
  let fatStart := BitVec.ofNat 32 bpb.reservedSectors
  let rootStart := fatStart + BitVec.ofNat 32 bpb.fatCount * BitVec.ofNat 32 sectorsPerFat
  let dataStart := rootStart +
    BitVec.ofNat 32 (rootDirSectors bpb.rootEntryCount bpb.bytesPerSector)
  { type := type
    fatStart := fatStart
    dataStart := dataStart
    rootStart := rootStart
    rootCluster := if type = .fat32 then bpb.rootCluster else 0
    clusterCount :=
      (BitVec.ofNat 32 bpb.totalSectors - dataStart).toNat / bpb.sectorsPerCluster
    bytesPerSector := bpb.bytesPerSector
    sectorsPerCluster := bpb.sectorsPerCluster
    reservedSectors := bpb.reservedSectors
    fatCount := bpb.fatCount
    sectorsPerFat := sectorsPerFat
    rootEntryCount := bpb.rootEntryCount }

def fatMount (s : State) (drive : BitVec 8) : State × Int :=
  let (s, result) := fatReadSector ide { s with currentDrive := drive } 0
  if result ≠ 0 then (s, -1)
  else if s.sectorBuffer 510 ≠ 0x55 ∨ s.sectorBuffer 511 ≠ 0xAA then (s, -1)
  else ({ s with info := .ofBpb (.parse s.sectorBuffer), mounted := true }, 0)

def fatClusterToSector (s : State) (cluster : Nat) : BitVec 32 :=
  s.info.dataStart + (BitVec.ofNat 32 cluster - 2) * BitVec.ofNat 32 s.info.sectorsPerCluster

/-- Reads the `width` bytes at an offset of the file allocation table. As in the
source, a failing read leaves the bytes of the sector read before. -/
def readEntry (s : State) (fatOffset width : Nat) : State × Nat :=
  let fatSector := s.info.fatStart + BitVec.ofNat 32 (fatOffset / s.info.bytesPerSector)
  let entryOffset := fatOffset % s.info.bytesPerSector
  let (s, _) := fatReadSector ide s fatSector
  (s, field s.sectorBuffer entryOffset width)

def fatGetNextCluster (s : State) (cluster : Nat) : State × Nat :=
  if !s.mounted then (s, endOfChain)
  else
    match s.info.type with
    | .fat12 =>
      let (s, word) := readEntry ide s ((cluster + cluster / 2) % 2 ^ 32) 2
      let next := if cluster % 2 = 1 then word / 16 else word % 0x1000
      (s, if 0xFF8 ≤ next then endOfChain else next)
    | .fat16 =>
      let (s, next) := readEntry ide s (cluster * 2 % 2 ^ 32) 2
      (s, if 0xFFF8 ≤ next then endOfChain else next)
    | .fat32 =>
      let (s, word) := readEntry ide s (cluster * 4 % 2 ^ 32) 4
      let next := word % 0x10000000
      (s, if 0x0FFFFFF8 ≤ next then endOfChain else next)

/-- The number of bytes that one round of `fat_read` copies, with `left` bytes to go. -/
def Info.copySize (info : Info) (position left : Nat) : Nat :=
  let clusterOffset := position % info.clusterSize
  let clusterRemaining := info.clusterSize - clusterOffset
  let toRead := if left < clusterRemaining then left else clusterRemaining
  let sectorOffset := clusterOffset % info.bytesPerSector
  if toRead < info.bytesPerSector - sectorOffset then toRead
  else info.bytesPerSector - sectorOffset

/-- The reading loop, with the bytes read so far. Without fuel it has no result;
each round reads at least one byte, so `size` rounds are enough. -/
def readLoop (size : Nat) :
    Nat → State → File → List (BitVec 8) → Option (State × File × List (BitVec 8))
  | 0, s, file, buf =>
    if buf.length < size ∧ file.currentCluster ≠ endOfChain then none else some (s, file, buf)
  | fuel + 1, s, file, buf =>
    if buf.length < size ∧ file.currentCluster ≠ endOfChain then
      let clusterOffset := file.position % s.info.clusterSize
      let copySize := s.info.copySize file.position (size - buf.length)
      let sector := fatClusterToSector s file.currentCluster +
        BitVec.ofNat 32 (clusterOffset / s.info.bytesPerSector)
      let sectorOffset := clusterOffset % s.info.bytesPerSector
      let (s, result) := fatReadSector ide s sector
      if result ≠ 0 then some (s, file, buf)
      else
        let buf := buf ++ (List.range copySize).map fun i => s.sectorBuffer (sectorOffset + i)
        let position := (file.position + copySize) % 2 ^ 32
        let (s, cluster) :=
          if s.info.clusterSize ≤ clusterOffset + copySize then
            fatGetNextCluster ide s file.currentCluster
          else (s, file.currentCluster)
        readLoop size fuel s { file with position := position, currentCluster := cluster } buf
    else some (s, file, buf)

/-- `fat_read`: the state and file after it, the return register and the bytes
stored through the buffer. -/
def fatRead (s : State) (file : File) (size : Nat) :
    Option (State × File × BitVec 32 × List (BitVec 8)) :=
  if !s.mounted ∨ !file.isOpen then some (s, file, -1, [])
  else if file.size ≤ file.position then some (s, file, 0, [])
  else
    let size :=
      if file.size < (file.position + size) % 2 ^ 32 then file.size - file.position else size
    match readLoop ide size size s file [] with
    | none => none
    | some (s, file, buf) => some (s, file, BitVec.ofNat 32 buf.length, buf)

def walkChain : Nat → State → Nat → State × Nat
  | 0, s, cluster => (s, cluster)
  | n + 1, s, cluster =>
    if cluster ≠ endOfChain then
      let (s, cluster) := fatGetNextCluster ide s cluster
      walkChain n s cluster
    else (s, cluster)

def fatSeek (s : State) (file : File) (position : Nat) : State × File × Int :=
  if !file.isOpen then (s, file, -1)
  else
    let position := if file.size < position then file.size else position
    let targetClusterIndex := position / s.info.clusterSize
    let (s, cluster) := walkChain ide targetClusterIndex s file.firstCluster
    (s, { file with position := position, currentCluster := cluster }, 0)

end

end TocinOS.Fat

import TocinOS.Ide
import TocinOS.SparseBlocks

/-! The device file system of `fs/devfs.c`: node lookup, the driver table and the IDE
driver behind `/dev/hda` to `/dev/hdd`. -/

namespace TocinOS.Devfs

open SparseBlocks (copyAt)
open TocinOS.Ide (Byte Bytes sectorSize)

inductive DevType
  | char
  | block
  | dir
  deriving DecidableEq

structure DevNode where
  name : List Char
  type : DevType
  major : BitVec 32
  minor : BitVec 32
  children : List DevNode

abbrev devMajorMem : BitVec 32 := 1
abbrev devMajorIde : BitVec 32 := 3
abbrev devMajorTty : BitVec 32 := 4
abbrev devMajorSerial : BitVec 32 := 4
abbrev devMajorTtyaux : BitVec 32 := 5

structure Devices where
  ide : Ide.State
  readBuf : Bytes
  writeBuf : Bytes

/-- Minor number, buffer, size, offset. A read returns its result and the buffer. -/
abbrev DevRead :=
  BitVec 32 → Bytes → BitVec 32 → BitVec 32 → Devices → BitVec 32 × Bytes × Devices

abbrev DevWrite := BitVec 32 → Bytes → BitVec 32 → BitVec 32 → Devices → BitVec 32 × Devices

structure DevDriver where
  major : BitVec 32
  read : Option DevRead
  write : Option DevWrite

structure DeviceTree where
  root : DevNode
  drivers : List DevDriver

/-! ### The IDE driver -/

def driveOf (minor : BitVec 32) : BitVec 8 := (minor &&& 0x0F).setWidth 8

def chunk (size moved sectorOffset : BitVec 32) : BitVec 32 :=
  if size - moved < 512 - sectorOffset then size - moved else 512 - sectorOffset

def readLoop (drive : BitVec 8) (size : BitVec 32) :
    Nat → BitVec 32 → BitVec 32 → BitVec 32 → Bytes → Devices → BitVec 32 × Bytes × Devices
  | 0, _, _, bytesRead, dst, d => (bytesRead, dst, d)
  | fuel + 1, lba, sectorOffset, bytesRead, dst, d =>
    if bytesRead < size then
      let r := Ide.ideReadSector drive lba d.readBuf d.ide
      let d := { d with readBuf := r.2.1, ide := r.2.2 }
      if r.1 ≠ 0 then (bytesRead, dst, d)
      else
        let toCopy := chunk size bytesRead sectorOffset
        readLoop drive size fuel (lba + 1) 0 (bytesRead + toCopy)
          (copyAt bytesRead.toNat toCopy.toNat (fun i => d.readBuf (sectorOffset.toNat + i)) dst) d
    else (bytesRead, dst, d)

/-- Every round but the last moves at least one byte, so `size` rounds are enough. -/
def ideDeviceRead : DevRead := fun minor buffer size offset d =>
  readLoop (driveOf minor) size (size.toNat + 1) (offset / 512) (offset % 512) 0 buffer d

/-- Read the sector before a partial write. The result of the read is not looked at. -/
def fillPartial (drive : BitVec 8) (lba size bytesWritten sectorOffset : BitVec 32)
    (d : Devices) : Devices :=
  if sectorOffset ≠ 0 ∨ size - bytesWritten < 512 then
    let r := Ide.ideReadSector drive lba d.writeBuf d.ide
    { d with writeBuf := r.2.1, ide := r.2.2 }
  else d

def writeLoop (drive : BitVec 8) (size : BitVec 32) (src : Bytes) :
    Nat → BitVec 32 → BitVec 32 → BitVec 32 → Devices → BitVec 32 × Devices
  | 0, _, _, bytesWritten, d => (bytesWritten, d)
  | fuel + 1, lba, sectorOffset, bytesWritten, d =>
    if bytesWritten < size then
      let d := fillPartial drive lba size bytesWritten sectorOffset d
      let toCopy := chunk size bytesWritten sectorOffset
      let buf := copyAt sectorOffset.toNat toCopy.toNat (fun i => src (bytesWritten.toNat + i)) d.writeBuf
      let r := Ide.ideWriteSector drive lba buf d.ide
      let d := { d with writeBuf := buf, ide := r.2 }
      if r.1 ≠ 0 then (bytesWritten, d)
      else writeLoop drive size src fuel (lba + 1) 0 (bytesWritten + toCopy) d
    else (bytesWritten, d)

def ideDeviceWrite : DevWrite := fun minor buffer size offset d =>
  writeLoop (driveOf minor) size buffer (size.toNat + 1) (offset / 512) (offset % 512) 0 d

def ideDriver : DevDriver where
  major := devMajorIde
  read := some ideDeviceRead
  write := some ideDeviceWrite

/-! ### Nodes and paths -/

def devfsFindDriver (fs : DeviceTree) (major : BitVec 32) : Option DevDriver :=
  fs.drivers.find? fun drv => drv.major = major

def devFindNode (dir : DevNode) (name : List Char) : Option DevNode :=
  if dir.type ≠ .dir then none else dir.children.find? fun n => n.name = name

/-- `component` is the part of the current name read so far; it keeps 63 characters. -/
def resolveLoop (current : DevNode) (component : List Char) : List Char → Option DevNode
  | [] => if component = [] then some current else devFindNode current component
  | c :: path =>
    if c = '/' then
      if component = [] then resolveLoop current [] path
      else
        match devFindNode current component with
        | none => none
        | some next => resolveLoop next [] path
    else if component.length < 63 then resolveLoop current (component ++ [c]) path
    else resolveLoop current component path

def devfsResolvePath (fs : DeviceTree) : List Char → Option DevNode
  | '/' :: 'd' :: 'e' :: 'v' :: '/' :: path => resolveLoop fs.root [] path
  | '/' :: 'd' :: 'e' :: 'v' :: path => resolveLoop fs.root [] path
  | '/' :: path => resolveLoop fs.root [] path
  | _ => none

def devfsRead (fs : DeviceTree) (path : List Char) (buffer : Bytes) (size offset : BitVec 32)
    (d : Devices) : BitVec 32 × Bytes × Devices :=
  match devfsResolvePath fs path with
  | none => (-1, buffer, d)
  | some node =>
    if node.type = .dir then (-1, buffer, d)
    else
      match (devfsFindDriver fs node.major).bind DevDriver.read with
      | none => (-1, buffer, d)
      | some read => read node.minor buffer size offset d

def devfsWrite (fs : DeviceTree) (path : List Char) (buffer : Bytes) (size offset : BitVec 32)
    (d : Devices) : BitVec 32 × Devices :=
  match devfsResolvePath fs path with
  | none => (-1, d)
  | some node =>
    if node.type = .dir then (-1, d)
    else
      match (devfsFindDriver fs node.major).bind DevDriver.write with
      | none => (-1, d)
      | some write => write node.minor buffer size offset d

def charNode (name : String) (major minor : BitVec 32) : DevNode :=
  ⟨name.toList, .char, major, minor, []⟩

def diskNode (name : String) (minor : BitVec 32) : DevNode :=
  ⟨name.toList, .block, devMajorIde, minor, []⟩

def dirNode (name : String) : DevNode := ⟨name.toList, .dir, 0, 0, []⟩

/-- The state that `devfs_init` leaves, newest nodes and drivers first. The functions of
the other drivers are parameters. -/
def devfsInit (memDriver ttyDriver serialDriver : DevDriver) : DeviceTree where
  root :=
    { dirNode "dev" with
      children :=
        [dirNode "shm", dirNode "pts", diskNode "hdd" 3, diskNode "hdc" 2, diskNode "hdb" 1,
          diskNode "hda" 0, charNode "ttyS1" devMajorSerial 1, charNode "ttyS0" devMajorSerial 0,
          charNode "tty1" devMajorTty 1, charNode "tty0" devMajorTty 0,
          charNode "console" devMajorTtyaux 1, charNode "tty" devMajorTtyaux 0,
          charNode "urandom" devMajorMem 9, charNode "random" devMajorMem 8,
          charNode "zero" devMajorMem 5, charNode "null" devMajorMem 3] }
  drivers :=
    [ideDriver, { serialDriver with major := devMajorSerial },
      { ttyDriver with major := devMajorTty }, { memDriver with major := devMajorMem }]

/-! ### What a transfer does -/

def NamesDisk (fs : DeviceTree) (path : List Char) (drive : BitVec 8) : Prop :=
  ∃ node, devfsResolvePath fs path = some node ∧ node.type ≠ .dir ∧
    devfsFindDriver fs node.major = some ideDriver ∧ driveOf node.minor = drive

theorem devfsInit_namesDisk (memDriver ttyDriver serialDriver : DevDriver) (x : Fin 4) :
    NamesDisk (devfsInit memDriver ttyDriver serialDriver)
      ("/dev/hd".toList ++ [Char.ofNat (97 + x)]) (BitVec.ofNat 8 x) := by
  match x with
  | 0 => exact ⟨diskNode "hda" 0, rfl, nofun, rfl, rfl⟩
  | 1 => exact ⟨diskNode "hdb" 1, rfl, nofun, rfl, rfl⟩
  | 2 => exact ⟨diskNode "hdc" 2, rfl, nofun, rfl, rfl⟩
  | 3 => exact ⟨diskNode "hdd" 3, rfl, nofun, rfl, rfl⟩

theorem ideDeviceRead_result (minor : BitVec 32) (buffer : Bytes) (size offset : BitVec 32)
    (d : Devices) : (ideDeviceRead minor buffer size offset d).1 = 0 := by
  unfold ideDeviceRead readLoop
  split
  · dsimp only
    rw [if_pos (Ide.ideReadSector_ne_zero _ _ _ _)]
  · rfl

theorem ideDeviceWrite_zero (minor : BitVec 32) (buffer : Bytes) (offset : BitVec 32)
    (d : Devices) : ideDeviceWrite minor buffer 0 offset d = (0, d) := by
  unfold ideDeviceWrite writeLoop
  rw [if_neg (by decide)]

theorem NamesDisk.devfsRead_result {fs : DeviceTree} {path : List Char} {drive : BitVec 8}
    (h : NamesDisk fs path drive) (buffer : Bytes) (size offset : BitVec 32) (d : Devices) :
    (devfsRead fs path buffer size offset d).1 = 0 := by
  obtain ⟨node, hpath, htype, hdriver, -⟩ := h
  unfold devfsRead
  rw [hpath]
  dsimp only
  rw [if_neg htype, hdriver]
  exact ideDeviceRead_result _ _ _ _ _

theorem NamesDisk.devfsWrite_eq {fs : DeviceTree} {path : List Char} {drive : BitVec 8}
    (h : NamesDisk fs path drive) : ∃ minor, driveOf minor = drive ∧
      ∀ buffer size offset d,
        devfsWrite fs path buffer size offset d = ideDeviceWrite minor buffer size offset d := by
  obtain ⟨node, hpath, htype, hdriver, hdrive⟩ := h
  refine ⟨node.minor, hdrive, fun buffer size offset d => ?_⟩
  unfold devfsWrite
  rw [hpath]
  dsimp only
  rw [if_neg htype, hdriver]
  rfl

/-! ### The transfers against the bytes of the disk -/

def Devices.byteAt (d : Devices) (drive : BitVec 8) (p : Nat) : Byte :=
  d.ide.sectors drive (p / sectorSize) (p % sectorSize)

def Devices.withWaits (d : Devices) (waits : Nat → Ide.Wait) : Devices :=
  { d with ide := { d.ide with waits } }

def SameOutside (drive : BitVec 8) (offset n : Nat) (d d' : Devices) : Prop :=
  ∀ drive' p, ¬(drive' = drive ∧ offset ≤ p ∧ p < offset + n) →
    d'.byteAt drive' p = d.byteAt drive' p

/-- `devfs_read` and `devfs_write` on one disk, range and buffer. -/
structure TransfersExactly (fs : DeviceTree) (path : List Char) (drive : BitVec 8)
    (offset size : BitVec 32) (buffer : Bytes) (d : Devices) : Prop where
  read : ∀ dst,
    let r := devfsRead fs path dst size offset (d.withWaits fun _ => .ready)
    r.1 = size ∧ ∀ i < size.toNat, r.2.1 i = d.byteAt drive (offset.toNat + i)
  write :
    let r := devfsWrite fs path buffer size offset (d.withWaits fun _ => .ready)
    (∀ i < r.1.toNat, r.2.byteAt drive (offset.toNat + i) = buffer i) ∧
      SameOutside drive offset.toNat r.1.toNat d r.2
  faulty : ∀ waits,
    let r := devfsWrite fs path buffer size offset (d.withWaits waits)
    SameOutside drive offset.toNat r.1.toNat d r.2

theorem transfersExactly_iff {fs : DeviceTree} {path : List Char} {drive : BitVec 8}
    (hdisk : NamesDisk fs path drive) (offset size : BitVec 32) (buffer : Bytes) (d : Devices) :
    TransfersExactly fs path drive offset size buffer d ↔ size = 0 := by
  constructor
  · intro h
    rw [← (h.read buffer).1, hdisk.devfsRead_result]
  · rintro rfl
    obtain ⟨minor, -, hwrite⟩ := hdisk.devfsWrite_eq
    have hnone : ∀ waits, devfsWrite fs path buffer 0 offset (d.withWaits waits) =
        (0, d.withWaits waits) := fun waits => by
      rw [hwrite, ideDeviceWrite_zero]
    refine ⟨fun dst => ⟨hdisk.devfsRead_result _ _ _ _, fun i hi => absurd hi (by simp)⟩, ?_, ?_⟩
    · rw [hnone]
      exact ⟨fun i hi => absurd hi (by simp), fun drive' p _ => rfl⟩
    · intro waits
      rw [hnone]
      exact fun drive' p _ => rfl

def blankDevices : Devices where
  ide := { initialized := true, present := fun _ => true, sectors := fun _ _ _ => 0,
           waits := fun _ => .ready }
  readBuf := fun _ => 0
  writeBuf := fun _ => 0

def plainTree : DeviceTree :=
  devfsInit ⟨0, none, none⟩ ⟨0, none, none⟩ ⟨0, none, none⟩

theorem plainTree_empty_transfer :
    TransfersExactly plainTree "/dev/hda".toList 0 700 0 (fun _ => 7) blankDevices :=
  (transfersExactly_iff (devfsInit_namesDisk _ _ _ 0) 700 0 _ _).2 rfl

/-- Five bytes at offset 700 of a disk of zeros: the read reports nothing, the write reports
nothing and has changed byte 700. -/
theorem plainTree_transfer_lost :
    let r := devfsRead plainTree "/dev/hda".toList (fun _ => 1) 5 700 blankDevices
    let w := devfsWrite plainTree "/dev/hda".toList (fun _ => 7) 5 700 blankDevices
    (r.1 = 0 ∧ w.1 = 0 ∧ w.2.byteAt 0 700 = 7 ∧ blankDevices.byteAt 0 700 = 0) ∧
      ¬TransfersExactly plainTree "/dev/hda".toList 0 700 5 (fun _ => 7) blankDevices := by
  dsimp only
  have hdisk : NamesDisk plainTree "/dev/hda".toList 0 := devfsInit_namesDisk _ _ _ 0
  refine ⟨⟨hdisk.devfsRead_result _ _ _ _, by decide, by decide, rfl⟩, fun h => ?_⟩
  have hread := (h.read (fun _ => 1)).1
  rw [hdisk.devfsRead_result] at hread
  exact absurd hread (by decide)

end TocinOS.Devfs

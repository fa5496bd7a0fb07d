import TocinOS.Fat

/-! Opening a file of the root directory, `fat_open` of `kernel/fat.c`. Strings are
lists of bytes without the terminating zero. -/

namespace TocinOS.Fat

abbrev Str := List (BitVec 8)

def toUpper (c : BitVec 8) : BitVec 8 := if 0x61 ≤ c ∧ c ≤ 0x7A then c - 32 else c

def padded (width : Nat) (text : Str) : Str :=
  text ++ List.replicate (width - text.length) 0x20

def fatNameTo83 (name : Str) : Str :=
  let name := if name.head? = some 0x2F then name.tail else name
  let dotPos := (name.take 12).idxOf? 0x2E
  let base := name.take (min 8 (dotPos.getD 8))
  let ext :=
    match dotPos with
    | some dot => (name.drop (dot + 1)).take 3
    | none => []
  padded 8 (base.map toUpper) ++ padded 3 (ext.map toUpper)

inductive Search
  | goOn
  | ended
  | found (file : File)

def scanEntries (sector : Sector) (name83 : Str) : List Nat → Search
  | [] => .goOn
  | j :: js =>
    let entry : Sector := fun i => sector (32 * j + i)
    if entry 0 = 0 then .ended
    else if entry 0 = 0xE5 then scanEntries sector name83 js
    -- the mask of the long name entries covers the volume label
    else if entry 11 &&& 0x0F ≠ 0 then scanEntries sector name83 js
    else if entry 11 &&& 0x08 ≠ 0 then scanEntries sector name83 js
    else if (List.range 11).map entry = name83 then
      let first := field entry 20 2 * 2 ^ 16 + field entry 26 2
      .found ⟨first, first, 0, field entry 28 4, true⟩
    else scanEntries sector name83 js

section

variable (ide : Ide)

def searchSectors (name83 : Str) : Nat → State → BitVec 32 → State × Option File
  | 0, s, _ => (s, none)
  | n + 1, s, sector =>
    let (s, result) := fatReadSector ide s sector
    if result ≠ 0 then (s, none)
    else
      match scanEntries s.sectorBuffer name83 (List.range 16) with
      | .goOn => searchSectors name83 n s (sector + 1)
      | .ended => (s, none)
      | .found file => (s, some file)

def rootSector (s : State) : BitVec 32 :=
  if s.info.type = .fat32 then fatClusterToSector s s.info.rootCluster else s.info.rootStart

def Info.maxEntries (info : Info) : Nat :=
  if info.type = .fat32 then info.sectorsPerCluster * info.bytesPerSector / 32
  else info.rootEntryCount

/-- `fat_open` on a handle: the handle is written only when the file is found. -/
def fatOpen (s : State) (path : Str) (file : File) : State × File × Int :=
  if !s.mounted then (s, file, -1)
  else
    let searched := if 4 < s.info.maxEntries / 16 then 4 else s.info.maxEntries / 16
    match searchSectors ide (fatNameTo83 path) searched s (rootSector s) with
    | (s, some found) => (s, found, 0)
    | (s, none) => (s, file, -1)

end

end TocinOS.Fat

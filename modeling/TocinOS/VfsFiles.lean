import TocinOS.Bitmap
import TocinOS.FatOpen

/-! The file descriptors of `kernel/vfs.c`, over the files of the FAT driver. -/

namespace TocinOS.VfsFiles

open Fat (Ide Str)
open Function (update)

abbrev maxFds : Nat := 256

structure Fd where
  node : Bool
  position : Nat

structure State where
  fat : Fat.State
  fdBitmap : Nat → BitVec 8
  fdTable : Nat → Fd
  fatFiles : Nat → Fat.File

def vfsInit (fat : Fat.State) : State where
  fat
  fdBitmap := update (fun _ => 0) 0 7
  fdTable _ := ⟨false, 0⟩
  fatFiles _ := ⟨0, 0, 0, 0, false⟩

/-- The keyboard loop of a read from the standard input, with the characters typed during
the call. Without enough of them the call does not return. -/
def readStdin (size : Nat) : List (BitVec 8) → List (BitVec 8) → Option (List (BitVec 8))
  | buf, [] => if buf.length < size then none else some buf
  | buf, c :: typed =>
    if buf.length < size then
      if c = 0x08 then readStdin size buf.dropLast typed
      else if c = 0x0A then some (buf ++ [c])
      else readStdin size (buf ++ [c]) typed
    else some buf

section

variable (ide : Ide)

/-- The position of the descriptor after a read. The driver's count of bytes is taken as a
signed number. -/
def advance (position : Nat) (bytesRead : BitVec 32) : Nat :=
  if 0 < bytesRead.toInt then (position + bytesRead.toNat) % 2 ^ 32 else position

def vfsRead (s : State) (fd : Int) (size : BitVec 32) (typed : List (BitVec 8)) :
    Option (State × Int × List (BitVec 8)) :=
  if fd < 0 ∨ maxFds ≤ fd then some (s, -1, [])
  else if fd = 0 then
    match readStdin size.toNat [] typed with
    | some buf => some (s, (BitVec.ofNat 32 buf.length).toInt, buf)
    | none => none
  else if !(s.fdTable fd.toNat).node ∨ !(s.fatFiles fd.toNat).isOpen then some (s, -1, [])
  else
    match Fat.fatRead ide s.fat (s.fatFiles fd.toNat) size.toNat with
    | none => none
    | some (fat, file, bytesRead, bytes) =>
      let position := advance (s.fdTable fd.toNat).position bytesRead
      some ({ s with
        fat
        fatFiles := update s.fatFiles fd.toNat file
        fdTable := update s.fdTable fd.toNat ⟨true, position⟩ }, bytesRead.toInt, bytes)

end

end TocinOS.VfsFiles

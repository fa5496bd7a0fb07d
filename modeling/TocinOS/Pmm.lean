import TocinOS.Bitmap
import TocinOS.LittleEndian

/-! The physical memory manager of `kernel/mm/pmm.c`: a bitmap of the pages of
a fixed window, filled in from the memory map of the boot protocol. -/

namespace TocinOS.Pmm

abbrev memorySize : Nat := 128 * 1024 * 1024
abbrev pageSize : Nat := 4096
abbrev maxPages : Nat := memorySize / pageSize
abbrev bitmapSize : Nat := maxPages / 8
abbrev lowPages : Nat := 2 * 1024 * 1024 / pageSize
abbrev memUsable : Nat := 1
abbrev mmapEntrySize : Nat := 24
abbrev flagFb : BitVec 32 := 1#32 <<< 2

structure State where
  memoryBitmap : Nat → BitVec 8
  totalPages : Nat
  usedPages : Nat

structure BootInfo where
  flags : BitVec 32
  memmapAddr : BitVec 64
  memmapCount : BitVec 32
  memmapEntrySize : BitVec 32
  fbBase : BitVec 64
  fbHeight : BitVec 32
  fbPitch : BitVec 32

structure MmapEntry where
  base : BitVec 64
  length : BitVec 64
  type : Nat
deriving DecidableEq

abbrev Memory := BitVec 32 → BitVec 8

def Memory.entry (mem : Memory) (p : BitVec 32) : MmapEntry where
  base := BitVec.ofNat 64 (LittleEndian.decode 8 fun i => mem (p + BitVec.ofNat 32 i))
  length := BitVec.ofNat 64 (LittleEndian.decode 8 fun i => mem (p + BitVec.ofNat 32 (8 + i)))
  type := LittleEndian.decode 4 fun i => mem (p + BitVec.ofNat 32 (16 + i))

def pmmSetPageUsed (s : State) (page : Nat) : State :=
  { s with
    memoryBitmap := Bitmap.set s.memoryBitmap page
    usedPages := (s.usedPages + 1) % 2 ^ 32 }

def pmmInit (s : State) : State :=
  let s := { s with
    totalPages := maxPages
    usedPages := 0
    memoryBitmap := fun i => if i < bitmapSize then 0#8 else s.memoryBitmap i }
  (List.range lowPages).foldl pmmSetPageUsed s

def reservePage (s : State) (page : Nat) : State :=
  if !Bitmap.test s.memoryBitmap page then pmmSetPageUsed s page else s

def pmmReserveRange (s : State) (base length : BitVec 64) : State :=
  if length = 0 ∨ memorySize ≤ base.toNat then s
  else
    let wrapped := base + length
    let limit :=
      if wrapped < base ∨ memorySize < wrapped.toNat then memorySize else wrapped.toNat
    let first := base.toNat / pageSize
    let last := (limit + pageSize - 1) / pageSize
    (List.range' first (last - first)).foldl reservePage s

/-- The loop over the memory map: `n` entries from address `p` on. -/
def reserveEntries (mem : Memory) (stride : BitVec 32) : Nat → BitVec 32 → State → State
  | 0, _, s => s
  | n + 1, p, s =>
    let e := mem.entry p
    let s := if e.type ≠ memUsable then pmmReserveRange s e.base e.length else s
    reserveEntries mem stride n (p + stride) s

def pmmInitFromBootinfo (mem : Memory) (info : Option BootInfo) (s : State) : State :=
  let s := pmmInit s
  match info with
  | none => s
  | some info =>
    let s :=
      if info.memmapAddr ≠ 0 ∧ info.memmapCount ≠ 0 ∧
          mmapEntrySize ≤ info.memmapEntrySize.toNat then
        reserveEntries mem info.memmapEntrySize info.memmapCount.toNat
          (info.memmapAddr.setWidth 32) s
      else s
    if info.flags &&& flagFb ≠ 0 ∧ info.fbBase ≠ 0 then
      pmmReserveRange s info.fbBase (info.fbPitch.setWidth 64 * info.fbHeight.setWidth 64)
    else s

def allocFrom (s : State) : Nat → Nat → State × Nat
  | 0, _ => (s, 0)
  | n + 1, i =>
    if !Bitmap.test s.memoryBitmap i then (pmmSetPageUsed s i, i * pageSize)
    else allocFrom s n (i + 1)

def pmmAllocPage (s : State) : State × Nat := allocFrom s s.totalPages 0

def pmmFreePage (s : State) (address : Nat) : State :=
  let page := address / pageSize
  if Bitmap.test s.memoryBitmap page then
    { s with
      memoryBitmap := Bitmap.clear s.memoryBitmap page
      usedPages := (s.usedPages + (2 ^ 32 - 1)) % 2 ^ 32 }
  else s

end TocinOS.Pmm

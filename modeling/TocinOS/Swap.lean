import TocinOS.Vmm

/-! The swap manager of `kernel/mm/swap.c` with the storage of its simulated device. -/

namespace TocinOS.Swap

open Function (update)
open Pmm (pageSize)
open Vmm (pagePresent pageWrite pageUser)

abbrev maxSwapAreas : Nat := 4
abbrev swapMaxPages : Nat := 16 * 1024
abbrev swapStorageSize : Nat := 256 * pageSize
abbrev pteSwapped : BitVec 32 := 0x200
abbrev pteSwapSlotShift : Nat := 12
abbrev noSlot : BitVec 32 := -1

structure Area where
  startBlock : BitVec 32
  totalPages : Nat
  freePages : Nat
  bitmap : Nat → BitVec 8
  device : Int
  flags : BitVec 32

structure State where
  initialized : Bool
  areas : List Area
  storage : Nat → BitVec 32
  vm : Vmm.State

def bitmapFindFree (bitmap : Nat → BitVec 8) (maxBits : Nat) : Option Nat :=
  (List.range maxBits).find? fun i => !Bitmap.test bitmap i

def allocIn : Nat → List Area → Option (List Area × BitVec 32)
  | _, [] => none
  | i, sa :: rest =>
    let next := (allocIn (i + 1) rest).map fun (areas, slot) => (sa :: areas, slot)
    if sa.freePages = 0 then next
    else
      match bitmapFindFree sa.bitmap sa.totalPages with
      | some slot =>
        let sa := { sa with bitmap := Bitmap.set sa.bitmap slot, freePages := sa.freePages - 1 }
        some (sa :: rest, (BitVec.ofNat 32 i <<< 24) ||| BitVec.ofNat 32 slot)
      | none => next

def swapAllocSlot (s : State) : State × BitVec 32 :=
  if !s.initialized then (s, noSlot)
  else
    match allocIn 0 s.areas with
    | some (areas, slot) => ({ s with areas }, slot)
    | none => (s, noSlot)

def areaIndex (slot : BitVec 32) : Nat := ((slot >>> 24) &&& 0xFF#32).toNat

def pageSlot (slot : BitVec 32) : Nat := (slot &&& 0x00FFFFFF#32).toNat

def swapFreeSlot (s : State) (slot : BitVec 32) : State :=
  if slot = noSlot then s
  else
    match s.areas[areaIndex slot]? with
    | none => s
    | some sa =>
      if sa.totalPages ≤ pageSlot slot then s
      else
        let sa := { sa with
          bitmap := Bitmap.clear sa.bitmap (pageSlot slot)
          freePages := (sa.freePages + 1) % 2 ^ 32 }
        { s with areas := s.areas.set (areaIndex slot) sa }

def copyPage (fromMem : Nat → BitVec 32) (src : Nat) (toMem : Nat → BitVec 32) (dst : Nat) :
    Nat → BitVec 32 :=
  fun a => if dst ≤ a ∧ a < dst + pageSize then fromMem (src + (a - dst)) else toMem a

def storageOffset (slot : BitVec 32) : BitVec 32 := BitVec.ofNat 32 (pageSlot slot * pageSize)

/-- The sum wraps as it does in the source. -/
def fitsStorage (offset : BitVec 32) : Bool :=
  (offset + BitVec.ofNat 32 pageSize).toNat ≤ swapStorageSize

/-- `none` where the source returns −1; a device other than −1 is reported as written. -/
def swapWritePage (s : State) (slot physAddr : BitVec 32) : Option State :=
  match s.areas[areaIndex slot]? with
  | none => none
  | some sa =>
    if sa.device = -1 then
      let offset := storageOffset slot
      if fitsStorage offset then
        some { s with storage := copyPage s.vm.mem physAddr.toNat s.storage offset.toNat }
      else none
    else some s

def swapReadPage (s : State) (slot physAddr : BitVec 32) : Option State :=
  match s.areas[areaIndex slot]? with
  | none => none
  | some sa =>
    if sa.device = -1 then
      let offset := storageOffset slot
      if fitsStorage offset then
        let mem := copyPage s.storage offset.toNat s.vm.mem physAddr.toNat
        some { s with vm := { s.vm with mem } }
      else none
    else some s

def swapInit (s : State) : State :=
  if s.initialized then s
  else
    let embedded : Area :=
      { startBlock := 0
        totalPages := swapStorageSize / pageSize
        freePages := swapStorageSize / pageSize
        bitmap := fun _ => 0
        device := -1
        flags := 0 }
    { s with areas := [embedded], initialized := true }

/-- `pte` is the address of the entry; the address of the page only goes to `invlpg`. -/
def swapOutPage (s : State) (_virtAddr : BitVec 32) (pte : Nat) : State × Int :=
  if !s.initialized then (s, -1)
  else if pte = 0 ∨ s.vm.mem pte &&& pagePresent = 0 then (s, -1)
  else
    let physAddr := s.vm.mem pte &&& ~~~ 0xFFF#32
    let (s, slot) := swapAllocSlot s
    if slot = noSlot then (s, -1)
    else
      match swapWritePage s slot physAddr with
      | none => (swapFreeSlot s slot, -1)
      | some s =>
        let mem := update s.vm.mem pte ((slot <<< pteSwapSlotShift) ||| pteSwapped)
        let pmm := Pmm.pmmFreePage s.vm.pmm physAddr.toNat
        ({ s with vm := { mem, pmm } }, 0)

def swapInPage (s : State) (virtAddr pte : BitVec 32) : State × Int :=
  if !s.initialized then (s, -1)
  else if pte &&& pteSwapped = 0 then (s, -1)
  else
    let slot := pte >>> pteSwapSlotShift
    let (pmm, physAddr) := Pmm.pmmAllocPage s.vm.pmm
    let s := { s with vm := { s.vm with pmm } }
    if physAddr = 0 then (s, -1)
    else
      match swapReadPage s slot (BitVec.ofNat 32 physAddr) with
      | none => ({ s with vm := { s.vm with pmm := Pmm.pmmFreePage s.vm.pmm physAddr } }, -1)
      | some s =>
        let s := swapFreeSlot s slot
        let vm := Vmm.vmmMapPage s.vm (virtAddr &&& ~~~ 0xFFF#32) (BitVec.ofNat 32 physAddr)
          (pagePresent ||| pageWrite ||| pageUser)
        ({ s with vm }, 0)

/-- `allocated` says whether `kmalloc` returned memory for the bitmap. -/
def swapAddArea (s : State) (allocated : Bool) (device : Int) (start size : BitVec 32) :
    State × Int :=
  if maxSwapAreas ≤ s.areas.length then (s, -1)
  else
    let pages := min (size.toNat / pageSize) swapMaxPages
    if !allocated then (s, -1)
    else
      let area : Area :=
        { startBlock := start
          totalPages := pages
          freePages := pages
          bitmap := fun _ => 0
          device := device
          flags := 0 }
      ({ s with areas := s.areas ++ [area] }, 0)

end TocinOS.Swap

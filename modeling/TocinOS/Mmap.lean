import TocinOS.Demand

/-! The calls of `kernel/mm/vma.c` by which a process changes its areas. -/

namespace TocinOS.Demand

open Pmm (pmmFreePage)
open Vma (vmaCreate vmaInsert vmaDestroy vmaRemove vmaFind findFreeRegion)

abbrev protRead : BitVec 32 := 0x1
abbrev protWrite : BitVec 32 := 0x2
abbrev protExec : BitVec 32 := 0x4
abbrev mapShared : BitVec 32 := 0x01
abbrev mapPrivate : BitVec 32 := 0x02
abbrev mapFixed : BitVec 32 := 0x10
abbrev mapAnonymous : BitVec 32 := 0x20
abbrev mapLocked : BitVec 32 := 0x200
abbrev mapStack : BitVec 32 := 0x400
abbrev failed : BitVec 32 := -1

/-- Up to the next page boundary; the sum wraps. -/
def roundUp (length : BitVec 32) : BitVec 32 := (length + 4095) &&& ~~~ 0xFFF#32

def flagIf (word bit flag : BitVec 32) : BitVec 32 := if word &&& bit ≠ 0 then flag else 0

def vmFlagsOf (prot flags : BitVec 32) : BitVec 32 :=
  Vma.vmLazy ||| flagIf prot protRead Vma.vmRead ||| flagIf prot protWrite Vma.vmWrite |||
    flagIf prot protExec Vma.vmExec ||| flagIf flags mapShared Vma.vmShared |||
    flagIf flags mapPrivate Vma.vmPrivate ||| flagIf flags mapAnonymous Vma.vmAnonymous |||
    flagIf flags mapLocked Vma.vmLocked |||
    flagIf flags mapStack (Vma.vmStack ||| Vma.vmGrowsdown) |||
    (if flags &&& mapAnonymous = 0 then Vma.vmFile else 0)

def mmapAddress (s : Vma.State) (addr length flags : BitVec 32) : BitVec 32 :=
  if flags &&& mapFixed ≠ 0 then
    let mapAddr := pageOf addr
    if mapAddr < 0x1000 ∨ Vma.kernelBase ≤ mapAddr then 0 else mapAddr
  else findFreeRegion s length

def placeArea (s : Vma.State) (mapAddr length vmFlags fd offset : BitVec 32) :
    Vma.State × BitVec 32 :=
  match vmaCreate s mapAddr (mapAddr + length) vmFlags with
  | (s, none) => (s, failed)
  | (s, some i) =>
    let s := s.modify i fun a => { a with vmFd := fd, vmFileOffset := offset }
    let (s, result) := vmaInsert s i
    if result < 0 then (vmaDestroy s i, failed) else (s, mapAddr)

def mmapArea (s : Vma.State) (addr length prot flags fd offset : BitVec 32) :
    Vma.State × BitVec 32 :=
  let length := roundUp length
  if length = 0 then (s, failed)
  else
    let mapAddr := mmapAddress s addr length flags
    if mapAddr = 0 then (s, failed)
    else if flags &&& mapAnonymous = 0 ∧ fd.slt 0 then (s, failed)
    else placeArea s mapAddr length (vmFlagsOf prot flags) fd offset

def faultIn (s : State) (mapAddr length : BitVec 32) : State :=
  (List.range (length.toNat / 4096)).foldl
    (fun s j => (handlePageFault s (mapAddr + BitVec.ofNat 32 (4096 * j)) pfWrite).1) s

def sysMmap (s : State) (addr length prot flags fd offset : BitVec 32) : State × BitVec 32 :=
  if !s.hasMm then (s, failed)
  else
    let (vma, result) := mmapArea s.vma addr length prot flags fd offset
    let s := { s with vma }
    if result = failed ∨ flags &&& mapLocked = 0 then (s, result)
    else (faultIn s result (roundUp length), result)

def unmapPage (vm : Vmm.State) (a : BitVec 32) : Vmm.State :=
  let phys := Vmm.vmmGetPhysical vm a
  if phys = 0 then vm
  else
    let vm := Vmm.vmmUnmapPage vm a
    { vm with pmm := pmmFreePage vm.pmm phys.toNat }

/-- An area inside the range goes; where only a part of it is in the range it stays as it
is, since the source does not split areas. -/
def munmapArea (start stop : BitVec 32) (s : State) (i : Nat) : State :=
  let a := s.vma.pool i
  if a.vmEnd ≤ start ∨ stop ≤ a.vmStart then s
  else if start ≤ a.vmStart ∧ a.vmEnd ≤ stop then
    { s with vma := vmaDestroy (vmaRemove s.vma i) i }.setVm (a.pages.foldl unmapPage s.vm)
  else s

def sysMunmap (s : State) (addr length : BitVec 32) : State × Int :=
  if !s.hasMm then (s, -1)
  else
    let start := pageOf addr
    let stop := start + roundUp length
    (s.vma.areas.foldl (munmapArea start stop) s, 0)

def sysBrk (s : Vma.State) (addr : BitVec 32) : Vma.State × BitVec 32 :=
  if addr = 0 then (s, s.heapEnd)
  else
    let newBrk := roundUp addr
    if newBrk < s.heapStart then (s, failed)
    else if s.stackStart - 0x100000 < newBrk then (s, failed)
    else if s.heapEnd < newBrk then
      match vmaFind s s.heapStart with
      | some i => ({ s.modify i fun a => { a with vmEnd := newBrk } with heapEnd := newBrk }, newBrk)
      | none =>
        match vmaCreate s s.heapEnd newBrk
            (Vma.vmRead ||| Vma.vmWrite ||| Vma.vmAnonymous ||| Vma.vmLazy) with
        | (s, none) => (s, failed)
        -- the result of the insertion is not looked at
        | (s, some i) => ({ (vmaInsert s i).1 with heapEnd := newBrk }, newBrk)
    else ({ s with heapEnd := newBrk }, newBrk)

end TocinOS.Demand

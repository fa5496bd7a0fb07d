import TocinOS.PageCache
import TocinOS.Swap
import TocinOS.Vma

/-! The page fault handler of `kernel/mm/demand.c`. The counters `rss` and `pf_stats` and
the messages on the serial line are left out. -/

namespace TocinOS.Demand

open Pmm (pageSize pmmAllocPage pmmFreePage)
open PageCache (Cache vmmPageCacheLookup vmmPageCacheInsert vmmPageCacheEvict)
open Vma (Area)
open Vmm (pagePresent pageWrite pageUser vmmMapPage)

abbrev pageCow : BitVec 32 := 0x200
abbrev pfPresent : BitVec 32 := 0x01
abbrev pfWrite : BitVec 32 := 0x02
abbrev pfUser : BitVec 32 := 0x04

inductive PfResult
  | handled
  | sigbus
  | sigsegv
  | oom
  | swapError
deriving DecidableEq

/-- `hasMm` says whether `current_mm` is set; its areas are those of `vma`. -/
structure State where
  swap : Swap.State
  cache : Cache
  vma : Vma.State
  hasMm : Bool

abbrev State.vm (s : State) : Vmm.State := s.swap.vm

def State.setVm (s : State) (vm : Vmm.State) : State := { s with swap := { s.swap with vm } }

def pageOf (addr : BitVec 32) : BitVec 32 := addr &&& ~~~ 0xFFF#32

def getPte (vm : Vmm.State) (virtAddr : BitVec 32) : Option Nat :=
  let dirIdx := (virtAddr >>> 22).toNat
  let tableIdx := ((virtAddr >>> 12) &&& 0x3FF#32).toNat
  if vm.dirEntry dirIdx &&& pagePresent = 0 then none
  else some (Vmm.tableAddr (vm.dirEntry dirIdx) + 4 * tableIdx)

def allocAndMapPage (vm : Vmm.State) (virtAddr flags : BitVec 32) : Vmm.State × Int :=
  let (pmm, phys) := pmmAllocPage vm.pmm
  if phys = 0 then ({ vm with pmm }, -1)
  else
    let mem := Vmm.clearTable phys vm.mem
    let pageFlags := pagePresent ||| pageUser
    let pageFlags := if flags &&& Vma.vmWrite ≠ 0 then pageFlags ||| pageWrite else pageFlags
    (vmmMapPage { mem, pmm } (pageOf virtAddr) (BitVec.ofNat 32 phys) pageFlags, 0)

def demandPageAnon (s : State) (vma : Area) (faultAddr : BitVec 32) : State × Int :=
  let (vm, result) := allocAndMapPage s.vm (pageOf faultAddr) vma.vmFlags
  (s.setVm vm, if result < 0 then -1 else 0)

def filePageFlags (vmFlags : BitVec 32) : BitVec 32 :=
  let pageFlags := pagePresent ||| pageUser
  if vmFlags &&& Vma.vmWrite = 0 then pageFlags
  else if vmFlags &&& Vma.vmShared ≠ 0 then pageFlags ||| pageWrite
  else pageFlags ||| pageCow

def filePage (vma : Area) (faultAddr : BitVec 32) : BitVec 32 :=
  (vma.vmFileOffset + (pageOf faultAddr - vma.vmStart)) / 4096

def addReference (cache : Cache) (i : Nat) : Cache :=
  cache.modify i fun e => { e with refCount := e.refCount + 1 }

def markUptodate (cache : Cache) (entry : Option Nat) : Cache :=
  match entry with
  | none => cache
  | some i => cache.modify i fun e => { e with uptodate := true }

/-- The page of the file is not cached: a cleared page stands for the one that would be read. -/
def readFilePage (s : State) (vma : Area) (faultAddr : BitVec 32) : State × Int :=
  let (pmm, phys) := pmmAllocPage s.vm.pmm
  if phys = 0 then (s.setVm { s.vm with pmm }, -1)
  else
    let mem := Vmm.clearTable phys s.vm.mem
    let (cache, pmm, entry) := vmmPageCacheInsert s.cache pmm vma.vmFileInode
      (filePage vma faultAddr) (BitVec.ofNat 32 phys)
    let cache := markUptodate cache entry
    let vm := vmmMapPage { mem, pmm } (pageOf faultAddr) (BitVec.ofNat 32 phys)
      (filePageFlags vma.vmFlags)
    ({ s with cache }.setVm vm, 0)

def demandPageFile (s : State) (vma : Area) (faultAddr : BitVec 32) : State × Int :=
  match vmmPageCacheLookup s.cache vma.vmFileInode (filePage vma faultAddr) with
  | (cache, some i) =>
    let vm := vmmMapPage s.vm (pageOf faultAddr) (cache.pool i).physAddr
      (filePageFlags vma.vmFlags)
    ({ s with cache := addReference cache i }.setVm vm, 0)
  | (cache, none) => readFilePage { s with cache } vma faultAddr

def handleCowFault (s : State) (faultAddr pte : BitVec 32) : State × Int :=
  let oldPhys := pte &&& ~~~ 0xFFF#32
  let (pmm, newPhys) := pmmAllocPage s.vm.pmm
  if newPhys = 0 then (s.setVm { s.vm with pmm }, -1)
  else
    let mem := Swap.copyPage s.vm.mem oldPhys.toNat s.vm.mem newPhys
    let vm := vmmMapPage { mem, pmm } (pageOf faultAddr) (BitVec.ofNat 32 newPhys)
      (pagePresent ||| pageWrite ||| pageUser)
    (s.setVm vm, 0)

def handleStackGrowth (s : State) (i : Nat) (faultAddr : BitVec 32) : State × Int :=
  let start := (s.vma.pool i).vmStart
  if faultAddr < start ∧ start - 4096 ≤ faultAddr then
    let start := start - 4096
    let vma := { s.vma.modify i fun a => { a with vmStart := start } with stackStart := start }
    let (vm, result) := allocAndMapPage s.vm (pageOf faultAddr) (vma.pool i).vmFlags
    ({ s with vma }.setVm vm, result)
  else (s, -1)

def allocOrEvict (s : State) : State × Nat :=
  let (pmm, phys) := pmmAllocPage s.vm.pmm
  if phys = 0 then
    let (cache, pmm) := vmmPageCacheEvict s.cache pmm 4
    let (pmm, phys) := pmmAllocPage pmm
    ({ s with cache }.setVm { s.vm with pmm }, phys)
  else (s.setVm { s.vm with pmm }, phys)

def handleSwapIn (s : State) (faultAddr pte : BitVec 32) : State × Int :=
  let swapSlot := pte >>> Swap.pteSwapSlotShift
  let (s, phys) := allocOrEvict s
  if phys = 0 then (s, -1)
  else
    let (swap, result) := Swap.swapInPage s.swap (pageOf faultAddr) pte
    let s := { s with swap }
    if result < 0 then (s.setVm { s.vm with pmm := pmmFreePage s.vm.pmm phys }, -1)
    else
      let s := { s with swap := Swap.swapFreeSlot s.swap swapSlot }
      let vm := vmmMapPage s.vm (pageOf faultAddr) (BitVec.ofNat 32 phys)
        (pagePresent ||| pageWrite ||| pageUser)
      (s.setVm vm, 0)

def demandPage (s : State) (vma : Area) (faultAddr errorCode : BitVec 32) : State × PfResult :=
  if errorCode &&& pfWrite ≠ 0 ∧ vma.vmFlags &&& Vma.vmWrite = 0 then (s, .sigsegv)
  else if errorCode &&& pfUser ≠ 0 ∧
      vma.vmFlags &&& (Vma.vmRead ||| Vma.vmWrite ||| Vma.vmExec) = 0 then (s, .sigsegv)
  else
    let (s, result) :=
      if vma.vmFlags &&& Vma.vmAnonymous ≠ 0 then demandPageAnon s vma faultAddr
      else if vma.vmFlags &&& Vma.vmFile ≠ 0 then demandPageFile s vma faultAddr
      else demandPageAnon s vma faultAddr
    (s, if result < 0 then .oom else .handled)

def handlePageFault (s : State) (faultAddr errorCode : BitVec 32) : State × PfResult :=
  let ptePtr := getPte s.vm faultAddr
  let pte := (ptePtr.map s.vm.mem).getD 0
  if ptePtr.isSome ∧ pte &&& Swap.pteSwapped ≠ 0 ∧ pte &&& pagePresent = 0 then
    let (s, result) := handleSwapIn s faultAddr pte
    (s, if result = 0 then .handled else .swapError)
  else if errorCode &&& pfPresent ≠ 0 ∧ errorCode &&& pfWrite ≠ 0 ∧ pte &&& pageCow ≠ 0 then
    let (s, result) := handleCowFault s faultAddr pte
    (s, if result = 0 then .handled else .oom)
  else if !s.hasMm then (s, .sigsegv)
  else
    match Vma.vmaFind s.vma faultAddr with
    | some i => demandPage s (s.vma.pool i) faultAddr errorCode
    | none =>
      match Vma.vmaFindNearest s.vma faultAddr with
      | none => (s, .sigsegv)
      | some i =>
        if (s.vma.pool i).vmFlags &&& Vma.vmStack ≠ 0 then
          let (s, result) := handleStackGrowth s i faultAddr
          (s, if result = 0 then .handled else .sigsegv)
        else (s, .sigsegv)

end TocinOS.Demand

import TocinOS.Pmm

/-! The two-level page tables of `kernel/mm/vmm.c`. Memory is read and written
in words; page tables are pages taken from the physical memory manager. -/

namespace TocinOS.Vmm

open Function (update)

abbrev pagePresent : BitVec 32 := 0x1
abbrev pageWrite : BitVec 32 := 0x2
abbrev pageUser : BitVec 32 := 0x4
abbrev pagesPerTable : Nat := 1024
abbrev kernelDirectory : Nat := 0x9C000

structure State where
  mem : Nat → BitVec 32
  pmm : Pmm.State

def State.dirEntry (s : State) (dirIndex : Nat) : BitVec 32 :=
  s.mem (kernelDirectory + 4 * dirIndex)

def tableAddr (entry : BitVec 32) : Nat := (entry &&& ~~~ 0xFFF#32).toNat

def clearTable (table : Nat) (mem : Nat → BitVec 32) : Nat → BitVec 32 :=
  (List.range pagesPerTable).foldl (fun mem i => update mem (table + 4 * i) 0) mem

/-- Takes a page from the physical memory manager as the table of a directory entry. -/
def createTable (s : State) (dirIndex : Nat) : State :=
  let (pmm, tablePhys) := Pmm.pmmAllocPage s.pmm
  let entry := BitVec.ofNat 32 tablePhys ||| pagePresent ||| pageWrite ||| pageUser
  { pmm := pmm
    mem := clearTable tablePhys (update s.mem (kernelDirectory + 4 * dirIndex) entry) }

def vmmMapPage (s : State) (virtualAddr physicalAddr flags : BitVec 32) : State :=
  let dirIndex := (virtualAddr >>> 22).toNat
  let tableIndex := ((virtualAddr >>> 12) &&& 0x3FF#32).toNat
  let s := if s.dirEntry dirIndex &&& pagePresent = 0 then createTable s dirIndex else s
  let table := tableAddr (s.dirEntry dirIndex)
  { s with mem := update s.mem (table + 4 * tableIndex) (physicalAddr ||| pagePresent ||| flags) }

def vmmUnmapPage (s : State) (virtualAddr : BitVec 32) : State :=
  let dirIndex := (virtualAddr >>> 22).toNat
  let tableIndex := ((virtualAddr >>> 12) &&& 0x3FF#32).toNat
  if s.dirEntry dirIndex &&& pagePresent ≠ 0 then
    let table := tableAddr (s.dirEntry dirIndex)
    { s with mem := update s.mem (table + 4 * tableIndex) 0 }
  else s

def vmmGetPhysical (s : State) (virtualAddr : BitVec 32) : BitVec 32 :=
  let dirIndex := (virtualAddr >>> 22).toNat
  let tableIndex := ((virtualAddr >>> 12) &&& 0x3FF#32).toNat
  if s.dirEntry dirIndex &&& pagePresent = 0 then 0
  else
    let entry := s.mem (tableAddr (s.dirEntry dirIndex) + 4 * tableIndex)
    if entry &&& pagePresent = 0 then 0 else entry &&& ~~~ 0xFFF#32

end TocinOS.Vmm

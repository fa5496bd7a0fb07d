import TocinOS.IntrusiveList

/-! The areas of an address space, `kernel/mm/vma.c`. The areas are taken from a pool and
linked in the order of their addresses. -/

namespace TocinOS.Vma

open IntrusiveList (Bank)

abbrev vmaPoolSize : Nat := 256
abbrev kernelBase : BitVec 32 := 0xC0000000

abbrev vmRead : BitVec 32 := 0x001
abbrev vmWrite : BitVec 32 := 0x002
abbrev vmExec : BitVec 32 := 0x004
abbrev vmShared : BitVec 32 := 0x008
abbrev vmPrivate : BitVec 32 := 0x010
abbrev vmAnonymous : BitVec 32 := 0x020
abbrev vmFile : BitVec 32 := 0x040
abbrev vmLazy : BitVec 32 := 0x080
abbrev vmLocked : BitVec 32 := 0x100
abbrev vmGrowsdown : BitVec 32 := 0x200
abbrev vmStack : BitVec 32 := 0x800

structure Area where
  vmStart : BitVec 32 := 0
  vmEnd : BitVec 32 := 0
  vmFlags : BitVec 32 := 0
  vmFileInode : BitVec 32 := 0
  vmFileOffset : BitVec 32 := 0
  vmFd : BitVec 32 := -1
  refCount : BitVec 32 := 1

/-- The pool and one `mm_struct`: its list of areas, which starts at the head pointer of
`links`, and the bounds that the calls below read. The free areas are kept as a list. -/
structure State where
  initialized : Bool
  pool : Nat → Area
  freeList : List Nat
  links : Bank Unit Nat
  heapStart : BitVec 32
  heapEnd : BitVec 32
  stackStart : BitVec 32
  mmapBase : BitVec 32

def State.areas (s : State) : List Nat := s.links.nodes vmaPoolSize (s.links.head ())

def State.modify (s : State) (i : Nat) (f : Area → Area) : State :=
  { s with pool := Function.update s.pool i (f (s.pool i)) }

def vmaAllocatorInit (s : State) : State :=
  if s.initialized then s
  else { s with initialized := true, freeList := List.range vmaPoolSize }

def vmaAlloc (s : State) : State × Option Nat :=
  let s := vmaAllocatorInit s
  match s.freeList with
  | [] => (s, none)
  | i :: rest =>
    ({ s with
      freeList := rest
      pool := Function.update s.pool i {}
      links := (s.links.setNext i none).setPrev i none }, some i)

def vmaCreate (s : State) (start stop flags : BitVec 32) : State × Option Nat :=
  if stop ≤ start ∨ start &&& 0xFFF#32 ≠ 0 ∨ stop &&& 0xFFF#32 ≠ 0 then (s, none)
  else
    match vmaAlloc s with
    | (s, none) => (s, none)
    | (s, some i) =>
      (s.modify i fun a => { a with vmStart := start, vmEnd := stop, vmFlags := flags }, some i)

def vmaDestroy (s : State) (i : Nat) : State :=
  let s := s.modify i fun a => { a with refCount := a.refCount - 1 }
  if (s.pool i).refCount = 0 then { s with freeList := i :: s.freeList } else s

def vmaFind (s : State) (addr : BitVec 32) : Option Nat :=
  s.areas.find? fun i => decide ((s.pool i).vmStart ≤ addr) && decide (addr < (s.pool i).vmEnd)

def nearer (pool : Nat → Area) (addr : BitVec 32) (nearest : Option Nat) (i : Nat) : Option Nat :=
  if addr < (pool i).vmEnd then
    match nearest with
    | none => some i
    | some n => if (pool i).vmStart < (pool n).vmStart then some i else nearest
  else nearest

def vmaFindNearest (s : State) (addr : BitVec 32) : Option Nat :=
  s.areas.foldl (nearer s.pool addr) none

def insertionPoint (pool : Nat → Area) (start : BitVec 32) :
    Option Nat → List Nat → Option Nat × Option Nat
  | prev, [] => (prev, none)
  | prev, curr :: rest =>
    if (pool curr).vmStart < start then insertionPoint pool start (some curr) rest
    else (prev, some curr)

def vmaInsert (s : State) (i : Nat) : State × Int :=
  let vma := s.pool i
  if s.links.head () = none then
    ({ s with links := ((s.links.setHead () (some i)).setNext i none).setPrev i none }, 0)
  else
    let (prev, curr) := insertionPoint s.pool vma.vmStart none s.areas
    if prev.any fun p => decide (vma.vmStart < (s.pool p).vmEnd) then (s, -1)
    else if curr.any fun c => decide ((s.pool c).vmStart < vma.vmEnd) then (s, -1)
    else ({ s with links := s.links.insertBetween () prev i curr }, 0)

def vmaRemove (s : State) (i : Nat) : State := { s with links := s.links.remove () i }

/-- The loop of `find_free_region`; the sums wrap as they do in the source. -/
def findFrom (pool : Nat → Area) (size : BitVec 32) : List Nat → BitVec 32 → BitVec 32
  | [], addr => if addr + size ≤ kernelBase then addr else 0
  | i :: rest, addr =>
    if addr + size ≤ (pool i).vmStart then addr
    else findFrom pool size rest (if addr < (pool i).vmEnd then (pool i).vmEnd else addr)

def findFreeRegion (s : State) (size : BitVec 32) : BitVec 32 :=
  findFrom s.pool size s.areas s.mmapBase

def Area.pages (a : Area) : List (BitVec 32) :=
  (List.range ((a.vmEnd.toNat - a.vmStart.toNat) / 4096)).map fun j =>
    a.vmStart + BitVec.ofNat 32 (4096 * j)

theorem vmaDestroy_bounds (s : State) (i j : Nat) :
    ((vmaDestroy s i).pool j).vmStart = (s.pool j).vmStart ∧
      ((vmaDestroy s i).pool j).vmEnd = (s.pool j).vmEnd := by
  have hpool : (vmaDestroy s i).pool =
      (s.modify i fun a => { a with refCount := a.refCount - 1 }).pool := by
    simp only [vmaDestroy]
    split <;> rfl
  rw [hpool, State.modify]
  by_cases hj : j = i
  · subst hj
    simp only [Function.update_self, and_self]
  · simp only [Function.update_of_ne hj, and_self]

end TocinOS.Vma

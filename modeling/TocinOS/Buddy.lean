import TocinOS.Dyadic
import TocinOS.IntrusiveList

/-! The buddy allocator of `kernel/mm/buddy.c`: page descriptors, the free
lists threaded through them, splitting and coalescing. A descriptor pointer is
the index of the descriptor in `page_descriptors`; `none` is the null pointer. -/

namespace TocinOS.Buddy

open Function (update)

abbrev pageSize : Nat := 4096
abbrev maxOrder : Nat := 11
abbrev buddyStartAddr : Nat := 0x400000
abbrev buddyEndAddr : Nat := 0x8000000
abbrev buddyTotalPages : Nat := (buddyEndAddr - buddyStartAddr) / pageSize

structure Page where
  order : Nat := 0
  flags : Nat := 0
  refCount : Nat := 0

/-- The static data of the allocator. `links` holds the heads `free_lists[]`
and the `next` and `prev` fields of `page_descriptors[]`. As C statics all of
it starts out zero. -/
structure State where
  links : IntrusiveList.Bank Nat Nat := .empty
  freePages : Nat → Nat := fun _ => 0
  totalFree : Nat := 0
  totalUsed : Nat := 0
  pageDescriptors : Nat → Page := fun _ => {}
  buddyInitialized : Bool := false

def State.modifyPage (s : State) (page : Nat) (f : Page → Page) : State :=
  { s with pageDescriptors := update s.pageDescriptors page (f (s.pageDescriptors page)) }

def addrToPage (phys : Nat) : Option Nat :=
  if phys < buddyStartAddr ∨ buddyEndAddr ≤ phys then none
  else some ((phys - buddyStartAddr) / pageSize)

def pageToAddr (index : Nat) : Nat := buddyStartAddr + index * pageSize

def getBuddy (phys order : Nat) : Nat := phys ^^^ ((pageSize <<< order) % 2 ^ 32)

def removeFromFreeList (s : State) (page order : Nat) : State :=
  { s with
    links := s.links.remove order page
    freePages := update s.freePages order ((s.freePages order + (2 ^ 32 - 1)) % 2 ^ 32) }

def addToFreeList (s : State) (page order : Nat) : State :=
  let s := s.modifyPage page ({ · with order := order })
  { s with
    links := s.links.pushFront order page
    freePages := update s.freePages order ((s.freePages order + 1) % 2 ^ 32) }

def addMaxBlock (s : State) (addr : Nat) : State :=
  match addrToPage addr with
  | some page =>
    let s := addToFreeList s page (maxOrder - 1)
    { s with totalFree := (s.totalFree + 1 <<< (maxOrder - 1)) % 2 ^ 64 }
  | none => s

def buddyInit (s : State) : State :=
  if s.buddyInitialized then s
  else
    let s := { s with
      links :=
        { head := fun i => if i < maxOrder then none else s.links.head i
          next := fun i => if i < buddyTotalPages then none else s.links.next i
          prev := fun i => if i < buddyTotalPages then none else s.links.prev i }
      freePages := fun i => if i < maxOrder then 0 else s.freePages i
      totalFree := 0
      totalUsed := 0
      pageDescriptors := fun i => if i < buddyTotalPages then {} else s.pageDescriptors i }
    let maxBlockSize := pageSize <<< (maxOrder - 1)
    let numMaxBlocks := (buddyEndAddr - buddyStartAddr) / maxBlockSize
    let s := (List.range numMaxBlocks).foldl
      (fun s i => addMaxBlock s (buddyStartAddr + i * maxBlockSize)) s
    { s with buddyInitialized := true }

/-- The loop that looks for a non-empty list; the first argument is the number
of orders left below `MAX_ORDER`. -/
def findOrder (s : State) : Nat → Nat → Nat
  | 0, currentOrder => currentOrder
  | n + 1, currentOrder =>
    if (s.links.head currentOrder).isNone then findOrder s n (currentOrder + 1) else currentOrder

/-- The splitting loop, entered with `current_order = order + n`. -/
def splitBlock (page order : Nat) : Nat → State → State
  | 0, s => s
  | n + 1, s =>
    match addrToPage (getBuddy (pageToAddr page) (order + n)) with
    | some buddyPage => splitBlock page order n (addToFreeList s buddyPage (order + n))
    | none => splitBlock page order n s

def buddyAlloc (s : State) (order : Nat) : State × Nat :=
  if !s.buddyInitialized ∨ maxOrder ≤ order then (s, 0)
  else
    let currentOrder := findOrder s (maxOrder - order) order
    if maxOrder ≤ currentOrder then (s, 0)
    else
      match s.links.head currentOrder with
      | none => (s, 0)
      | some page =>
        let s := removeFromFreeList s page currentOrder
        let s := splitBlock page order (currentOrder - order) s
        let s := s.modifyPage page ({ · with order := order, refCount := 1, flags := 0 })
        ({ s with
          totalFree := (s.totalFree + (2 ^ 64 - 1 <<< order)) % 2 ^ 64
          totalUsed := (s.totalUsed + 1 <<< order) % 2 ^ 64 }, pageToAddr page)

/-- The coalescing loop; the first argument is the number of orders left below
`MAX_ORDER - 1`. The result is `none` when the walk of a free list meets more
nodes than there are descriptors, that is, when it does not end. -/
def coalesce : Nat → State → Nat → Nat → Nat → Option (State × Nat × Nat)
  | 0, s, _, page, order => some (s, page, order)
  | n + 1, s, addr, page, order =>
    let buddyAddr := getBuddy addr order
    match addrToPage buddyAddr with
    | none => some (s, page, order)
    | some buddyPage =>
      if (s.pageDescriptors buddyPage).order ≠ order ∨
          (s.pageDescriptors buddyPage).refCount ≠ 0 then some (s, page, order)
      else
        match s.links.scan buddyPage buddyTotalPages (s.links.head order) with
        | none => none
        | some false => some (s, page, order)
        | some true =>
          let s := removeFromFreeList s buddyPage order
          if buddyAddr < addr then coalesce n s buddyAddr buddyPage (order + 1)
          else coalesce n s addr page (order + 1)

def buddyFree (s : State) (addr order : Nat) : Option State :=
  if !s.buddyInitialized ∨ addr = 0 ∨ maxOrder ≤ order then some s
  else
    match addrToPage addr with
    | none => some s
    | some page =>
      let s := if 0 < (s.pageDescriptors page).refCount then
          s.modifyPage page (fun p => { p with refCount := p.refCount - 1 })
        else s
      if 0 < (s.pageDescriptors page).refCount then some s
      else
        let s := { s with
          totalFree := (s.totalFree + 1 <<< order) % 2 ^ 64
          totalUsed := (s.totalUsed + (2 ^ 64 - 1 <<< order)) % 2 ^ 64 }
        match coalesce (maxOrder - 1 - order) s addr page order with
        | none => none
        | some (s, page, order) =>
          some (addToFreeList (s.modifyPage page ({ · with order := order })) page order)

/-- The loop of `buddy_get_order`; the first argument is the number of orders left below
`MAX_ORDER - 1`. -/
def getOrderLoop (size : Nat) : Nat → Nat → Nat → Nat
  | 0, order, _ => order
  | n + 1, order, blockSize =>
    if blockSize < size then getOrderLoop size n (order + 1) ((blockSize <<< 1) % 2 ^ 32) else order

def buddyGetOrder (size : Nat) : Nat := getOrderLoop size (maxOrder - 1) 0 pageSize

end TocinOS.Buddy

import TocinOS.Buddy
import TocinOS.MemoryWords

/-! The slab allocator of `kernel/mm/slab.c`. A slab is a page from the buddy
allocator that begins with its header: `next`, `free_list`, `inuse` and `total`, one
word each. Free objects are linked through their first word. -/

namespace TocinOS.Slab

open MemoryWords

abbrev slabSize : Nat := 4096
abbrev headerSize : Nat := 16
abbrev nameLen : Nat := 32
abbrev maxSlabs : Nat := 64

structure Cache where
  name : List (BitVec 8) := []
  objSize : Nat := 0
  align : Nat := 0
  flags : Nat := 0
  slabsFull : Nat := 0
  slabsPartial : Nat := 0
  slabsFree : Nat := 0
  numSlabs : Nat := 0
  numObjs : Nat := 0
  numActive : Nat := 0
  ctor : Option (Nat → Memory → Memory) := none
  dtor : Option (Nat → Memory → Memory) := none

structure Heap where
  memory : Memory
  buddy : Buddy.State

abbrev next (slab : Nat) : Nat := slab
abbrev freeList (slab : Nat) : Nat := slab + 4
abbrev inuse (slab : Nat) : Nat := slab + 8
abbrev total (slab : Nat) : Nat := slab + 12

def pred32 (n : Nat) : Nat := (n + (2 ^ 32 - 1)) % 2 ^ 32

def succ32 (n : Nat) : Nat := (n + 1) % 2 ^ 32

def object (objStart objSize i : Nat) : Nat := (objStart + i * objSize) % 2 ^ 32

def linkObjects (objStart objSize n : Nat) (m : Memory) : Memory :=
  (List.range n).foldl (fun m i =>
    setWord m (object objStart objSize i) (object objStart objSize (i + 1))) m

def allocSlab (cache : Cache) (heap : Heap) : Nat × Cache × Heap :=
  match Buddy.buddyAlloc heap.buddy 0 with
  | (buddy, slab) =>
    if slab = 0 then (0, cache, { heap with buddy })
    else
      let m := setWord heap.memory (next slab) 0
      let m := setWord m (inuse slab) 0
      let count := (slabSize - headerSize) / cache.objSize
      let m := setWord m (total slab) count
      let objStart := slab + headerSize
      let m := setWord m (freeList slab) objStart
      let m := linkObjects objStart cache.objSize (pred32 count) m
      let m := setWord m (object objStart cache.objSize (pred32 count)) 0
      (slab, { cache with numSlabs := succ32 cache.numSlabs }, ⟨m, buddy⟩)

def pushPartial (slab : Nat) (cache : Cache) (heap : Heap) : Nat × Cache × Heap :=
  (slab, { cache with slabsPartial := slab },
    { heap with memory := setWord heap.memory (next slab) cache.slabsPartial })

def slabForAlloc (cache : Cache) (heap : Heap) : Nat × Cache × Heap :=
  if cache.slabsPartial ≠ 0 then (cache.slabsPartial, cache, heap)
  else if cache.slabsFree ≠ 0 then
    pushPartial cache.slabsFree
      { cache with slabsFree := word heap.memory (next cache.slabsFree) } heap
  else
    match allocSlab cache heap with
    | (slab, cache, heap) =>
      if slab = 0 then (0, cache, heap) else pushPartial slab cache heap

/-- The walk to the predecessor of a slab, over at most as many slabs as there are pages. -/
def findPrev (m : Memory) (slab : Nat) : Nat → Nat → Nat
  | 0, prev => prev
  | n + 1, prev =>
    if prev ≠ 0 ∧ word m (next prev) ≠ slab then findPrev m slab n (word m (next prev)) else prev

def removePartial (slab : Nat) (cache : Cache) (m : Memory) : Cache × Memory :=
  if cache.slabsPartial = slab then ({ cache with slabsPartial := word m (next slab) }, m)
  else
    let prev := findPrev m slab Buddy.buddyTotalPages cache.slabsPartial
    (cache, if prev ≠ 0 then setWord m (next prev) (word m (next slab)) else m)

def moveToFull (slab : Nat) (cache : Cache) (m : Memory) : Cache × Memory :=
  let (cache, m) := removePartial slab cache m
  ({ cache with slabsFull := slab }, setWord m (next slab) cache.slabsFull)

def runHook (hook : Option (Nat → Memory → Memory)) (obj : Nat) (m : Memory) : Memory :=
  match hook with
  | none => m
  | some f => f obj m

def kmemCacheAlloc (cache : Cache) (heap : Heap) : Nat × Cache × Heap :=
  match slabForAlloc cache heap with
  | (slab, cache, heap) =>
    if slab = 0 then (0, cache, heap)
    else
      let obj := word heap.memory (freeList slab)
      if obj = 0 then (0, cache, heap)
      else
        let m := setWord heap.memory (freeList slab) (word heap.memory obj)
        let m := setWord m (inuse slab) (succ32 (word m (inuse slab)))
        let cache := { cache with numActive := succ32 cache.numActive }
        let (cache, m) :=
          if word m (inuse slab) = word m (total slab) then moveToFull slab cache m else (cache, m)
        (obj, cache, { heap with memory := runHook cache.ctor obj m })

def slabOf (obj : Nat) : Nat := obj / slabSize * slabSize

def kmemCacheFree (cache : Cache) (obj : Nat) (m : Memory) : Cache × Memory :=
  if obj = 0 then (cache, m)
  else
    let m := runHook cache.dtor obj m
    let slab := slabOf obj
    let m := setWord m obj (word m (freeList slab))
    let m := setWord m (freeList slab) obj
    let m := setWord m (inuse slab) (pred32 (word m (inuse slab)))
    ({ cache with numActive := pred32 cache.numActive }, m)

/-! ### Caches by size -/

structure State where
  heap : Heap
  allCaches : Nat → Cache := fun _ => {}
  numCaches : Nat := 0
  sizeCaches : Nat → Option Nat := fun _ => none
  slabInitialized : Bool := false

def alignSize (size align : Nat) : Nat :=
  let align := if align = 0 then 4 else align
  (size + align - 1) % 2 ^ 32 &&& (2 ^ 32 - 1 - (align - 1))

def kmemCacheCreate (name : List (BitVec 8)) (size align flags : Nat)
    (ctor dtor : Option (Nat → Memory → Memory)) (s : State) : Option Nat × State :=
  if size = 0 ∨ maxSlabs ≤ s.numCaches then (none, s)
  else
    match (List.range maxSlabs).find? fun i => (s.allCaches i).name.isEmpty with
    | none => (none, s)
    | some i =>
      (some i, { s with
        numCaches := s.numCaches + 1
        allCaches := Function.update s.allCaches i
          { name := name.take (nameLen - 1)
            objSize := alignSize size align
            align := if align = 0 then 4 else align
            flags, ctor, dtor } })

def sizes : List Nat := [8, 16, 32, 64, 128, 256, 512, 1024, 2048, 4096]

def sizeName (size : Nat) : List (BitVec 8) :=
  let digit (n : Nat) : BitVec 8 := BitVec.ofNat 8 (48 + n)
  [0x73, 0x69, 0x7A, 0x65, 0x2D] ++
    (if 1000 ≤ size then [digit (size / 1000)] else []) ++
    (if 100 ≤ size then [digit (size % 1000 / 100)] else []) ++
    (if 10 ≤ size then [digit (size % 100 / 10)] else []) ++ [digit (size % 10)]

def slabInit (s : State) : State :=
  if s.slabInitialized then s
  else
    let s := { s with
      allCaches := fun i =>
        if i < maxSlabs then { s.allCaches i with name := [], objSize := 0 } else s.allCaches i }
    let s := sizes.zipIdx.foldl (fun s (size, i) =>
      match kmemCacheCreate (sizeName size) size 0 0 none none s with
      | (cache, s) => { s with sizeCaches := Function.update s.sizeCaches i cache }) s
    { s with slabInitialized := true }

def findSizeCache (s : State) (size : Nat) : Option Nat :=
  (List.range 10).findSome? fun i =>
    match s.sizeCaches i with
    | none => none
    | some k => if size ≤ (s.allCaches k).objSize then some k else none

def kmalloc (size : Nat) (s : State) : Nat × State :=
  if !s.slabInitialized ∨ size = 0 then (0, s)
  else
    match findSizeCache s size with
    | some k =>
      match kmemCacheAlloc (s.allCaches k) s.heap with
      | (obj, cache, heap) =>
        (obj, { s with heap, allCaches := Function.update s.allCaches k cache })
    | none =>
      match Buddy.buddyAlloc s.heap.buddy (Buddy.buddyGetOrder size) with
      | (buddy, addr) => (addr, { s with heap := { s.heap with buddy } })

/-- The call makes a slab that has no room for an object beside its header. `total - 1` is then
2^32 - 1, and the loop that links the objects stores into every page of the address space. -/
def runsAway (size : Nat) (s : State) : Bool :=
  s.slabInitialized && size != 0 &&
    match findSizeCache s size with
    | some k =>
      (slabSize - headerSize) / (s.allCaches k).objSize == 0 && (s.allCaches k).slabsPartial == 0 &&
        (s.allCaches k).slabsFree == 0 && (Buddy.buddyAlloc s.heap.buddy 0).2 != 0
    | none => false

/-- `kmalloc` for its callers: none where it does not come back. -/
def kmallocReturns (size : Nat) (s : State) : Option (Nat × State) :=
  if runsAway size s then none else some (kmalloc size s)

end TocinOS.Slab

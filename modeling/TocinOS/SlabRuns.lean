import TocinOS.SlabCache

/-! Runs of one cache: calls of `kmem_cache_alloc` and `kmem_cache_free`, with the owners
of the objects and the other users of the buddy allocator at work in between. -/

namespace TocinOS.Slab

open MemoryWords

structure World where
  cache : Cache
  heap : Heap
  slabs : List Nat
  others : List (Nat × Nat)
  out : List Nat

inductive Step : World → World → Prop
  | alloc {w : World} {obj : Nat} {cache : Cache} {heap : Heap}
      (h : kmemCacheAlloc w.cache w.heap = (obj, cache, heap)) :
      Step w { w with
        cache, heap
        slabs := obtained w.cache w.heap ++ w.slabs
        out := if obj = 0 then w.out else obj :: w.out }
  | free {w : World} {obj : Nat} {cache : Cache} {memory : Memory} (hobj : obj ∈ w.out)
      (h : kmemCacheFree w.cache obj w.heap.memory = (cache, memory)) :
      Step w { w with cache, heap := { w.heap with memory }, out := w.out.erase obj }
  | store {w : World} {memory : Memory}
      (h : ∀ x, slabOf x ∈ w.slabs → (∀ p ∈ w.out, x < p ∨ p + w.cache.objSize ≤ x) →
        memory x = w.heap.memory x) :
      Step w { w with heap := { w.heap with memory } }
  | otherAlloc {w : World} {order addr : Nat} {buddy : Buddy.State}
      (h : Buddy.buddyAlloc w.heap.buddy order = (buddy, addr)) :
      Step w { w with
        heap := { w.heap with buddy }
        others := if addr = 0 then w.others else (addr, order) :: w.others }
  | otherFree {w : World} {b : Nat × Nat} {buddy : Buddy.State} (hb : b ∈ w.others)
      (h : Buddy.buddyFree w.heap.buddy b.1 b.2 = some buddy) :
      Step w { w with heap := { w.heap with buddy }, others := w.others.erase b }

structure Start (w : World) : Prop where
  created : ∃ name size align flags s i s',
    kmemCacheCreate name size align flags w.cache.ctor w.cache.dtor s = (some i, s') ∧
      s'.allCaches i = w.cache
  size : 4 ≤ w.cache.objSize ∧ w.cache.objSize ≤ 4080
  ctor : Local w.cache.objSize w.cache.ctor
  dtor : Local w.cache.objSize w.cache.dtor
  buddy : Buddy.Reachable w.heap.buddy w.others
  slabs : w.slabs = []
  out : w.out = []

theorem kmemCacheCreate_lists {name : List (BitVec 8)} {size align flags i : Nat}
    {ctor dtor : Option (Nat → Memory → Memory)} {s s' : State}
    (h : kmemCacheCreate name size align flags ctor dtor s = (some i, s')) :
    (s'.allCaches i).slabsPartial = 0 ∧ (s'.allCaches i).slabsFull = 0 ∧
      (s'.allCaches i).slabsFree = 0 ∧ (s'.allCaches i).numActive = 0 ∧
      (s'.allCaches i).numSlabs = 0 := by
  simp only [kmemCacheCreate] at h
  split at h
  · simp at h
  · split at h
    · simp at h
    · obtain ⟨hi, rfl⟩ := Prod.mk.inj h
      cases hi
      simp only [Function.update_self, and_self]

structure Good (w : World) (part full : List Nat) (free : Nat → List Nat) : Prop where
  inv : Inv w.heap.memory w.cache part full free w.out
  owns : Owns w.heap (part ++ full) w.others
  slabs : (part ++ full).Perm w.slabs
  ctor : Local w.cache.objSize w.cache.ctor
  dtor : Local w.cache.objSize w.cache.dtor

theorem Inv.empty {c : Cache} (hs : 4 ≤ c.objSize ∧ c.objSize ≤ 4080)
    (h : c.slabsPartial = 0 ∧ c.slabsFull = 0 ∧ c.slabsFree = 0 ∧ c.numActive = 0 ∧
      c.numSlabs = 0) (m : Memory) : Inv m c [] [] (fun _ => []) [] where
  lists := ⟨h.1, h.2.1, List.nodup_nil, by simp, by simp, by simp⟩
  size := hs
  slabsFree := h.2.2.1
  available := by simp
  numActive := h.2.2.2.1
  numSlabs := h.2.2.2.2

theorem Start.good {w : World} (h : Start w) : Good w [] [] fun _ => [] := by
  obtain ⟨name, size, align, flags, s, i, s', hcreate, hcache⟩ := h.created
  have hlists := kmemCacheCreate_lists hcreate
  rw [hcache] at hlists
  have hinv : Inv w.heap.memory w.cache [] [] (fun _ => []) w.out := by
    rw [h.out]
    exact Inv.empty h.size hlists w.heap.memory
  exact ⟨hinv, h.buddy.outstanding, by rw [h.slabs]; exact .nil, h.ctor, h.dtor⟩

def InUse (m : Memory) (slab : Nat) : Prop := word m (inuse slab) = word m (total slab)

instance (m : Memory) (slab : Nat) : Decidable (InUse m slab) := inferInstanceAs (Decidable (_ = _))

/-- The step frees no object of a slab that is completely in use. -/
def KeepsFull (w w' : World) : Prop :=
  ∀ obj ∈ w.out, w'.out = w.out.erase obj → ¬InUse w.heap.memory (slabOf obj)

theorem Good.inUse_iff {w : World} {part full : List Nat} {free : Nat → List Nat} {a : Nat}
    (h : Good w part full free) (ha : a ∈ part ++ full) :
    InUse w.heap.memory a ↔ free a = [] :=
  (h.inv.lists.slab a ha).inuse_eq_total

theorem Good.step {w w' : World} {part full : List Nat} {free : Nat → List Nat}
    (h : Good w part full free) (hs : Step w w') :
    ∃ part' full' free', Good w' part' full' free' ∧
      (KeepsFull w w' → (∀ a ∈ full, free a = []) → ∀ a ∈ full', free' a = []) := by
  cases hs with
  | @alloc obj cache heap he =>
    rcases h.inv.alloc h.owns h.ctor with ⟨heq, hnone, -⟩ | ⟨p, c', heap', part', full', free', heq,
      hne, hafter, hfull⟩
    · rw [he] at heq
      obtain ⟨rfl, hrest⟩ := Prod.mk.inj heq
      cases hrest
      exact ⟨part, full, free, ⟨h.inv, h.owns, by rw [hnone]; exact h.slabs, h.ctor, h.dtor⟩,
        fun _ hfull => hfull⟩
    · rw [he] at heq
      obtain ⟨rfl, hrest⟩ := Prod.mk.inj heq
      cases hrest
      refine ⟨part', full', free', ⟨?_, hafter.owns, hafter.slabs.trans (h.slabs.append_left _),
        ?_, ?_⟩, fun _ hall a ha => (hfull a ha).elim id fun ⟨ha', he⟩ => he.trans (hall a ha')⟩
      · show Inv _ _ _ _ _ (if obj = 0 then w.out else obj :: w.out)
        rw [if_neg hne]
        exact hafter.inv
      · show Local cache.objSize cache.ctor
        rw [hafter.kind.objSize, hafter.kind.ctor]
        exact h.ctor
      · show Local cache.objSize cache.dtor
        rw [hafter.kind.objSize, hafter.kind.dtor]
        exact h.dtor
  | @free obj cache memory hobj he =>
    obtain ⟨c', m', free', heq, hkind, hinv, hsame⟩ := h.inv.release hobj h.dtor
    rw [he] at heq
    cases heq
    refine ⟨part, full, free', ⟨hinv, h.owns, h.slabs, ?_, ?_⟩, fun hkeeps hall a ha => ?_⟩
    rotate_left 2
    · have hslab := (h.inUse_iff (List.mem_append_right _ ha)).mpr (hall a ha)
      rw [hsame a fun heq => hkeeps obj hobj rfl (heq ▸ hslab), hall a ha]
    · show Local cache.objSize cache.ctor
      rw [hkind.objSize, hkind.ctor]
      exact h.ctor
    · show Local cache.objSize cache.dtor
      rw [hkind.objSize, hkind.dtor]
      exact h.dtor
  | store he =>
    have hlists := h.inv.lists.congr h.inv.size.1 fun x hx hout =>
      he x (h.slabs.subset hx) hout
    exact ⟨part, full, free,
      ⟨{ h.inv with lists := hlists }, h.owns, h.slabs, h.ctor, h.dtor⟩, fun _ hfull => hfull⟩
  | @otherAlloc order addr buddy he =>
    rcases h.owns.alloc order with heq | ⟨t, a, heq, hne, ho⟩
    · rw [he] at heq
      cases heq
      exact ⟨part, full, free, ⟨h.inv, h.owns, h.slabs, h.ctor, h.dtor⟩, fun _ hfull => hfull⟩
    · rw [he] at heq
      cases heq
      refine ⟨part, full, free, ⟨h.inv, ?_, h.slabs, h.ctor, h.dtor⟩, fun _ hfull => hfull⟩
      show Buddy.Outstanding buddy (_ ++ if addr = 0 then w.others else (addr, order) :: w.others)
      rw [if_neg hne]
      exact ho.perm List.perm_middle.symm
  | @otherFree b buddy hb he =>
    have hperm : ((part ++ full).map (·, 0) ++ w.others).Perm
        (b :: ((part ++ full).map (·, 0) ++ w.others.erase b)) :=
      ((List.perm_cons_erase hb).append_left _).trans List.perm_middle
    obtain ⟨t, ht, ho⟩ := (h.owns.perm hperm).free List.mem_cons_self
    rw [he, Option.some.injEq] at ht
    subst ht
    rw [List.erase_cons_head] at ho
    exact ⟨part, full, free, ⟨h.inv, ho, h.slabs, h.ctor, h.dtor⟩, fun _ hfull => hfull⟩

theorem Good.run {w w' : World} (h : Start w) (hr : Relation.ReflTransGen Step w w') :
    ∃ part full free, Good w' part full free := by
  induction hr with
  | refl => exact ⟨_, _, _, h.good⟩
  | tail _ hs ih =>
    obtain ⟨part, full, free, hgood⟩ := ih
    obtain ⟨part', full', free', hgood', -⟩ := hgood.step hs
    exact ⟨part', full', free', hgood'⟩

/-- The slabs `part` and `full` on the lists of the cache, the third list being empty, with
the free objects `free` of each. -/
structure Accounted (w : World) (part full : List Nat) (free : Nat → List Nat) : Prop where
  onPartial : Chain w.heap.memory w.cache.slabsPartial part
  onFull : Chain w.heap.memory w.cache.slabsFull full
  noneFree : w.cache.slabsFree = 0
  onOneList : (part ++ full).Perm w.slabs ∧ (part ++ full).Nodup
  disjoint : w.out.Pairwise fun p q => p + w.cache.objSize ≤ q ∨ q + w.cache.objSize ≤ p
  inside : ∀ p ∈ w.out, ∃ a ∈ w.slabs,
    a + headerSize ≤ p ∧ p + w.cache.objSize ≤ a + slabSize
  slots : ∀ a ∈ w.slabs,
    SlabInv w.heap.memory w.cache.objSize a (free a) (w.out.filter fun p => slabOf p = a) ∧
      (free a ++ w.out.filter fun p => slabOf p = a).Nodup
  numActive : w.cache.numActive = w.out.length
  numSlabs : w.cache.numSlabs = w.slabs.length
  objectFound : ∀ slab cache heap, slabForAlloc w.cache w.heap = (slab, cache, heap) →
    slab ≠ 0 → word heap.memory (freeList slab) ≠ 0

/-- The objects, the free lists, the slab lists and the counters of a cache agree after
every sequence of calls. -/
theorem cache_accounted {w w' : World} (h : Start w) (hr : Relation.ReflTransGen Step w w') :
    ∃ part full free, Accounted w' part full free := by
  obtain ⟨part, full, free, hgood⟩ := Good.run h hr
  have hlists := hgood.inv.lists
  have hpos : 0 < w'.cache.objSize := Nat.lt_of_lt_of_le (by decide) hgood.inv.size.1
  refine ⟨part, full, free, hlists.onPartial, hlists.onFull, hgood.inv.slabsFree,
    ⟨hgood.slabs, hlists.nodup⟩, hlists.out_disjoint hpos, ?_, ?_, hgood.inv.numActive,
    hgood.inv.numSlabs.trans hgood.slabs.length_eq, ?_⟩
  · intro p hp
    exact ⟨slabOf p, hgood.slabs.subset (hlists.owner p hp), slot_bounds hpos (hlists.slot hp)⟩
  · intro a ha
    have hslab := hlists.slab a (hgood.slabs.symm.subset ha)
    exact ⟨hslab, hslab.nodup hpos⟩
  · intro slab cache heap he hne
    rcases hgood.inv.slabForAlloc hgood.owns with ⟨heq, _⟩ | ⟨a, part', free', c', heap', heq,
      hafter, -⟩
    · rw [he] at heq
      exact absurd (Prod.mk.inj heq).1 hne
    · rw [he] at heq
      obtain ⟨rfl, hrest⟩ := Prod.mk.inj heq
      cases hrest
      obtain ⟨obj, rest, -, hobj, hobj'⟩ := hafter.inv.exists_object
      rwa [hobj]

def pageHeap : Heap := ⟨fun _ => 0, Buddy.buddyInit {}⟩

def largeCache : Cache :=
  ((kmemCacheCreate [0x62] 2048 0 0 none none { heap := pageHeap }).2).allCaches 0

def largeWorld : World := ⟨largeCache, pageHeap, [], [], []⟩

theorem largeWorld_start : Start largeWorld :=
  ⟨⟨[0x62], 2048, 0, 0, { heap := pageHeap }, 0, _, rfl, rfl⟩, by decide, local_none _,
    local_none _, .refl, rfl, rfl⟩

theorem largeWorld_accounted :
    Start largeWorld ∧ (kmemCacheAlloc largeCache pageHeap).1 = 0x7C00010 ∧
      ∃ w part full free, w.out = [0x7C00010] ∧ Relation.ReflTransGen Step largeWorld w ∧
        Accounted w part full free := by
  have hobj : (kmemCacheAlloc largeCache pageHeap).1 = 0x7C00010 := by decide
  have hrun : Relation.ReflTransGen Step largeWorld _ := .single (.alloc rfl)
  obtain ⟨part, full, free, h⟩ := cache_accounted largeWorld_start hrun
  refine ⟨largeWorld_start, hobj, _, part, full, free, ?_, hrun, h⟩
  show (if (kmemCacheAlloc largeCache pageHeap).1 = 0 then [] else
    [(kmemCacheAlloc largeCache pageHeap).1]) = _
  rw [hobj]
  rfl

/-! ### Pages for new slabs -/

/-- In runs that free no object of a slab that is completely in use, a new page is taken from the
buddy allocator only when all slabs are. -/
theorem new_page_when_in_use {w w' : World} (h : Start w)
    (hr : Relation.ReflTransGen (fun u v => Step u v ∧ KeepsFull u v) w w')
    (hnew : obtained w'.cache w'.heap ≠ []) : ∀ a ∈ w'.slabs, InUse w'.heap.memory a := by
  have hinv : ∃ part full free, Good w' part full free ∧ ∀ a ∈ full, free a = [] := by
    clear hnew
    induction hr with
    | refl => exact ⟨_, _, _, h.good, nofun⟩
    | tail _ hs ih =>
      obtain ⟨part, full, free, hgood, hfull⟩ := ih
      obtain ⟨part', full', free', hgood', hfull'⟩ := hgood.step hs.1
      exact ⟨part', full', free', hgood', hfull' hs.2 hfull⟩
  obtain ⟨part, full, free, hgood, hfull⟩ := hinv
  have hnone : w'.cache.slabsPartial = 0 := by
    by_contra hne
    exact hnew (if_neg fun hall => hne hall.1)
  obtain rfl : part = [] := Chain.eq_nil (hnone ▸ hgood.inv.lists.onPartial)
  intro a ha
  have hmem := hgood.slabs.symm.subset ha
  exact (hgood.inUse_iff hmem).mpr (hfull a hmem)

def afterAlloc (w : World) : World where
  cache := (kmemCacheAlloc w.cache w.heap).2.1
  heap := (kmemCacheAlloc w.cache w.heap).2.2
  slabs := obtained w.cache w.heap ++ w.slabs
  others := w.others
  out := if (kmemCacheAlloc w.cache w.heap).1 = 0 then w.out
    else (kmemCacheAlloc w.cache w.heap).1 :: w.out

def afterFree (w : World) (obj : Nat) : World where
  cache := (kmemCacheFree w.cache obj w.heap.memory).1
  heap := { w.heap with memory := (kmemCacheFree w.cache obj w.heap.memory).2 }
  slabs := w.slabs
  others := w.others
  out := w.out.erase obj

theorem second_page_when_in_use :
    obtained (afterAlloc largeWorld).cache (afterAlloc largeWorld).heap ≠ [] ∧
      ∀ a ∈ (afterAlloc largeWorld).slabs, InUse (afterAlloc largeWorld).heap.memory a := by
  have hnew : obtained (afterAlloc largeWorld).cache (afterAlloc largeWorld).heap ≠ [] := by
    decide +kernel
  exact ⟨hnew, new_page_when_in_use largeWorld_start (.single ⟨.alloc rfl, nofun⟩) hnew⟩

/-- One object is allocated and freed. Its slab stays on the full list, and the next call takes a
second page. -/
theorem freed_slab_not_reused :
    Relation.ReflTransGen Step largeWorld (afterFree (afterAlloc largeWorld) 0x7C00010) ∧
      let w := afterFree (afterAlloc largeWorld) 0x7C00010
      obtained w.cache w.heap ≠ [] ∧ ∃ a ∈ w.slabs, ¬InUse w.heap.memory a := by
  refine ⟨(Relation.ReflTransGen.single (.alloc rfl)).tail (.free (by decide +kernel) rfl), ?_⟩
  dsimp only
  decide +kernel

end TocinOS.Slab

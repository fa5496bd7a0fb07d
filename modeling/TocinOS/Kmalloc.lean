import TocinOS.SlabRuns

/-! Runs of `kmalloc`: the ten size caches and the blocks handed out directly share the
buddy allocator. The allocations keep apart as long as no call asks for more than half a
page and at most a page, or for more than the largest block. -/

namespace TocinOS.Buddy

theorem getOrderLoop_spec {size n order blockSize : Nat} (hb : blockSize = pageSize * 2 ^ order)
    (hs : size ≤ pageSize * 2 ^ (order + n)) (hle : order + n ≤ maxOrder - 1) :
    size ≤ pageSize * 2 ^ getOrderLoop size n order blockSize := by
  induction n generalizing order blockSize with
  | zero => exact hs
  | succ n ih =>
    rw [getOrderLoop]
    split
    · have hpow : 2 ^ (order + 1) ≤ 2 ^ (maxOrder - 1) := Nat.pow_le_pow_right (by decide) (by omega)
      refine ih ?_ (by rwa [Nat.add_right_comm]) (by omega)
      simp only [maxOrder, pageSize, Nat.pow_succ] at *
      rw [Nat.shiftLeft_eq, hb, Nat.mod_eq_of_lt (by omega)]
      omega
    · rw [← hb]
      omega

theorem le_buddyGetOrder {size : Nat} (h : size ≤ pageSize * 2 ^ (maxOrder - 1)) :
    size ≤ pageSize * 2 ^ buddyGetOrder size :=
  getOrderLoop_spec (Nat.mul_one _).symm (by rwa [Nat.zero_add]) (by decide)

end TocinOS.Buddy

namespace TocinOS.Slab

open MemoryWords Function
open Function (update)

variable {a k size : Nat} {heap : Heap} {slabs : List Nat} {blocks : List (Nat × Nat)}

variable {b : Nat × Nat} {i : Nat}

theorem regions_apart {c : Nat × Nat} (h : ∀ x, ¬ (Buddy.inRegion b x ∧ Buddy.inRegion c x)) :
    b.1 + Buddy.pageSize * 2 ^ b.2 ≤ c.1 ∨ c.1 + Buddy.pageSize * 2 ^ c.2 ≤ b.1 := by
  have hb := Nat.two_pow_pos b.2
  have hc := Nat.two_pow_pos c.2
  by_contra hcon
  refine h (max b.1 c.1) ?_
  simp only [Buddy.inRegion, Buddy.pageSize] at *
  omega

theorem Owns.slab_block (h : Owns heap slabs blocks) (ha : a ∈ slabs) (hb : b ∈ blocks) :
    a + slabSize ≤ b.1 ∨ b.1 + Buddy.pageSize * 2 ^ b.2 ≤ a :=
  regions_apart ((List.pairwise_append.mp h.disjoint).2.2 (a, 0) (List.mem_map_of_mem ha) b hb)

theorem Owns.slabs_nodup (h : Owns heap slabs blocks) : slabs.Nodup := by
  have hpair := (List.pairwise_append.mp h.disjoint).1
  refine (List.pairwise_map.mp hpair).imp fun {a b} hab heq => hab a ?_
  subst heq
  simp [Buddy.inRegion]

/-! ### The size caches -/

structure Sized (s : State) : Prop where
  initialized : s.slabInitialized = true
  sizeCaches : ∀ k < 10, s.sizeCaches k = some k
  objSize : ∀ k < 10, (s.allCaches k).objSize = 8 * 2 ^ k
  ctor : ∀ k < 10, (s.allCaches k).ctor = none

structure Used (s : State) (i : Nat) : Prop where
  used : ∀ j < i, (s.allCaches j).name ≠ []
  empty : ∀ j, i ≤ j → j < maxSlabs → (s.allCaches j).name = []
  numCaches : s.numCaches = i

def newCache (name : List (BitVec 8)) (size : Nat) : Cache :=
  { name := name.take (nameLen - 1), objSize := alignSize size 0, align := 4 }

theorem Used.kmemCacheCreate {s : State} (h : Used s i) (hi : i < maxSlabs) (hs : size ≠ 0)
    (name : List (BitVec 8)) : kmemCacheCreate name size 0 0 none none s =
      (some i, { s with
        numCaches := i + 1
        allCaches := update s.allCaches i (newCache name size) }) := by
  have hfind : (List.range maxSlabs).find? (fun j => (s.allCaches j).name.isEmpty) = some i := by
    rw [List.find?_range_eq_some]
    refine ⟨by rw [h.empty i (Nat.le_refl i) hi, List.isEmpty_nil], List.mem_range.mpr hi, ?_⟩
    intro j hj
    simpa using h.used j hj
  have hroom : ¬ (size = 0 ∨ maxSlabs ≤ s.numCaches) := by
    rw [h.numCaches]
    omega
  rw [Slab.kmemCacheCreate, if_neg hroom, hfind, h.numCaches]
  rfl

theorem Used.add {s : State} (h : Used s i) {c : Cache} (hc : c.name ≠ []) (f : Nat → Option Nat) :
    Used { s with numCaches := i + 1, allCaches := update s.allCaches i c, sizeCaches := f }
      (i + 1) := by
  refine ⟨fun j hj => ?_, fun j hj hlt => ?_, rfl⟩ <;> dsimp only
  · by_cases heq : j = i
    · rwa [heq, update_self]
    · rw [update_of_ne heq]
      exact h.used j (by omega)
  · rw [update_of_ne (by omega)]
    exact h.empty j (by omega) hlt

theorem sizeName_ne_nil (size : Nat) : (newCache (sizeName size) size).name ≠ [] := by
  simp [newCache, sizeName]

def addSizeCache (s : State) (e : Nat × Nat) : State :=
  match kmemCacheCreate (sizeName e.1) e.1 0 0 none none s with
  | (cache, s) => { s with sizeCaches := update s.sizeCaches e.2 cache }

theorem foldl_addSizeCache {l : List Nat} {s : State} (h : Used s i) (hl : i + l.length ≤ maxSlabs)
    (hpos : ∀ size ∈ l, size ≠ 0) :
    (∀ j < i, ((l.zipIdx i).foldl addSizeCache s).sizeCaches j = s.sizeCaches j ∧
      ((l.zipIdx i).foldl addSizeCache s).allCaches j = s.allCaches j) ∧
    ∀ j (hj : j < l.length), ((l.zipIdx i).foldl addSizeCache s).sizeCaches (i + j) = some (i + j) ∧
      ((l.zipIdx i).foldl addSizeCache s).allCaches (i + j) =
        newCache (sizeName (l.get ⟨j, hj⟩)) (l.get ⟨j, hj⟩) := by
  induction l generalizing i s with
  | nil => exact ⟨fun _ _ => ⟨rfl, rfl⟩, fun j hj => absurd hj (Nat.not_lt_zero j)⟩
  | cons size l ih =>
    rw [List.length_cons] at hl
    have hstep : addSizeCache s (size, i) =
        { s with
          numCaches := i + 1
          allCaches := update s.allCaches i (newCache (sizeName size) size)
          sizeCaches := update s.sizeCaches i (some i) } := by
      rw [addSizeCache, h.kmemCacheCreate (by omega) (hpos size List.mem_cons_self)]
    rw [List.zipIdx_cons, List.foldl_cons, hstep]
    obtain ⟨hkeep, hnew⟩ := ih (h.add (sizeName_ne_nil size) _) (by omega)
      fun size hs => hpos size (List.mem_cons_of_mem _ hs)
    refine ⟨fun j hj => ?_, fun j hj => ?_⟩
    · obtain ⟨hsize, hall⟩ := hkeep j (by omega)
      rw [hsize, hall]
      exact ⟨update_of_ne (by omega) _ _, update_of_ne (by omega) _ _⟩
    · cases j with
      | zero =>
        obtain ⟨hsize, hall⟩ := hkeep i (by omega)
        simp only [Nat.add_zero, hsize, hall, update_self, true_and]
        rfl
      | succ j =>
        have hj := hnew j (Nat.lt_of_succ_lt_succ hj)
        rw [Nat.add_right_comm] at hj
        exact hj

theorem slabInit_eq (heap : Heap) :
    slabInit { heap } =
      { sizes.zipIdx.foldl addSizeCache
          { heap, allCaches := fun i => if i < maxSlabs then {} else {} } with
        slabInitialized := true } := by
  rw [slabInit, if_neg Bool.false_ne_true]
  rfl

theorem foldl_addSizeCache_heap (l : List (Nat × Nat)) (s : State) :
    (l.foldl addSizeCache s).heap = s.heap := by
  induction l generalizing s with
  | nil => rfl
  | cons e l ih =>
    rw [List.foldl_cons, ih, addSizeCache]
    simp only [kmemCacheCreate]
    split_ifs
    · rfl
    · split <;> rfl

theorem slabInit_heap (heap : Heap) : (slabInit { heap }).heap = heap := by
  rw [slabInit_eq]
  dsimp only
  rw [foldl_addSizeCache_heap]

theorem slabInit_caches (heap : Heap) (hk : k < sizes.length) :
    (slabInit { heap }).sizeCaches k = some k ∧
      (slabInit { heap }).allCaches k =
        newCache (sizeName (sizes.get ⟨k, hk⟩)) (sizes.get ⟨k, hk⟩) := by
  have hused : Used { heap, allCaches := fun i => if i < maxSlabs then {} else {} } 0 :=
    ⟨fun j hj => absurd hj (Nat.not_lt_zero j), fun j _ _ => by simp only [ite_self], rfl⟩
  have hnew := (foldl_addSizeCache (l := sizes) hused (by decide) (by decide)).2 k hk
  rw [slabInit_eq]
  dsimp only
  generalize sizes.zipIdx.foldl addSizeCache _ = s at hnew ⊢
  rwa [Nat.zero_add] at hnew

theorem slabInit_sized (heap : Heap) : Sized (slabInit { heap }) := by
  refine ⟨rfl, fun k hk => (slabInit_caches heap hk).1, fun k hk => ?_, fun k hk => ?_⟩
  · have hsize : ∀ i : Fin 10, alignSize (sizes.get i) 0 = 8 * 2 ^ i.val := by decide
    rw [(slabInit_caches heap hk).2]
    exact hsize ⟨k, hk⟩
  · rw [(slabInit_caches heap hk).2]
    rfl

theorem Sized.find_some {s : State} (h : Sized s) (hf : findSizeCache s size = some k) :
    k < 10 ∧ size ≤ 8 * 2 ^ k ∧ ∀ j < k, 8 * 2 ^ j < size := by
  obtain ⟨l₁, i, l₂, hl, hi, hnone⟩ := List.findSome?_eq_some_iff.mp hf
  have hmem : i < 10 := List.mem_range.mp (hl ▸ List.mem_append_right _ List.mem_cons_self)
  simp only [h.sizeCaches i hmem, h.objSize i hmem, Option.ite_none_right_eq_some,
    Option.some.injEq] at hi
  obtain ⟨hsize, rfl⟩ := hi
  refine ⟨hmem, hsize, fun j hj => ?_⟩
  have hsorted := hl ▸ List.pairwise_lt_range (n := 10)
  have hjmem : j ∈ l₁ ++ i :: l₂ := hl ▸ List.mem_range.mpr (by omega)
  rcases List.mem_append.mp hjmem with hleft | hright
  · have := hnone j hleft
    simp only [h.sizeCaches j (by omega), h.objSize j (by omega), ite_eq_right_iff, reduceCtorEq,
      imp_false] at this
    omega
  · have := (List.pairwise_cons.mp (List.pairwise_append.mp hsorted).2.1).1
    rcases List.mem_cons.mp hright with rfl | hright
    · omega
    · have := this j hright
      omega

theorem Sized.find_none {s : State} (h : Sized s) (hf : findSizeCache s size = none) :
    4096 < size := by
  have := List.findSome?_eq_none_iff.mp hf 9 (by decide)
  simp only [h.sizeCaches 9 (by decide), h.objSize 9 (by decide), ite_eq_right_iff, reduceCtorEq,
    imp_false] at this
  omega

structure Share where
  part : List Nat
  full : List Nat
  free : Nat → List Nat
  out : List Nat

def Share.pages (sh : Share) : List Nat := sh.part ++ sh.full

/-- The caches for up to half a page with their slabs, and the blocks handed out directly. -/
structure Layout (s : State) (slabs : List Nat) (blocks : List (Nat × Nat)) (sh : Nat → Share) :
    Prop where
  sized : Sized s
  cache : ∀ k < 9, Inv s.heap.memory (s.allCaches k) (sh k).part (sh k).full (sh k).free (sh k).out
  shared : slabs.Perm ((List.range 9).flatMap fun k => (sh k).pages)
  owns : Owns s.heap slabs blocks

def Placed (sh : Nat → Share) (blocks : List (Nat × Nat)) (r : Nat × Nat) : Prop :=
  (∃ k < 9, r.1 ∈ (sh k).out ∧ r.2 ≤ 8 * 2 ^ k) ∨
    ∃ b ∈ blocks, r.1 = b.1 ∧ r.2 ≤ Buddy.pageSize * 2 ^ b.2

def Apart (r q : Nat × Nat) : Prop := r.1 + r.2 ≤ q.1 ∨ q.1 + q.2 ≤ r.1

theorem perm_flatMap {sh : Nat → Share} (hk : k < 9) :
    ((List.range 9).flatMap fun j => (sh j).pages).Perm
      ((sh k).pages ++ ((List.range 9).erase k).flatMap fun j => (sh j).pages) :=
  (List.perm_cons_erase (List.mem_range.mpr hk)).flatMap_right _

theorem flatMap_update {sh : Nat → Share} (sh' : Share) :
    (((List.range 9).erase k).flatMap fun j => (update sh k sh' j).pages) =
      ((List.range 9).erase k).flatMap fun j => (sh j).pages := by
  refine List.flatMap_congr fun j hj => ?_
  have hne : j ≠ k := ((List.nodup_range).mem_erase_iff.mp hj).1
  simp only [update_of_ne hne]

theorem Placed.update {sh : Nat → Share} {sh' : Share} {obj : Nat} {r : Nat × Nat}
    (hout : sh'.out = obj :: (sh k).out) (hr : Placed sh blocks r) :
    Placed (update sh k sh') blocks r := by
  rcases hr with ⟨j, hj, hmem, hle⟩ | hblock
  · refine .inl ⟨j, hj, ?_, hle⟩
    by_cases heq : j = k
    · subst heq
      rw [update_self, hout]
      exact List.mem_cons_of_mem _ hmem
    · rwa [update_of_ne heq]
  · exact .inr hblock

namespace Layout

variable {s : State} {sh : Nat → Share} {r : Nat × Nat}

section

variable (h : Layout s slabs blocks sh)

include h

theorem mem_slabs (hk : k < 9) (ha : a ∈ (sh k).pages) : a ∈ slabs :=
  h.shared.symm.subset (List.mem_flatMap.mpr ⟨k, List.mem_range.mpr hk, ha⟩)

theorem exists_cache (ha : a ∈ slabs) : ∃ k < 9, a ∈ (sh k).pages := by
  obtain ⟨k, hk, hmem⟩ := List.mem_flatMap.mp (h.shared.subset ha)
  exact ⟨k, List.mem_range.mp hk, hmem⟩

theorem cache_eq {j : Nat} (hk : k < 9) (hj : j < 9)
    (ha : a ∈ (sh k).pages) (ha' : a ∈ (sh j).pages) : k = j := by
  by_contra hne
  have hnodup := h.shared.nodup_iff.mp h.owns.slabs_nodup
  have hpair := (List.nodup_flatMap.mp hnodup).2
  have : Std.Symm (onFun List.Disjoint fun k => (sh k).pages) := ⟨fun _ _ hd => hd.symm⟩
  exact hpair.forall (List.mem_range.mpr hk) (List.mem_range.mpr hj) hne ha ha'

theorem pos (hk : k < 9) : 0 < (s.allCaches k).objSize :=
  Nat.lt_of_lt_of_le (by decide) (h.cache k hk).size.1

theorem object_bounds (hk : k < 9) {p : Nat} (hp : p ∈ (sh k).out) :
    slabOf p ∈ (sh k).pages ∧ slabOf p + headerSize ≤ p ∧
      p + 8 * 2 ^ k ≤ slabOf p + slabSize := by
  have hlists := (h.cache k hk).lists
  have hbounds := slot_bounds (h.pos hk) (hlists.slot hp)
  rw [h.sized.objSize k (by omega)] at hbounds
  exact ⟨hlists.owner p hp, hbounds⟩

theorem off_page (hr : Placed sh blocks r) (hk : k < 9)
    (ha : a ∈ (sh k).pages) :
    (r.1 ∈ (sh k).out ∧ r.2 ≤ 8 * 2 ^ k) ∨ r.1 + r.2 ≤ a ∨ a + slabSize ≤ r.1 := by
  rcases hr with ⟨j, hj, hmem, hsize⟩ | ⟨b, hb, haddr, hsize⟩
  · by_cases heq : k = j
    · subst heq
      exact .inl ⟨hmem, hsize⟩
    · right
      obtain ⟨howner, hbounds⟩ := h.object_bounds hj hmem
      have hne : a ≠ slabOf r.1 := fun he => heq (h.cache_eq hk hj ha (he ▸ howner))
      have := pages_disjoint (h.owns.page (h.mem_slabs hk ha)).1
        (h.owns.page (h.mem_slabs hj howner)).1 hne
      omega
  · right
    have := h.owns.slab_block (h.mem_slabs hk ha) hb
    omega

theorem store {allocs : List (Nat × Nat)}
    (hp : ∀ r ∈ allocs, Placed sh blocks r) {m : Memory}
    (hm : ∀ x, slabOf x ∈ slabs → (∀ r ∈ allocs, x < r.1 ∨ r.1 + r.2 ≤ x) →
      m x = s.heap.memory x) :
    Layout { s with heap := { s.heap with memory := m } } slabs blocks sh := by
  refine ⟨⟨h.sized.1, h.sized.2, h.sized.3, h.sized.4⟩, fun k hk => ?_, h.shared, h.owns⟩
  have hinv := h.cache k hk
  refine { hinv with lists := hinv.lists.congr hinv.size.1 fun x hx hout => ?_ }
  refine hm x (h.mem_slabs hk hx) fun r hr => ?_
  have hbase : slabOf x ≤ x ∧ x < slabOf x + slabSize := by
    simp only [slabOf, slabSize]
    omega
  rcases h.off_page (hp r hr) hk hx with ⟨hmem, hsize⟩ | hoff
  · have := hout r.1 hmem
    rw [h.sized.objSize k (by omega)] at this
    omega
  · omega

theorem alloc (hk : k < 9) :
    kmemCacheAlloc (s.allCaches k) s.heap = (0, s.allCaches k, s.heap) ∧
        obtained (s.allCaches k) s.heap = [] ∧ (Buddy.buddyAlloc s.heap.buddy 0).2 = 0 ∨
      ∃ obj c heap sh', kmemCacheAlloc (s.allCaches k) s.heap = (obj, c, heap) ∧ obj ≠ 0 ∧
        sh'.out = obj :: (sh k).out ∧
        Layout { s with heap, allCaches := update s.allCaches k c }
          (obtained (s.allCaches k) s.heap ++ slabs) blocks (update sh k sh') := by
  -- the slabs of the other caches are foreign blocks to this one
  let rest := ((List.range 9).erase k).flatMap fun j => (sh j).pages
  have hsplit : slabs.Perm ((sh k).pages ++ rest) := h.shared.trans (perm_flatMap hk)
  have howns : Owns s.heap ((sh k).pages) (rest.map (·, 0) ++ blocks) := by
    refine h.owns.perm ?_
    rw [← List.append_assoc, ← List.map_append]
    exact (hsplit.map _).append_right blocks
  have hctor : Local (s.allCaches k).objSize (s.allCaches k).ctor := by
    rw [h.sized.ctor k (by omega)]
    exact local_none _
  rcases (h.cache k hk).alloc howns hctor with
    hfail | ⟨obj, c, heap, part, full, free, he, hne, ha, -⟩
  · exact .inl hfail
  right
  let sh' : Share := ⟨part, full, free, obj :: (sh k).out⟩
  have hnew : (obtained (s.allCaches k) s.heap ++ slabs).Perm (sh'.pages ++ rest) := by
    refine (hsplit.append_left _).trans ?_
    rw [← List.append_assoc]
    exact ha.slabs.symm.append_right rest
  have hrest : (((List.range 9).erase k).flatMap fun j => (update sh k sh' j).pages) = rest :=
    flatMap_update sh'
  refine ⟨obj, c, heap, sh', he, hne, rfl, ⟨h.sized.1, h.sized.2, ?_, ?_⟩, fun j hj => ?_, ?_, ?_⟩
  · intro j hj
    by_cases heq : j = k
    · subst heq
      exact (congrArg Cache.objSize (update_self _ _ _)).trans
        (ha.kind.objSize.trans (h.sized.objSize j hj))
    · exact (congrArg Cache.objSize (update_of_ne heq _ _)).trans (h.sized.objSize j hj)
  · intro j hj
    by_cases heq : j = k
    · subst heq
      exact (congrArg Cache.ctor (update_self _ _ _)).trans
        (ha.kind.ctor.trans (h.sized.ctor j hj))
    · exact (congrArg Cache.ctor (update_of_ne heq _ _)).trans (h.sized.ctor j hj)
  · dsimp only
    by_cases heq : j = k
    · subst heq
      rw [update_self, update_self]
      exact ha.inv
    · rw [update_of_ne heq, update_of_ne heq]
      have hinv := h.cache j hj
      refine { hinv with lists := hinv.lists.congr hinv.size.1 fun x hx _ => ha.frame x ?_ }
      intro hmem
      have hforeign : (slabOf x, 0) ∈ rest.map (·, 0) ++ blocks := by
        refine List.mem_append_left _ (List.mem_map_of_mem (List.mem_flatMap.mpr ⟨j, ?_, hx⟩))
        exact List.nodup_range.mem_erase_iff.mpr ⟨heq, List.mem_range.mpr hj⟩
      have := ha.owns.slab_block hmem hforeign
      simp only [Buddy.pageSize, slabSize] at this
      omega
  · refine hnew.trans ((perm_flatMap hk).trans ?_).symm
    rw [hrest, update_self]
  · refine ha.owns.perm ?_
    rw [← List.append_assoc, ← List.map_append]
    exact (hnew.symm.map _).append_right blocks

end

theorem object_apart {obj : Nat} {sh' : Share} (h : Layout s slabs blocks (update sh k sh'))
    (hk : k < 9) (hout : sh'.out = obj :: (sh k).out) (hr : Placed sh blocks r)
    (hsize : size ≤ 8 * 2 ^ k) : Apart (obj, size) r := by
  have hself : (update sh k sh' k).out = obj :: (sh k).out := by rw [update_self, hout]
  obtain ⟨howner, hbounds⟩ := h.object_bounds hk (hself ▸ List.mem_cons_self)
  simp only [Apart]
  rcases hr with ⟨j, hj, hmem, hle⟩ | ⟨b, hb, haddr, hle⟩
  · by_cases heq : j = k
    · subst heq
      have hpair := (h.cache j hj).lists.out_disjoint (h.pos hj)
      rw [hself, h.sized.objSize j (by omega)] at hpair
      have := (List.pairwise_cons.mp hpair).1 r.1 hmem
      omega
    · have hother : r.1 ∈ (update sh k sh' j).out := by rwa [update_of_ne heq]
      obtain ⟨howner', hbounds'⟩ := h.object_bounds hj hother
      have hne : slabOf obj ≠ slabOf r.1 := fun he =>
        heq (h.cache_eq hj hk howner' (he ▸ howner))
      have := pages_disjoint (h.owns.page (h.mem_slabs hk howner)).1
        (h.owns.page (h.mem_slabs hj howner')).1 hne
      omega
  · have := h.owns.slab_block (h.mem_slabs hk howner) hb
    omega

theorem block (h : Layout s slabs blocks sh) {t : Buddy.State}
    (ho : Buddy.Outstanding t (b :: (slabs.map (·, 0) ++ blocks))) :
    Layout { s with heap := { s.heap with buddy := t } } slabs (b :: blocks) sh :=
  ⟨⟨h.sized.1, h.sized.2, h.sized.3, h.sized.4⟩, h.cache, h.shared, ho.perm List.perm_middle.symm⟩

theorem block_apart (h : Layout s slabs blocks sh) {t : Buddy.State}
    (ho : Buddy.Outstanding t (b :: (slabs.map (·, 0) ++ blocks))) (hr : Placed sh blocks r)
    (hsize : size ≤ Buddy.pageSize * 2 ^ b.2) : Apart (b.1, size) r := by
  have hfirst := (List.pairwise_cons.mp ho.disjoint).1
  simp only [Apart]
  rcases hr with ⟨j, hj, hmem, hle⟩ | ⟨c, hc, haddr, hle⟩
  · obtain ⟨howner, hbounds⟩ := h.object_bounds hj hmem
    have := regions_apart (hfirst (slabOf r.1, 0)
      (List.mem_append_left _ (List.mem_map_of_mem (h.mem_slabs hj howner))))
    simp only [Buddy.pageSize, slabSize, headerSize, Nat.pow_zero] at *
    omega
  · have := regions_apart (hfirst c (List.mem_append_right _ hc))
    omega

end Layout

/-! ### Runs -/

structure Arena where
  state : State
  slabs : List Nat
  blocks : List (Nat × Nat)
  allocs : List (Nat × Nat)

def taken (size : Nat) (s : State) : List Nat × List (Nat × Nat) :=
  if !s.slabInitialized ∨ size = 0 then ([], [])
  else
    match findSizeCache s size with
    | some k => (obtained (s.allCaches k) s.heap, [])
    | none =>
      let order := Buddy.buddyGetOrder size
      let addr := (Buddy.buddyAlloc s.heap.buddy order).2
      ([], if addr = 0 then [] else [(addr, order)])

/-- A call for a size that meets `ok`, or stores outside the slabs and inside allocations. -/
inductive Call (ok : Nat → Prop) : Arena → Arena → Prop
  | kmalloc {w : Arena} {size p : Nat} {s : State} (hsize : size < 2 ^ 32) (hok : ok size)
      (h : kmalloc size w.state = (p, s)) :
      Call ok w
        { state := s
          slabs := (taken size w.state).1 ++ w.slabs
          blocks := (taken size w.state).2 ++ w.blocks
          allocs := if p = 0 then w.allocs else (p, size) :: w.allocs }
  | store {w : Arena} {m : Memory}
      (h : ∀ x, slabOf x ∈ w.slabs → (∀ r ∈ w.allocs, x < r.1 ∨ r.1 + r.2 ≤ x) →
        m x = w.state.heap.memory x) :
      Call ok w { w with state := { w.state with heap := { w.state.heap with memory := m } } }

def started (memory : Memory) : Arena :=
  ⟨slabInit { heap := ⟨memory, Buddy.buddyInit {}⟩ }, [], [], []⟩

structure Settled (w : Arena) (sh : Nat → Share) : Prop where
  layout : Layout w.state w.slabs w.blocks sh
  placed : ∀ r ∈ w.allocs, Placed sh w.blocks r
  apart : w.allocs.Pairwise Apart
  pageCache : (w.state.allCaches 9).slabsPartial = 0 ∧ (w.state.allCaches 9).slabsFree = 0

def Served (size : Nat) : Prop :=
  size ≤ 2048 ∨ 4096 < size ∧ size ≤ Buddy.pageSize * 2 ^ (Buddy.maxOrder - 1)

theorem Settled.of_sized {s : State} (hs : Sized s)
    (hl : ∀ k < 10, let c := s.allCaches k
      c.slabsPartial = 0 ∧ c.slabsFull = 0 ∧ c.slabsFree = 0 ∧ c.numActive = 0 ∧ c.numSlabs = 0)
    (hb : Buddy.Outstanding s.heap.buddy []) :
    Settled ⟨s, [], [], []⟩ fun _ => ⟨[], [], fun _ => [], []⟩ := by
  have hlast := hl 9 (by decide)
  refine ⟨⟨hs, fun k hk => Inv.empty ?_ (hl k (by omega)) _, by simp [Share.pages], hb⟩, by simp, .nil,
    hlast.1, hlast.2.2.1⟩
  have hsize : 2 ^ k ≤ 2 ^ 8 := Nat.pow_le_pow_right (by decide) (by omega)
  have hpos := Nat.two_pow_pos k
  rw [hs.objSize k (by omega)]
  omega

theorem settled_started (memory : Memory) : ∃ sh, Settled (started memory) sh := by
  refine ⟨_, Settled.of_sized (slabInit_sized _) (fun k hk => ?_) ?_⟩
  · rw [(slabInit_caches _ hk).2]
    exact ⟨rfl, rfl, rfl, rfl, rfl⟩
  · rw [slabInit_heap]
    exact Buddy.Reachable.outstanding .refl

theorem Settled.call {w w' : Arena} {sh : Nat → Share} (h : Settled w sh)
    (hs : Call Served w w') : ∃ sh', Settled w' sh' := by
  cases hs with
  | store hm =>
    exact ⟨sh, h.layout.store h.placed hm, h.placed, h.apart, h.pageCache⟩
  | @kmalloc size p s _ hok he =>
    by_cases hzero : !w.state.slabInitialized ∨ size = 0
    · rw [kmalloc, if_pos hzero] at he
      cases he
      simp only [taken, if_pos hzero, List.nil_append, if_true]
      exact ⟨sh, h⟩
    rw [kmalloc, if_neg hzero] at he
    simp only [taken, if_neg hzero]
    cases hf : findSizeCache w.state size with
    | some k =>
      obtain ⟨hk10, hle, hmin⟩ := h.layout.sized.find_some hf
      have hk : k < 9 := by
        by_contra hk
        have h9 : k = 9 := by omega
        subst h9
        have := hmin 8 (by decide)
        rcases hok with hok | hok <;> omega
      simp only [hf] at he
      rcases h.layout.alloc hk with ⟨heq, hnone, -⟩ | ⟨obj, c, heap, sh', heq, hne, hout, hlayout⟩
      · rw [heq] at he
        cases he
        simp only [hnone, List.nil_append, if_true, update_eq_self]
        exact ⟨sh, h⟩
      · rw [heq] at he
        cases he
        have hplaced : ∀ r ∈ w.allocs, Placed (update sh k sh') w.blocks r :=
          fun r hr => (h.placed r hr).update hout
        simp only [if_neg hne, List.nil_append]
        have hother : 9 ≠ k := by omega
        refine ⟨update sh k sh', hlayout, fun r hr => ?_, ?_, ?_⟩
        · rcases List.mem_cons.mp hr with rfl | hr
          · refine .inl ⟨k, hk, ?_, hle⟩
            rw [update_self, hout]
            exact List.mem_cons_self
          · exact hplaced r hr
        · exact List.pairwise_cons.mpr
            ⟨fun r hr => hlayout.object_apart hk hout (h.placed r hr) hle, h.apart⟩
        · simpa only [update_of_ne hother] using h.pageCache
    | none =>
      have hlarge := h.layout.sized.find_none hf
      simp only [hf] at he
      rcases h.layout.owns.alloc (Buddy.buddyGetOrder size) with heq | ⟨t, addr, heq, hne, ho⟩
      · rw [heq] at he
        cases he
        simp only [heq, if_true, List.nil_append]
        exact ⟨sh, h⟩
      · rw [heq] at he
        cases he
        have hfit : size ≤ Buddy.pageSize * 2 ^ Buddy.buddyGetOrder size :=
          Buddy.le_buddyGetOrder (by rcases hok with hok | hok <;> omega)
        simp only [heq, if_neg hne, List.nil_append]
        refine ⟨sh, ?_, fun r hr => ?_, List.pairwise_cons.mpr ⟨fun r hr => ?_, h.apart⟩,
          h.pageCache⟩
        · exact h.layout.block ho
        · rcases List.mem_cons.mp hr with rfl | hr
          · exact .inr ⟨_, List.mem_cons_self, rfl, hfit⟩
          · rcases h.placed r hr with hcache | ⟨b, hb, hrest⟩
            · exact .inl hcache
            · exact .inr ⟨b, List.mem_cons_of_mem _ hb, hrest⟩
        · exact h.layout.block_apart ho (h.placed r hr) hfit

theorem Settled.run {memory : Memory} {w : Arena}
    (h : Relation.ReflTransGen (Call Served) (started memory) w) : ∃ sh, Settled w sh := by
  induction h with
  | refl => exact settled_started memory
  | tail _ hs ih =>
    obtain ⟨sh, hw⟩ := ih
    exact hw.call hs

/-- The buddy allocator has a block for a request of this size. -/
def Available (size : Nat) (s : State) : Prop :=
  (Buddy.buddyAlloc s.heap.buddy (if size ≤ slabSize then 0 else Buddy.buddyGetOrder size)).2 ≠ 0

def Hands (size : Nat) (s : State) : Prop := ∃ p s', kmallocReturns size s = some (p, s') ∧ p ≠ 0

theorem Sized.find_large {s : State} (h : Sized s) (hsize : slabSize < size) : findSizeCache s size = none := by
  cases hf : findSizeCache s size with
  | none => rfl
  | some k =>
    obtain ⟨hk, hle, -⟩ := h.find_some hf
    have : 2 ^ k ≤ 2 ^ 9 := Nat.pow_le_pow_right (by decide) (by omega)
    simp only [slabSize] at hsize
    omega

/-- The cache for a page never gets a slab: the call that would make its first one does not return. -/
theorem Settled.hands_iff {w : Arena} {sh : Nat → Share} (h : Settled w sh) (hzero : size ≠ 0)
    (havail : Available size w.state) : Hands size w.state ↔ size ≤ 2048 ∨ 4096 < size := by
  have hstart : ¬ (!w.state.slabInitialized ∨ size = 0) := by
    simp [h.layout.sized.initialized, hzero]
  rw [Hands, kmallocReturns, runsAway, kmalloc, if_neg hstart, h.layout.sized.initialized,
    bne_iff_ne.mpr hzero]
  cases hf : findSizeCache w.state size with
  | none =>
    have hlarge := h.layout.sized.find_none hf
    rw [Available, if_neg (Nat.not_le.mpr hlarge)] at havail
    exact iff_of_true ⟨_, _, rfl, havail⟩ (.inr hlarge)
  | some k =>
    obtain ⟨hk, hle, hmin⟩ := h.layout.sized.find_some hf
    have hpow : 2 ^ k ≤ 2 ^ 9 := Nat.pow_le_pow_right (by decide) (by omega)
    rw [Available, if_pos (by simp only [slabSize]; omega)] at havail
    simp only [h.layout.sized.objSize k hk]
    rcases Nat.lt_or_ge k 9 with hlt | hge
    · have hsmall : 2 ^ k ≤ 2 ^ 8 := Nat.pow_le_pow_right (by decide) (by omega)
      have hcount : (slabSize - headerSize) / (8 * 2 ^ k) ≠ 0 := by
        have hpos := Nat.two_pow_pos k
        rw [Ne, Nat.div_eq_zero_iff]
        simp only [slabSize, headerSize]
        omega
      refine iff_of_true ?_ (.inl (by omega))
      rcases h.layout.alloc hlt with ⟨-, -, hnone⟩ | ⟨obj, c, heap, sh', heq, hne, -⟩
      · exact absurd hnone havail
      · refine ⟨_, _, if_neg (by simp [hcount]), ?_⟩
        rw [heq]
        exact hne
    · obtain rfl : k = 9 := by omega
      have hbelow := hmin 8 (by decide)
      refine iff_of_false ?_ (by omega)
      rintro ⟨p, s', hsome, -⟩
      rw [if_pos (by simp [h.pageCache, havail])] at hsome
      cases hsome

/-- Every allocation lies in one slab after its header or in one block of the buddy
allocator, off all other allocations and all slab headers. -/
structure Separate (w : Arena) : Prop where
  inside : ∀ r ∈ w.allocs,
    (∃ a ∈ w.slabs, a + headerSize ≤ r.1 ∧ r.1 + r.2 ≤ a + slabSize) ∨
      ∃ b ∈ w.blocks, b.1 ≤ r.1 ∧ r.1 + r.2 ≤ b.1 + Buddy.pageSize * 2 ^ b.2
  outstanding : Buddy.Outstanding w.state.heap.buddy (w.slabs.map (·, 0) ++ w.blocks)
  disjoint : w.allocs.Pairwise Apart
  headers : ∀ r ∈ w.allocs, ∀ a ∈ w.slabs, r.1 + r.2 ≤ a ∨ a + headerSize ≤ r.1

/-- As long as every size is served, the allocations are separate. -/
theorem kmalloc_separate {memory : Memory} {w : Arena}
    (h : Relation.ReflTransGen (Call Served) (started memory) w) : Separate w := by
  obtain ⟨sh, hw⟩ := Settled.run h
  refine ⟨fun r hr => ?_, hw.layout.owns, hw.apart, fun r hr a ha => ?_⟩
  · rcases hw.placed r hr with ⟨k, hk, hmem, hle⟩ | ⟨b, hb, haddr, hle⟩
    · obtain ⟨howner, hbounds⟩ := hw.layout.object_bounds hk hmem
      exact .inl ⟨slabOf r.1, hw.layout.mem_slabs hk howner, hbounds.1, by omega⟩
    · exact .inr ⟨b, hb, by omega, by omega⟩
  · obtain ⟨k, hk, hak⟩ := hw.layout.exists_cache ha
    rcases hw.layout.off_page (hw.placed r hr) hk hak with ⟨hmem, hle⟩ | hoff
    · obtain ⟨howner, hbounds⟩ := hw.layout.object_bounds hk hmem
      by_cases heq : a = slabOf r.1
      · omega
      · have := pages_disjoint (hw.layout.owns.page ha).1
          (hw.layout.owns.page (hw.layout.mem_slabs hk howner)).1 heq
        omega
    · simp only [headerSize, slabSize] at *
      omega

theorem call_large {s : State} (ok : Nat → Prop) (size order addr : Nat) (h : Sized s)
    (hlarge : 4096 < size) (hsize : size < 2 ^ 32) (hok : ok size)
    (ho : Buddy.buddyGetOrder size = order)
    (ha : (Buddy.buddyAlloc s.heap.buddy order).2 = addr) (hne : addr ≠ 0) :
    ∃ s', Call ok ⟨s, [], [], []⟩ ⟨s', [], [(addr, order)], [(addr, size)]⟩ := by
  have hzero : ¬ (!s.slabInitialized ∨ size = 0) := by
    rw [h.initialized, Bool.not_true]
    simp only [Bool.false_eq_true, false_or]
    omega
  have hnone := h.find_large hlarge
  obtain ⟨p, s', he⟩ : ∃ p s', kmalloc size s = (p, s') := ⟨_, _, rfl⟩
  have hp : p = addr := by
    rw [kmalloc, if_neg hzero, hnone, ho] at he
    exact (Prod.mk.inj he).1.symm.trans ha
  have htaken : taken size s = ([], [(addr, order)]) := by
    simp only [taken, if_neg hzero, hnone, ho, ha, if_neg hne]
  have hcall := Call.kmalloc (w := ⟨s, [], [], []⟩) hsize hok he
  dsimp only at hcall
  rw [htaken, hp, if_neg hne] at hcall
  exact ⟨s', hcall⟩

theorem kmalloc_separate_large :
    ∃ s, Relation.ReflTransGen (Call Served) (started fun _ => 0)
        ⟨s, [], [(0x7C00000, 10)], [(0x7C00000, 0x400000)]⟩ ∧
      Separate ⟨s, [], [(0x7C00000, 10)], [(0x7C00000, 0x400000)]⟩ := by
  obtain ⟨s, hcall⟩ := call_large Served 0x400000 10 0x7C00000
    (slabInit_sized ⟨fun _ => 0, Buddy.buddyInit {}⟩) (by decide) (by decide)
    (.inr (by decide)) (by decide) (by rw [slabInit_heap]; decide) (by decide)
  exact ⟨s, .single hcall, kmalloc_separate (.single hcall)⟩

/-- The largest block is handed out for a request that is one byte larger. -/
theorem kmalloc_oversized :
    ∃ s, Relation.ReflTransGen (Call fun _ => True) (started fun _ => 0)
        ⟨s, [], [(0x7C00000, 10)], [(0x7C00000, 0x400001)]⟩ ∧
      ¬ Separate ⟨s, [], [(0x7C00000, 10)], [(0x7C00000, 0x400001)]⟩ := by
  obtain ⟨s, hcall⟩ := call_large (fun _ => True) 0x400001 10 0x7C00000
    (slabInit_sized ⟨fun _ => 0, Buddy.buddyInit {}⟩) (by decide) (by decide)
    trivial (by decide) (by rw [slabInit_heap]; decide) (by decide)
  refine ⟨s, .single hcall, fun h => ?_⟩
  have := h.inside _ List.mem_cons_self
  simp [Buddy.pageSize] at this

end TocinOS.Slab

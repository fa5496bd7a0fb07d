import TocinOS.BuddyRuns
import TocinOS.SlabInvariant

/-! One cache: its lists of slabs, and what the calls on it preserve. -/

namespace TocinOS.Slab

open MemoryWords Function

variable {m m' : Memory} {z a b p q x partialHead fullHead : Nat} {part full out : List Nat}
  {free : Nat → List Nat}

structure Lists (m : Memory) (z partialHead fullHead : Nat) (part full : List Nat)
    (free : Nat → List Nat) (out : List Nat) : Prop where
  onPartial : Chain m partialHead part
  onFull : Chain m fullHead full
  nodup : (part ++ full).Nodup
  page : ∀ a ∈ part ++ full, slabSize ∣ a ∧ slabSize ≤ a ∧ a + slabSize ≤ 2 ^ 32
  slab : ∀ a ∈ part ++ full, SlabInv m z a (free a) (out.filter fun p => slabOf p = a)
  owner : ∀ p ∈ out, slabOf p ∈ part ++ full

variable {l : List Nat} {obj : Nat}

namespace Lists

section

variable (h : Lists m z partialHead fullHead part full free out)

include h

theorem slot (hp : p ∈ out) : p ∈ slots z (slabOf p) :=
  (h.slab _ (h.owner p hp)).mem_out (List.mem_filter.mpr ⟨hp, decide_eq_true rfl⟩)

theorem off_header (hz : 0 < z) (ha : a ∈ part ++ full) (hx : a ≤ x) (hx' : x < a + headerSize)
    (hp : p ∈ out) : x < p ∨ p + z ≤ x := by
  have hbounds := slot_bounds hz (h.slot hp)
  by_cases heq : a = slabOf p
  · omega
  · have := pages_disjoint (h.page a ha).1 (h.page _ (h.owner p hp)).1 heq
    simp only [slabSize, headerSize] at *
    omega

theorem out_nodup (hz : 0 < z) : out.Nodup := by
  refine List.nodup_iff_count_le_one.mpr fun p => ?_
  by_cases hp : p ∈ out
  · have hnodup := ((h.slab _ (h.owner p hp)).nodup hz).sublist (List.sublist_append_right _ _)
    have hcount := List.nodup_iff_count_le_one.mp hnodup p
    rwa [List.count_filter (by simp only [decide_true])] at hcount
  · rw [List.count_eq_zero_of_not_mem hp]
    exact Nat.zero_le 1

theorem out_disjoint (hz : 0 < z) : out.Pairwise fun p q => p + z ≤ q ∨ q + z ≤ p := by
  refine (h.out_nodup hz).imp_of_mem fun {p q} hp hq hne => ?_
  have hpb := slot_bounds hz (h.slot hp)
  have hqb := slot_bounds hz (h.slot hq)
  by_cases heq : slabOf p = slabOf q
  · have hslot := h.slot hq
    rw [← heq] at hslot
    exact slots_disjoint (h.slot hp) hslot hne
  · have := pages_disjoint (h.page _ (h.owner p hp)).1 (h.page _ (h.owner q hq)).1 heq
    simp only [slabSize, headerSize] at *
    omega

theorem perm_out {out' : List Nat} (hp : out.Perm out') :
    Lists m z partialHead fullHead part full free out' :=
  { h with
    slab := fun a ha => (h.slab a ha).perm_out (hp.filter _)
    owner := fun p hmem => h.owner p (hp.symm.subset hmem) }

theorem congr (hz : 4 ≤ z)
    (hm : ∀ x, slabOf x ∈ part ++ full → (∀ p ∈ out, x < p ∨ p + z ≤ x) → m' x = m x) :
    Lists m' z partialHead fullHead part full free out := by
  have hpage {a x : Nat} (ha : a ∈ part ++ full) (hx : a ≤ x) (hx' : x < a + slabSize) :
      slabOf x ∈ part ++ full := by
    rwa [slabOf_eq (h.page a ha).1 hx hx']
  have hword : ∀ a ∈ part ++ full, word m' a = word m a := fun a ha =>
    word_congr fun x hx hx' => hm x (hpage ha hx (by simp only [slabSize]; omega))
      fun p hp => h.off_header (by omega) ha hx (by simp only [headerSize]; omega) hp
  refine { h with onPartial := ?_, onFull := ?_, slab := fun a ha => ?_ }
  · exact h.onPartial.congr fun a ha => hword a (List.mem_append_left _ ha)
  · exact h.onFull.congr fun a ha => hword a (List.mem_append_right _ ha)
  · refine (h.slab a ha).congr hz fun x hx hx' hout => hm x (hpage ha (by omega) hx') ?_
    intro p hp
    by_cases heq : slabOf p = a
    · exact hout p (List.mem_filter.mpr ⟨hp, decide_eq_true heq⟩)
    · have hbounds := slot_bounds (by omega) (h.slot hp)
      have := pages_disjoint (h.page a ha).1 (h.page _ (h.owner p hp)).1 (Ne.symm heq)
      omega

end

theorem congr_slab {free' : List Nat} {out' : List Nat} (hz : 4 ≤ z) (ha : a ∈ part ++ full)
    (h : Lists m z partialHead fullHead part full free out)
    (hm : ∀ x, x < a + 4 ∨ a + slabSize ≤ x → m' x = m x)
    (hslab : SlabInv m' z a free' (out'.filter fun p => slabOf p = a))
    (hout : ∀ b, b ≠ a → out'.filter (fun p => slabOf p = b) = out.filter fun p => slabOf p = b)
    (howner : ∀ p ∈ out', slabOf p ∈ part ++ full) :
    Lists m' z partialHead fullHead part full (update free a free') out' := by
  have hother {b x : Nat} (hb : b ∈ part ++ full) (hne : b ≠ a) (hx : b ≤ x)
      (hx' : x < b + slabSize) : m' x = m x := by
    have := pages_disjoint (h.page b hb).1 (h.page a ha).1 hne
    exact hm x (by omega)
  have hword : ∀ b ∈ part ++ full, word m' b = word m b := by
    intro b hb
    refine word_congr fun x hx hx' => ?_
    by_cases hne : b = a
    · exact hm x (by omega)
    · exact hother hb hne hx (by simp only [slabSize]; omega)
  refine { h with
    onPartial := h.onPartial.congr fun b hb => hword b (List.mem_append_left _ hb)
    onFull := h.onFull.congr fun b hb => hword b (List.mem_append_right _ hb)
    slab := fun b hb => ?_
    owner := howner }
  by_cases hne : b = a
  · rw [hne, update_self]
    exact hslab
  · rw [update_of_ne hne, hout b hne]
    exact (h.slab b hb).congr hz fun x hx hx' _ => hother hb hne (by omega) hx'

theorem filter_cons_self (h : slabOf x = a) :
    (x :: l).filter (fun p => slabOf p = a) = x :: l.filter fun p => slabOf p = a :=
  List.filter_cons_of_pos (decide_eq_true h)

theorem filter_cons_ne (h : slabOf x = a) (hb : b ≠ a) :
    (x :: l).filter (fun p => slabOf p = b) = l.filter fun p => slabOf p = b :=
  List.filter_cons_of_neg (by simpa using fun he => hb (he.symm.trans h))

theorem take {rest : List Nat} (h : Lists m z partialHead fullHead part full free out)
    (hz : 4 ≤ z) (ha : a ∈ part ++ full) (hfree : free a = x :: rest) :
    Lists (takeFrom a x m) z partialHead fullHead part full (update free a rest) (x :: out) := by
  have hslab := h.slab a ha
  rw [hfree] at hslab
  have hbounds := slot_bounds (by omega) (hslab.mem_free List.mem_cons_self)
  have hx : slabOf x = a := slabOf_eq (h.page a ha).1 (by omega) (by omega)
  refine congr_slab hz ha h (fun y hy => takeFrom_of_outside m a x ?_) ?_
    (fun b hb => filter_cons_ne hx hb) ?_
  · simp only [slabSize] at hy
    omega
  · rw [filter_cons_self hx]
    exact hslab.take hz
  · intro p hp
    rcases List.mem_cons.mp hp with rfl | hp
    · rwa [hx]
    · exact h.owner p hp

theorem give (h : Lists m z partialHead fullHead part full free (x :: out)) (hz : 4 ≤ z) :
    Lists (giveTo (slabOf x) x m) z partialHead fullHead part full
      (update free (slabOf x) (x :: free (slabOf x))) out := by
  have ha := h.owner x List.mem_cons_self
  have hslab := h.slab _ ha
  rw [filter_cons_self rfl] at hslab
  have hbounds := slot_bounds (by omega) (h.slot List.mem_cons_self)
  simp only [slabSize, headerSize] at hbounds
  refine congr_slab hz ha h (fun y hy => ?_) (hslab.give hz (h.page _ ha).2.2)
    (fun b hb => (filter_cons_ne rfl hb).symm) fun p hp => h.owner p (List.mem_cons_of_mem x hp)
  simp only [slabSize] at hy
  exact giveTo_of_outside m (by omega) (by omega)

theorem fullHead_lt (h : Lists m z partialHead fullHead part full free out) :
    fullHead < 2 ^ 32 := by
  cases full with
  | nil => exact h.onFull ▸ by decide
  | cons b full =>
    have := h.page b (List.mem_append_right _ List.mem_cons_self)
    rw [h.onFull.1]
    simp only [slabSize] at this
    omega

theorem partialHead_lt (h : Lists m z partialHead fullHead part full free out) :
    partialHead < 2 ^ 32 := by
  cases part with
  | nil => exact h.onPartial ▸ by decide
  | cons b part =>
    have := h.page b (List.mem_append_left _ List.mem_cons_self)
    rw [h.onPartial.1]
    simp only [slabSize] at this
    omega

theorem set_next (h : Lists m z partialHead fullHead part full free out) (hz : 4 ≤ z) (v : Nat)
    (ha : slabSize ∣ a) :
    (∀ b ∈ part ++ full, b ≠ a → word (setWord m (next a) v) b = word m b) ∧
      ∀ b ∈ part ++ full,
        SlabInv (setWord m (next a) v) z b (free b) (out.filter fun p => slabOf p = b) := by
  constructor
  · intro b hb hne
    have := pages_disjoint (h.page b hb).1 ha hne
    simp only [slabSize] at this
    exact word_setWord_of_disjoint _ _ (by simp only [next]; omega)
  · intro b hb
    refine (h.slab b hb).congr hz fun x hx hx' _ => setWord_of_outside _ _ ?_
    simp only [next]
    by_cases hne : b = a
    · omega
    · have := pages_disjoint (h.page b hb).1 ha hne
      simp only [slabSize] at *
      omega

theorem move (h : Lists m z partialHead fullHead (a :: part) full free out) (hz : 4 ≤ z) :
    Lists (setWord m (next a) fullHead) z (word m (next a)) a part (a :: full) free out := by
  have hperm : (part ++ a :: full).Perm (a :: part ++ full) := List.perm_middle
  have hne := List.nodup_cons.mp h.nodup
  have hnot {b : Nat} (hb : b ∈ part ++ full) : b ≠ a := fun heq => hne.1 (heq ▸ hb)
  have hpage := h.page a List.mem_cons_self
  obtain ⟨hword, hslab⟩ := h.set_next hz fullHead hpage.1
  have hkeep {b : Nat} (hb : b ∈ part ++ full) :=
    hword b (List.mem_cons_of_mem a hb) (hnot hb)
  refine ⟨?_, ?_, hperm.nodup_iff.mpr h.nodup, fun b hb => h.page b (hperm.subset hb),
    fun b hb => hslab b (hperm.subset hb), fun p hp => hperm.symm.subset (h.owner p hp)⟩
  · exact h.onPartial.2.2.congr fun b hb => hkeep (List.mem_append_left _ hb)
  · refine ⟨rfl, h.onPartial.2.1, ?_⟩
    rw [word_setWord _ _ h.fullHead_lt]
    exact h.onFull.congr fun b hb => hkeep (List.mem_append_right _ hb)

theorem push (h : Lists m z partialHead fullHead part full free out) (hz : 4 ≤ z)
    (hz' : z ≤ 4080) (hpage : slabSize ∣ a ∧ slabSize ≤ a ∧ a + slabSize ≤ 2 ^ 32)
    (ha : a ∉ part ++ full) :
    Lists (setWord (freshSlab z a m) (next a) partialHead) z a fullHead (a :: part) full
      (update free a (slots z a)) out := by
  have hfresh := SlabInv.fresh hz hz' hpage.2.2 m
  have hnot {b : Nat} (hb : b ∈ part ++ full) : b ≠ a := fun heq => ha (heq ▸ hb)
  have hold : Lists (freshSlab z a m) z partialHead fullHead part full free out := by
    refine h.congr hz fun x hx _ => freshSlab_of_outside hz hz' hpage.2.2 m ?_
    have := pages_disjoint (h.page _ hx).1 hpage.1 (hnot hx)
    simp only [slabOf, slabSize] at *
    omega
  obtain ⟨hword, hslab⟩ := hold.set_next hz partialHead hpage.1
  have hkeep {b : Nat} (hb : b ∈ part ++ full) := hword b hb (hnot hb)
  refine ⟨⟨rfl, ?_, ?_⟩, ?_, List.nodup_cons.mpr ⟨ha, h.nodup⟩, ?_, ?_, ?_⟩
  · have := hpage.2.1
    simp only [slabSize] at this
    omega
  · rw [word_setWord _ _ hold.partialHead_lt]
    exact hold.onPartial.congr fun b hb => hkeep (List.mem_append_left _ hb)
  · exact hold.onFull.congr fun b hb => hkeep (List.mem_append_right _ hb)
  · intro b hb
    rcases List.mem_cons.mp hb with rfl | hb
    · exact hpage
    · exact h.page b hb
  · intro b hb
    rcases List.mem_cons.mp hb with rfl | hb
    · have hnone : out.filter (fun p => slabOf p = b) = [] := by
        refine List.filter_eq_nil_iff.mpr fun p hp heq => ha ?_
        rw [← of_decide_eq_true heq]
        exact h.owner p hp
      rw [update_self, hnone]
      exact hfresh.congr hz fun x hx _ _ => setWord_of_outside _ _ (by simp only [next]; omega)
    · rw [update_of_ne (hnot hb)]
      exact hslab b hb
  · exact fun p hp => List.mem_cons_of_mem a (h.owner p hp)

end Lists

theorem length_add_two_le {N : Nat} (hN : 2 ≤ N) (hn : l.Nodup) (h : ∀ p ∈ l, 2 ≤ p ∧ p < N) :
    l.length + 2 ≤ N := by
  have hnodup : (0 :: 1 :: l).Nodup := by
    refine List.nodup_cons.mpr ⟨?_, List.nodup_cons.mpr ⟨fun h1 => ?_, hn⟩⟩
    · intro h0
      rcases List.mem_cons.mp h0 with h0 | h0
      · exact absurd h0 (by decide)
      · exact absurd (h 0 h0).1 (by decide)
    · exact absurd (h 1 h1).1 (by decide)
  have hsub : 0 :: 1 :: l ⊆ List.range N := by
    intro p hp
    rw [List.mem_range]
    rcases List.mem_cons.mp hp with rfl | hp
    · omega
    · rcases List.mem_cons.mp hp with rfl | hp
      · omega
      · exact (h p hp).2
  have hle := (hnodup.subperm hsub).length_le
  simp only [List.length_cons, List.length_range] at hle
  omega

theorem Lists.length_out (h : Lists m z partialHead fullHead part full free out) (hz : 0 < z) :
    out.length + 2 ≤ 2 ^ 32 := by
  refine length_add_two_le (by decide) (h.out_nodup hz) fun p hp => ?_
  have hslot := slot_bounds hz (h.slot hp)
  have hpage := h.page _ (h.owner p hp)
  simp only [slabSize, headerSize] at *
  omega

theorem Lists.length_slabs (h : Lists m z partialHead fullHead part full free out) :
    (part ++ full).length + 2 ≤ 2 ^ 32 := by
  refine length_add_two_le (by decide) h.nodup fun a ha => ?_
  have hpage := h.page a ha
  simp only [slabSize] at hpage
  omega

structure Inv (m : Memory) (c : Cache) (part full : List Nat) (free : Nat → List Nat)
    (out : List Nat) : Prop where
  lists : Lists m c.objSize c.slabsPartial c.slabsFull part full free out
  size : 4 ≤ c.objSize ∧ c.objSize ≤ 4080
  slabsFree : c.slabsFree = 0
  available : ∀ a ∈ part, free a ≠ []
  numActive : c.numActive = out.length
  numSlabs : c.numSlabs = (part ++ full).length

/-- The pages that a call of `kmem_cache_alloc` takes from the buddy allocator. -/
def obtained (c : Cache) (heap : Heap) : List Nat :=
  if c.slabsPartial = 0 ∧ c.slabsFree = 0 ∧ (allocSlab c heap).1 ≠ 0 then [(allocSlab c heap).1]
  else []

structure SameKind (c c' : Cache) : Prop where
  objSize : c'.objSize = c.objSize
  ctor : c'.ctor = c.ctor
  dtor : c'.dtor = c.dtor

/-- Slabs are single pages of the buddy allocator; `others` are blocks of other users. -/
def Owns (heap : Heap) (slabs : List Nat) (others : List (Nat × Nat)) : Prop :=
  Buddy.Outstanding heap.buddy (slabs.map (·, 0) ++ others)

theorem Owns.page {heap : Heap} {slabs : List Nat} {others : List (Nat × Nat)}
    (h : Owns heap slabs others) (ha : a ∈ slabs) :
    slabSize ∣ a ∧ slabSize ≤ a ∧ a + slabSize ≤ 2 ^ 32 := by
  have hmem : (a, 0) ∈ slabs.map (·, 0) ++ others :=
    List.mem_append_left _ (List.mem_map_of_mem ha)
  have hdvd := h.aligned hmem
  have hfirst := h.bounds hmem (x := a) (by simp [Buddy.inRegion])
  have hlast := h.bounds hmem (x := a + 4095) (by simp [Buddy.inRegion])
  simp only [Buddy.pageSize, Buddy.buddyStartAddr, Buddy.buddyEndAddr, slabSize, Nat.pow_zero,
    Nat.mul_one] at *
  exact ⟨hdvd, by omega, by omega⟩

/-- What a call on the cache `c` leaves: the cache `c'` with objects `out`, and every byte
outside its slabs as it was. -/
structure After (c : Cache) (heap : Heap) (slabs : List Nat) (others : List (Nat × Nat))
    (c' : Cache) (heap' : Heap) (part full : List Nat) (free : Nat → List Nat)
    (out : List Nat) : Prop where
  inv : Inv heap'.memory c' part full free out
  owns : Owns heap' (part ++ full) others
  slabs : (part ++ full).Perm (obtained c heap ++ slabs)
  kind : SameKind c c'
  frame : ∀ x, slabOf x ∉ part ++ full → heap'.memory x = heap.memory x

variable {c : Cache} {heap : Heap} {others : List (Nat × Nat)}

theorem Inv.slabForAlloc (h : Inv heap.memory c part full free out)
    (ho : Owns heap (part ++ full) others) :
    slabForAlloc c heap = (0, c, heap) ∧ obtained c heap = [] ∧ (Buddy.buddyAlloc heap.buddy 0).2 = 0 ∨
      ∃ a part' free' c' heap', slabForAlloc c heap = (a, c', heap') ∧
        After c heap (part ++ full) others c' heap' (a :: part') full free' out ∧
        ∀ b ∈ full, free' b = free b := by
  by_cases hnone : c.slabsPartial = 0
  · have hpart : part = [] := Chain.eq_nil (hnone ▸ h.lists.onPartial)
    subst hpart
    rcases ho.alloc 0 with he | ⟨t, a, he, hne, ho'⟩
    · left
      have hslab : allocSlab c heap = (0, c, heap) := by
        rw [allocSlab_eq, he]
        rfl
      simp [Slab.slabForAlloc, obtained, hnone, h.slabsFree, hslab, he]
    · right
      have hslab : allocSlab c heap = (a, { c with numSlabs := succ32 c.numSlabs },
          ⟨freshSlab c.objSize a heap.memory, t⟩) := by
        rw [allocSlab_eq, he]
        simp only [hne, if_false]
      have hnew : Owns ⟨setWord (freshSlab c.objSize a heap.memory) (next a) c.slabsPartial, t⟩
        (a :: ([] ++ full)) others := ho'
      have hpage := hnew.page List.mem_cons_self
      have hnot : a ∉ [] ++ full := by
        intro hmem
        have := (List.pairwise_cons.mp ho'.disjoint).1 (a, 0)
          (List.mem_append_left _ (List.mem_map_of_mem hmem)) a
        simp [Buddy.inRegion] at this
      have hlists := h.lists.push h.size.1 h.size.2 hpage hnot
      have hlength := hlists.length_slabs
      refine ⟨a, [], _, { c with numSlabs := succ32 c.numSlabs, slabsPartial := a }, _, ?_,
        ⟨⟨hlists, h.size, h.slabsFree, ?_, h.numActive, ?_⟩, hnew, ?_, ⟨rfl, rfl, rfl⟩, ?_⟩,
        fun b hb => update_of_ne (ne_of_mem_of_not_mem hb hnot) _ _⟩
      · simp [Slab.slabForAlloc, hnone, h.slabsFree, hslab, hne, pushPartial]
      · intro b hb
        obtain rfl := List.mem_singleton.mp hb
        rw [update_self, ← List.length_pos_iff, length_slots]
        exact capacity_pos h.size.1 h.size.2
      · have hcount : ([a] ++ full).length = ([] ++ full).length + 1 := rfl
        show succ32 c.numSlabs = _
        rw [hcount] at hlength ⊢
        rw [h.numSlabs, succ32, Nat.mod_eq_of_lt (by omega)]
      · simp [obtained, hnone, h.slabsFree, hslab, hne]
      · intro x hx
        have hout : x < a ∨ a + slabSize ≤ x := by
          by_contra hin
          refine hx ?_
          rw [slabOf_eq hpage.1 (by omega) (by omega)]
          exact List.mem_cons_self
        have hnext : x < a ∨ a + 4 ≤ x := by
          simp only [slabSize] at hout
          omega
        exact (setWord_of_outside _ _ hnext).trans
          (freshSlab_of_outside h.size.1 h.size.2 hpage.2.2 _ hout)
  · right
    obtain ⟨rest, rfl, -⟩ := h.lists.onPartial.exists_cons hnone
    refine ⟨c.slabsPartial, rest, free, c, heap, ?_, ⟨h, ho, ?_, ⟨rfl, rfl, rfl⟩, fun _ _ => rfl⟩,
      fun _ _ => rfl⟩
    · simp [Slab.slabForAlloc, hnone]
    · simp [obtained, hnone]

def Local (z : Nat) (hook : Option (Nat → Memory → Memory)) : Prop :=
  ∀ f ∈ hook, ∀ obj m x, x < obj ∨ obj + z ≤ x → f obj m x = m x

theorem local_none (z : Nat) : Local z none := by
  intro f hf
  cases hf

theorem runHook_of_outside {hook : Option (Nat → Memory → Memory)} (h : Local z hook)
    (hx : x < p ∨ p + z ≤ x) : runHook hook p m x = m x := by
  cases hook with
  | none => rfl
  | some f => exact h f rfl p m x hx

theorem Lists.runHook {hook : Option (Nat → Memory → Memory)}
    (h : Lists m z partialHead fullHead part full free out) (hz : 4 ≤ z) (hl : Local z hook)
    (hp : p ∈ out) : Lists (Slab.runHook hook p m) z partialHead fullHead part full free out :=
  h.congr hz fun _ _ hx => runHook_of_outside hl (hx p hp)

theorem moveToFull_head {slab : Nat} (h : c.slabsPartial = slab) (m : Memory) :
    moveToFull slab c m =
      ({ c with slabsPartial := word m (next slab), slabsFull := slab },
        setWord m (next slab) c.slabsFull) := by
  simp only [moveToFull, removePartial, h, if_true]

def takeObject (slab obj : Nat) (c : Cache) (m : Memory) : Cache × Memory :=
  let m := takeFrom slab obj m
  let c := { c with numActive := succ32 c.numActive }
  if word m (inuse slab) = word m (total slab) then moveToFull slab c m else (c, m)

theorem kmemCacheAlloc_eq {slab : Nat} {c' : Cache} {heap' : Heap}
    (h : slabForAlloc c heap = (slab, c', heap')) (hs : slab ≠ 0)
    (ho : word heap'.memory (freeList slab) = obj) (hne : obj ≠ 0) : kmemCacheAlloc c heap =
      (let r := takeObject slab obj c' heap'.memory
       (obj, r.1, { heap' with memory := runHook r.1.ctor obj r.2 })) := by
  simp only [kmemCacheAlloc, h, hs, ho, hne, if_false]
  rfl

theorem Inv.exists_object (h : Inv m c (a :: part) full free out) :
    ∃ obj rest, free a = obj :: rest ∧ word m (freeList a) = obj ∧ obj ≠ 0 := by
  obtain ⟨obj, rest, hfree⟩ := List.exists_cons_of_ne_nil (h.available a List.mem_cons_self)
  have hchain := (h.lists.slab a List.mem_cons_self).chain
  rw [hfree] at hchain
  exact ⟨obj, rest, hfree, hchain.1, hchain.2.1⟩

theorem Inv.take {rest : List Nat} (h : Inv m c (a :: part) full free out)
    (hfree : free a = obj :: rest) : ∃ c' m' part' full' free', takeObject a obj c m = (c', m') ∧
      (part' ++ full').Perm (a :: part ++ full) ∧ Inv m' c' part' full' free' (obj :: out) ∧
      SameKind c c' ∧ (∀ x, x < a ∨ a + slabSize ≤ x → m' x = m x) ∧
      ∀ b ∈ full', free' b = [] ∨ b ∈ full ∧ free' b = free b := by
  have ha : a ∈ a :: part ++ full := List.mem_cons_self
  have hlists := h.lists.take h.size.1 ha hfree
  have hhead : c.slabsPartial = a := h.lists.onPartial.1
  have hnot := (List.nodup_cons.mp h.lists.nodup).1
  have hfull := (hlists.slab a ha).inuse_eq_total
  rw [update_self] at hfull
  have hlength := h.lists.length_out (Nat.lt_of_lt_of_le (by decide) h.size.1)
  have hactive : succ32 c.numActive = (obj :: out).length := by
    rw [h.numActive, succ32, Nat.mod_eq_of_lt (by omega), List.length_cons]
  have hkeep : ∀ b ∈ part, update free a rest b ≠ [] := by
    intro b hb
    have hne : b ≠ a := by
      rintro rfl
      exact hnot (List.mem_append_left _ hb)
    rw [update_of_ne hne]
    exact h.available b (List.mem_cons_of_mem a hb)
  have hsame : ∀ b ∈ full, update free a rest b = free b := fun b hb =>
    update_of_ne (ne_of_mem_of_not_mem (List.mem_append_right _ hb) hnot) _ _
  by_cases hrest : rest = []
  · have hr : takeObject a obj c m =
        ({ c with
            numActive := succ32 c.numActive
            slabsPartial := word (takeFrom a obj m) (next a)
            slabsFull := a },
          setWord (takeFrom a obj m) (next a) c.slabsFull) := by
      simp only [takeObject, hfull.mpr hrest, if_true]
      exact moveToFull_head (c := { c with numActive := succ32 c.numActive }) hhead _
    refine ⟨_, _, part, a :: full, _, hr, List.perm_middle,
      ⟨hlists.move h.size.1, h.size, h.slabsFree, hkeep, hactive, ?_⟩, ⟨rfl, rfl, rfl⟩, ?_, ?_⟩
    · rw [List.perm_middle.length_eq]
      exact h.numSlabs
    · intro x hx
      simp only [slabSize] at hx
      rw [setWord_of_outside _ _ (by simp only [next]; omega),
        takeFrom_of_outside _ _ _ (by omega)]
    · intro b hb
      rcases List.mem_cons.mp hb with rfl | hb
      · exact .inl ((update_self ..).trans hrest)
      · exact .inr ⟨hb, hsame b hb⟩
  · have hr : takeObject a obj c m =
        ({ c with numActive := succ32 c.numActive }, takeFrom a obj m) := by
      simp only [takeObject, mt hfull.mp hrest, if_false]
    refine ⟨_, _, a :: part, full, _, hr, .rfl,
      ⟨hlists, h.size, h.slabsFree, ?_, hactive, h.numSlabs⟩, ⟨rfl, rfl, rfl⟩, ?_,
      fun b hb => .inr ⟨hb, hsame b hb⟩⟩
    · intro b hb
      rcases List.mem_cons.mp hb with rfl | hb
      · rwa [update_self]
      · exact hkeep b hb
    · intro x hx
      simp only [slabSize] at hx
      exact takeFrom_of_outside _ _ _ (by omega)

theorem Inv.alloc (h : Inv heap.memory c part full free out)
    (ho : Owns heap (part ++ full) others) (hctor : Local c.objSize c.ctor) :
    kmemCacheAlloc c heap = (0, c, heap) ∧ obtained c heap = [] ∧ (Buddy.buddyAlloc heap.buddy 0).2 = 0 ∨
      ∃ obj c' heap' part' full' free', kmemCacheAlloc c heap = (obj, c', heap') ∧ obj ≠ 0 ∧
        After c heap (part ++ full) others c' heap' part' full' free' (obj :: out) ∧
        ∀ b ∈ full', free' b = [] ∨ b ∈ full ∧ free' b = free b := by
  rcases h.slabForAlloc ho with ⟨he, hnone⟩ | ⟨a, part₁, free₁, c₁, heap₁, he, hafter, hfull⟩
  · left
    exact ⟨by simp only [kmemCacheAlloc, he, if_true], hnone⟩
  · right
    obtain ⟨obj, rest, hfree, hobj, hne⟩ := hafter.inv.exists_object
    obtain ⟨c₂, m₂, part', full', free', hr, hperm, hinv, hkind, hframe, hfull'⟩ :=
      hafter.inv.take hfree
    have hslab := hafter.inv.lists.onPartial.2.1
    have ha : a ∈ a :: part₁ ++ full := List.mem_cons_self
    have hpage := hafter.inv.lists.page a ha
    have hbounds := slot_bounds (Nat.lt_of_lt_of_le (by decide) hafter.inv.size.1)
      ((hafter.inv.lists.slab a ha).mem_free (hfree ▸ List.mem_cons_self))
    have hsize : c₂.objSize = c₁.objSize := hkind.objSize
    have hctor₂ : Local c₂.objSize c₂.ctor := by
      rwa [hkind.objSize, hkind.ctor, hafter.kind.objSize, hafter.kind.ctor]
    have heq := kmemCacheAlloc_eq he hslab hobj hne
    rw [hr] at heq
    refine ⟨obj, _, _, part', full', free', heq, hne, ⟨?_, ?_, hperm.trans hafter.slabs, ?_, ?_⟩,
      fun b hb => (hfull' b hb).imp_right fun ⟨hb', he⟩ => ⟨hb', he.trans (hfull b hb')⟩⟩
    · exact { hinv with lists := hinv.lists.runHook hinv.size.1 hctor₂ List.mem_cons_self }
    · exact hafter.owns.perm ((hperm.symm.map _).append_right others)
    · exact ⟨hkind.objSize.trans hafter.kind.objSize, hkind.ctor.trans hafter.kind.ctor,
        hkind.dtor.trans hafter.kind.dtor⟩
    · intro x hx
      have hx' : slabOf x ∉ a :: part₁ ++ full := fun hmem => hx (hperm.symm.subset hmem)
      have hout : x < a ∨ a + slabSize ≤ x := by
        by_contra hin
        exact hx' ((slabOf_eq hpage.1 (p := x) (by omega) (by omega)).symm ▸ ha)
      have hobj : x < obj ∨ obj + c₂.objSize ≤ x := by omega
      exact (runHook_of_outside hctor₂ hobj).trans ((hframe x hout).trans (hafter.frame x hx'))

theorem kmemCacheFree_eq (c : Cache) (h : obj ≠ 0) (m : Memory) : kmemCacheFree c obj m =
      ({ c with numActive := pred32 c.numActive },
        giveTo (slabOf obj) obj (runHook c.dtor obj m)) := by
  simp only [kmemCacheFree, h, if_false, giveTo]

theorem Inv.release (h : Inv m c part full free out) (hobj : obj ∈ out)
    (hdtor : Local c.objSize c.dtor) :
    ∃ c' m' free', kmemCacheFree c obj m = (c', m') ∧ SameKind c c' ∧
      Inv m' c' part full free' (out.erase obj) ∧ ∀ b, b ≠ slabOf obj → free' b = free b := by
  have hpos : 0 < c.objSize := Nat.lt_of_lt_of_le (by decide) h.size.1
  have hbounds := slot_bounds hpos (h.lists.slot hobj)
  have hne : obj ≠ 0 := by
    simp only [headerSize] at hbounds
    omega
  have hperm : out.Perm (obj :: out.erase obj) := List.perm_cons_erase hobj
  have hhook := (h.lists.runHook h.size.1 hdtor hobj).perm_out hperm
  have hlength := h.lists.length_out hpos
  refine ⟨_, _, _, kmemCacheFree_eq c hne m, ⟨rfl, rfl, rfl⟩, ⟨hhook.give h.size.1, h.size,
    h.slabsFree, ?_, ?_, h.numSlabs⟩, fun b hb => update_of_ne hb _ _⟩
  · intro b hb
    by_cases heq : b = slabOf obj
    · rw [heq, update_self]
      exact List.cons_ne_nil _ _
    · rw [update_of_ne heq]
      exact h.available b hb
  · have hout := hperm.length_eq
    rw [List.length_cons] at hout
    rw [h.numActive, hout, pred32_eq (by omega) (by omega), Nat.add_sub_cancel]

end TocinOS.Slab

import TocinOS.Slab

/-! One slab: its object slots, its free list through the free objects, and what taking
and giving back an object does to them. -/

namespace TocinOS.Slab

open MemoryWords

variable {m m' : Memory} {z a b p q x : Nat} {free out : List Nat}

def capacity (objSize : Nat) : Nat := (slabSize - headerSize) / objSize

def slots (objSize slab : Nat) : List Nat :=
  (List.range (capacity objSize)).map fun k => slab + headerSize + k * objSize

theorem mem_slots : p ∈ slots z a ↔ ∃ k < capacity z, a + headerSize + k * z = p := by
  simp only [slots, List.mem_map, List.mem_range]

theorem length_slots (z a : Nat) : (slots z a).length = capacity z := by
  simp only [slots, List.length_map, List.length_range]

theorem capacity_le (z : Nat) : capacity z ≤ slabSize - headerSize := Nat.div_le_self _ _

theorem slots_nodup (hz : 0 < z) (a : Nat) : (slots z a).Nodup := by
  refine List.nodup_range.map fun k l h => ?_
  have hmul : k * z = l * z := Nat.add_left_cancel h
  exact Nat.eq_of_mul_eq_mul_right hz hmul

theorem slot_bounds (hz : 0 < z) (h : p ∈ slots z a) :
    a + headerSize ≤ p ∧ p + z ≤ a + slabSize := by
  obtain ⟨k, hk, rfl⟩ := mem_slots.mp h
  have hmul : (k + 1) * z ≤ slabSize - headerSize := (Nat.le_div_iff_mul_le hz).mp hk
  rw [Nat.add_mul] at hmul
  simp only [slabSize, headerSize] at *
  omega

theorem slots_disjoint (hp : p ∈ slots z a) (hq : q ∈ slots z a) (hne : p ≠ q) :
    p + z ≤ q ∨ q + z ≤ p := by
  obtain ⟨k, -, rfl⟩ := mem_slots.mp hp
  obtain ⟨l, -, rfl⟩ := mem_slots.mp hq
  rcases Nat.lt_trichotomy k l with h | rfl | h
  · have := Nat.mul_le_mul_right z (Nat.succ_le_of_lt h)
    rw [Nat.succ_mul] at this
    omega
  · exact absurd rfl hne
  · have := Nat.mul_le_mul_right z (Nat.succ_le_of_lt h)
    rw [Nat.succ_mul] at this
    omega

theorem slabOf_eq (ha : slabSize ∣ a) (h : a ≤ p) (h' : p < a + slabSize) : slabOf p = a := by
  obtain ⟨k, rfl⟩ := ha
  simp only [slabOf, slabSize] at *
  omega

theorem pages_disjoint (ha : slabSize ∣ a) (hb : slabSize ∣ b) (hne : a ≠ b) :
    a + slabSize ≤ b ∨ b + slabSize ≤ a := by
  obtain ⟨k, rfl⟩ := ha
  obtain ⟨l, rfl⟩ := hb
  simp only [slabSize] at *
  omega

theorem offsets (a : Nat) :
    next a = a ∧ freeList a = a + 4 ∧ inuse a = a + 8 ∧ total a = a + 12 :=
  ⟨rfl, rfl, rfl, rfl⟩

/-- The slab at `a` has the free objects `free`, in the order of its list, and has handed
out the objects `out`. -/
structure SlabInv (m : Memory) (z a : Nat) (free out : List Nat) : Prop where
  chain : Chain m (word m (freeList a)) free
  inuse : word m (inuse a) = out.length
  total : word m (total a) = capacity z
  perm : (free ++ out).Perm (slots z a)

namespace SlabInv

theorem mem_free (h : SlabInv m z a free out) (hp : p ∈ free) : p ∈ slots z a :=
  h.perm.subset (List.mem_append_left _ hp)

theorem mem_out (h : SlabInv m z a free out) (hp : p ∈ out) : p ∈ slots z a :=
  h.perm.subset (List.mem_append_right _ hp)

theorem nodup (h : SlabInv m z a free out) (hz : 0 < z) : (free ++ out).Nodup :=
  h.perm.nodup_iff.mpr (slots_nodup hz a)

theorem length_eq (h : SlabInv m z a free out) : free.length + out.length = capacity z := by
  rw [← length_slots z a, ← h.perm.length_eq, List.length_append]

theorem perm_out {out' : List Nat} (h : SlabInv m z a free out) (hp : out.Perm out') :
    SlabInv m z a free out' :=
  ⟨h.chain, h.inuse.trans hp.length_eq, h.total, (hp.append_left free).symm.trans h.perm⟩

theorem congr (h : SlabInv m z a free out) (hz : 4 ≤ z)
    (hm : ∀ x, a + 4 ≤ x → x < a + slabSize → (∀ p ∈ out, x < p ∨ p + z ≤ x) → m' x = m x) :
    SlabInv m' z a free out := by
  have hheader {x : Nat} (h4 : a + 4 ≤ x) (h16 : x < a + headerSize) : m' x = m x := by
    refine hm x h4 (by simp only [headerSize, slabSize] at *; omega) fun p hp => ?_
    have := slot_bounds (by omega) (h.mem_out hp)
    omega
  have hfree : ∀ p ∈ free, word m' p = word m p := by
    intro p hp
    have hbounds := slot_bounds (by omega) (h.mem_free hp)
    refine word_congr fun x hx hx' => hm x (by simp only [headerSize] at *; omega) (by omega) ?_
    intro q hq
    have hne : p ≠ q := (List.nodup_append.mp (h.nodup (by omega))).2.2 p hp q hq
    have := slots_disjoint (h.mem_free hp) (h.mem_out hq) hne
    omega
  have hword {k : Nat} (h4 : 4 ≤ k) (h12 : k ≤ 12) : word m' (a + k) = word m (a + k) :=
    word_congr fun x hx hx' => hheader (by omega) (by simp only [headerSize]; omega)
  refine ⟨?_, ?_, ?_, h.perm⟩
  · rw [freeList, hword (by omega) (by omega)]
    exact h.chain.congr hfree
  · rw [Slab.inuse, hword (by omega) (by omega)]
    exact h.inuse
  · rw [Slab.total, hword (by omega) (by omega)]
    exact h.total

end SlabInv

def takeFrom (slab x : Nat) (m : Memory) : Memory :=
  let m := setWord m (freeList slab) (word m x)
  setWord m (inuse slab) (succ32 (word m (inuse slab)))

def giveTo (slab x : Nat) (m : Memory) : Memory :=
  let m := setWord m x (word m (freeList slab))
  let m := setWord m (freeList slab) x
  setWord m (inuse slab) (pred32 (word m (inuse slab)))

theorem takeFrom_of_outside (m : Memory) (a p : Nat) (h : x < a + 4 ∨ a + 12 ≤ x) :
    takeFrom a p m x = m x := by
  have hoff := offsets a
  simp only [takeFrom]
  rw [setWord_of_outside _ _ (by omega), setWord_of_outside _ _ (by omega)]

theorem giveTo_of_outside (m : Memory) (h : x < a + 4 ∨ a + 12 ≤ x) (h' : x < p ∨ p + 4 ≤ x) :
    giveTo a p m x = m x := by
  have hoff := offsets a
  simp only [giveTo]
  rw [setWord_of_outside _ _ (by omega), setWord_of_outside _ _ (by omega),
    setWord_of_outside _ _ h']

namespace SlabInv

theorem take (h : SlabInv m z a (x :: free) out) (hz : 4 ≤ z) :
    SlabInv (takeFrom a x m) z a free (x :: out) := by
  have hoff := offsets a
  have hlength := h.length_eq
  have hcapacity := capacity_le z
  simp only [List.length_cons, slabSize, headerSize] at hlength hcapacity
  have hkeep : ∀ p ∈ free, word (takeFrom a x m) p = word m p := by
    intro p hp
    have := slot_bounds (by omega) (h.mem_free (List.mem_cons_of_mem x hp))
    simp only [headerSize] at this
    exact word_congr fun y hy hy' => takeFrom_of_outside m a x (by omega)
  have hlist : word (takeFrom a x m) (freeList a) = word m x := by
    simp only [takeFrom]
    rw [word_setWord_of_disjoint _ _ (by omega), word_setWord _ _ (word_lt m x)]
  refine ⟨?_, ?_, ?_, List.perm_middle.trans h.perm⟩
  · rw [hlist]
    exact (h.chain.2.2).congr hkeep
  · have hinuse : word (setWord m (freeList a) (word m x)) (Slab.inuse a) = out.length := by
      rw [word_setWord_of_disjoint _ _ (by omega)]
      exact h.inuse
    simp only [takeFrom, hinuse, succ32]
    rw [word_setWord _ _ (Nat.mod_lt _ (by decide)), Nat.mod_eq_of_lt (by omega), List.length_cons]
  · rw [← h.total]
    exact word_congr fun y hy hy' => takeFrom_of_outside m a x (by omega)

theorem give (h : SlabInv m z a free (x :: out)) (hz : 4 ≤ z) (ha : a + slabSize ≤ 2 ^ 32) :
    SlabInv (giveTo a x m) z a (x :: free) out := by
  have hoff := offsets a
  have hlength := h.length_eq
  have hcapacity := capacity_le z
  have hx := slot_bounds (by omega) (h.mem_out List.mem_cons_self)
  simp only [List.length_cons, slabSize, headerSize] at hlength hcapacity hx ha
  have hnodup := h.nodup (by omega)
  have hkeep : ∀ p ∈ free, word (giveTo a x m) p = word m p := by
    intro p hp
    have hbounds := slot_bounds (by omega) (h.mem_free hp)
    simp only [headerSize] at hbounds
    have hne : p ≠ x := (List.nodup_append.mp hnodup).2.2 p hp x List.mem_cons_self
    have := slots_disjoint (h.mem_free hp) (h.mem_out List.mem_cons_self) hne
    exact word_congr fun y hy hy' => giveTo_of_outside m (by omega) (by omega)
  have hlink : word (giveTo a x m) x = word m (freeList a) := by
    simp only [giveTo]
    rw [word_setWord_of_disjoint _ _ (by omega), word_setWord_of_disjoint _ _ (by omega),
      word_setWord _ _ (word_lt m _)]
  have hlist : word (giveTo a x m) (freeList a) = x := by
    simp only [giveTo]
    rw [word_setWord_of_disjoint _ _ (by omega), word_setWord _ _ (by omega)]
  refine ⟨?_, ?_, ?_, List.perm_middle.symm.trans h.perm⟩
  · rw [hlist]
    refine ⟨rfl, by omega, ?_⟩
    rw [hlink]
    exact h.chain.congr hkeep
  · have hinuse : word (setWord (setWord m x (word m (freeList a))) (freeList a) x)
        (Slab.inuse a) = out.length + 1 := by
      rw [word_setWord_of_disjoint _ _ (by omega), word_setWord_of_disjoint _ _ (by omega)]
      exact h.inuse
    simp only [giveTo, hinuse, pred32]
    rw [word_setWord _ _ (Nat.mod_lt _ (by decide))]
    omega
  · rw [← h.total]
    exact word_congr fun y hy hy' => giveTo_of_outside m (by omega) (by omega)

theorem inuse_eq_total (h : SlabInv m z a free out) :
    word m (Slab.inuse a) = word m (Slab.total a) ↔ free = [] := by
  rw [h.inuse, h.total, ← h.length_eq, ← List.length_eq_zero_iff]
  omega

end SlabInv

/-! ### A new slab -/

variable {s n : Nat}

theorem object_eq {i : Nat} (h : s + i * z < 2 ^ 32) : object s z i = s + i * z :=
  Nat.mod_eq_of_lt h

theorem linkObjects_of_outside (hs : s + n * z ≤ 2 ^ 32) (hz : 4 ≤ z) (m : Memory)
    (h : x < s ∨ s + n * z ≤ x) : linkObjects s z n m x = m x := by
  induction n with
  | zero => rfl
  | succ n ih =>
    rw [Nat.succ_mul] at hs h
    rw [linkObjects, List.range_succ, List.foldl_append, List.foldl_cons, List.foldl_nil,
      ← linkObjects, setWord_of_outside _ _ (by rw [object_eq (by omega)]; omega),
      ih (by omega) (by omega)]

theorem linkObjects_link {i : Nat} (hs : s + n * z < 2 ^ 32) (hz : 4 ≤ z) (m : Memory)
    (hi : i < n) : word (linkObjects s z n m) (s + i * z) = s + (i + 1) * z := by
  induction n with
  | zero => exact absurd hi (Nat.not_lt_zero i)
  | succ n ih =>
    have hlast : object s z (n + 1) = s + (n + 1) * z := object_eq hs
    rw [Nat.succ_mul] at hs
    rw [linkObjects, List.range_succ, List.foldl_append, List.foldl_cons, List.foldl_nil,
      ← linkObjects, hlast, object_eq (i := n) (by omega)]
    rcases Nat.lt_succ_iff_lt_or_eq.mp hi with h | rfl
    · have hmul := Nat.mul_le_mul_right z (Nat.succ_le_of_lt h)
      rw [Nat.succ_mul] at hmul
      rw [word_setWord_of_disjoint _ _ (by omega), ih (by omega) h]
    · rw [word_setWord _ _ (by rw [Nat.succ_mul]; omega)]

def freshSlab (objSize slab : Nat) (m : Memory) : Memory :=
  let m := setWord m (next slab) 0
  let m := setWord m (inuse slab) 0
  let m := setWord m (total slab) (capacity objSize)
  let m := setWord m (freeList slab) (slab + headerSize)
  let m := linkObjects (slab + headerSize) objSize (pred32 (capacity objSize)) m
  setWord m (object (slab + headerSize) objSize (pred32 (capacity objSize))) 0

theorem allocSlab_eq (c : Cache) (heap : Heap) :
    allocSlab c heap =
      (let r := Buddy.buddyAlloc heap.buddy 0
       if r.2 = 0 then (0, c, { heap with buddy := r.1 })
       else (r.2, { c with numSlabs := succ32 c.numSlabs },
        ⟨freshSlab c.objSize r.2 heap.memory, r.1⟩)) := rfl

theorem capacity_pos (hz : 4 ≤ z) (hz' : z ≤ 4080) : 0 < capacity z :=
  Nat.div_pos hz' (by omega)

theorem pred32_eq (h : 0 < n) (h' : n ≤ 2 ^ 32) : pred32 n = n - 1 := by
  simp only [pred32]
  omega

section Fresh

variable (hz : 4 ≤ z) (hz' : z ≤ 4080) (ha : a + slabSize ≤ 2 ^ 32)

include hz hz' ha

theorem freshSlab_eq (m : Memory) : ∃ n, capacity z = n + 1 ∧ (n + 1) * z ≤ 4080 ∧
    freshSlab z a m = setWord (linkObjects (a + headerSize) z n
      (setWord (setWord (setWord (setWord m (next a) 0) (inuse a) 0) (total a) (n + 1))
        (freeList a) (a + headerSize))) (a + headerSize + n * z) 0 := by
  obtain ⟨n, hn⟩ := Nat.exists_eq_add_one_of_ne_zero (capacity_pos hz hz').ne'
  have hmul : (n + 1) * z ≤ 4080 := hn ▸ Nat.div_mul_le_self _ _
  have hle := capacity_le z
  have hnz : n * z + 4 ≤ 4080 := by
    rw [Nat.succ_mul] at hmul
    omega
  simp only [slabSize, headerSize] at hle ha
  refine ⟨n, hn, hmul, ?_⟩
  simp only [freshSlab, hn]
  rw [pred32_eq (by omega) (by omega), Nat.add_sub_cancel, object_eq]
  simp only [headerSize]
  omega

theorem freshSlab_of_outside (m : Memory) (h : x < a ∨ a + slabSize ≤ x) :
    freshSlab z a m x = m x := by
  have hoff := offsets a
  obtain ⟨n, -, hmul, heq⟩ := freshSlab_eq hz hz' ha m
  rw [Nat.succ_mul] at hmul
  simp only [slabSize] at ha h
  rw [heq, setWord_of_outside _ _ (by simp only [headerSize]; omega),
    linkObjects_of_outside (by simp only [headerSize]; omega) hz _
      (by simp only [headerSize]; omega)]
  rw [setWord_of_outside _ _ (by omega), setWord_of_outside _ _ (by omega),
    setWord_of_outside _ _ (by omega), setWord_of_outside _ _ (by omega)]

theorem SlabInv.fresh (m : Memory) : SlabInv (freshSlab z a m) z a (slots z a) [] := by
  have hoff := offsets a
  obtain ⟨n, hn, hmul, heq⟩ := freshSlab_eq hz hz' ha m
  have hle := capacity_le z
  rw [hn] at hle
  rw [Nat.succ_mul] at hmul
  simp only [slabSize, headerSize] at ha hle heq
  generalize hm₀ : setWord (setWord (setWord (setWord m (next a) 0) (Slab.inuse a) 0)
    (Slab.total a) (n + 1)) (freeList a) (a + 16) = m₀ at heq
  have hheader {k : Nat} (hk : k ≤ 12) : word (freshSlab z a m) (a + k) = word m₀ (a + k) := by
    refine word_congr fun y hy hy' => ?_
    rw [heq, setWord_of_outside _ _ (by omega), linkObjects_of_outside (by omega) hz _ (by omega)]
  have hlist : word m₀ (freeList a) = a + 16 := by
    rw [← hm₀, word_setWord _ _ (by omega)]
  have hlink : ∀ i < n, word (freshSlab z a m) (a + 16 + i * z) = a + 16 + (i + 1) * z := by
    intro i hi
    have hstep := Nat.mul_le_mul_right z (Nat.succ_le_of_lt hi)
    rw [Nat.succ_mul] at hstep
    rw [heq, word_setWord_of_disjoint _ _ (by omega), linkObjects_link (by omega) hz _ hi]
  refine ⟨?_, ?_, ?_, by rw [List.append_nil]⟩
  · rw [freeList, hheader (by omega), hlist, slots, hn]
    refine Chain.of_spaced (by omega) hlink ?_
    rw [heq, word_setWord _ _ (by omega)]
  · rw [Slab.inuse, hheader (by omega), ← hm₀]
    rw [word_setWord_of_disjoint _ _ (by omega), word_setWord_of_disjoint _ _ (by omega),
      word_setWord _ _ (by omega), List.length_nil]
  · rw [Slab.total, hheader (by omega), ← hm₀, hn]
    rw [word_setWord_of_disjoint _ _ (by omega), word_setWord _ _ (by omega)]

end Fresh

end TocinOS.Slab

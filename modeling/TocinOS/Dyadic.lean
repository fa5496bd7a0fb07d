import Mathlib

/-! Aligned blocks of `2 ^ k` cells, their buddies, and the tilings of an
interval by such blocks. -/

namespace Dyadic

def buddy (p k : Nat) : Nat := if p / 2 ^ k % 2 = 0 then p + 2 ^ k else p - 2 ^ k

theorem xor_two_pow (p k : Nat) : p ^^^ 2 ^ k = buddy p k := by
  have hd : (p ^^^ 2 ^ k) / 2 ^ k = p / 2 ^ k ^^^ 1 := by
    rw [Nat.xor_div_two_pow, Nat.div_self (Nat.two_pow_pos k)]
  have hm : (p ^^^ 2 ^ k) % 2 ^ k = p % 2 ^ k := by
    rw [Nat.xor_mod_two_pow, Nat.mod_self, Nat.xor_zero]
  have hp := Nat.div_add_mod p (2 ^ k)
  have hx := Nat.div_add_mod (p ^^^ 2 ^ k) (2 ^ k)
  rw [hd, hm] at hx
  unfold buddy
  split_ifs with h
  · rw [Nat.xor_one_of_even (Nat.even_iff.mpr h), Nat.mul_add, Nat.mul_one] at hx
    omega
  · have hodd : Odd (p / 2 ^ k) := Nat.odd_iff.mpr (by omega)
    rw [Nat.xor_one_of_odd hodd, Nat.mul_sub, Nat.mul_one] at hx
    have hpos : 0 < p / 2 ^ k := Nat.pos_of_ne_zero (fun e => h (by simp [e]))
    have : 2 ^ k ≤ 2 ^ k * (p / 2 ^ k) := Nat.le_mul_of_pos_right _ hpos
    omega

variable {p k x top : Nat}

theorem buddy_cases (h : 2 ^ k ∣ p) : (2 ^ (k + 1) ∣ p ∧ buddy p k = p + 2 ^ k) ∨
      ∃ q, 2 ^ (k + 1) ∣ q ∧ p = q + 2 ^ k ∧ buddy p k = q := by
  obtain ⟨m, rfl⟩ := h
  have hdiv : 2 ^ k * m / 2 ^ k = m := Nat.mul_div_cancel_left m (Nat.two_pow_pos k)
  rcases Nat.even_or_odd' m with ⟨n, rfl | rfl⟩
  · left
    refine ⟨⟨n, by ring⟩, ?_⟩
    simp [buddy, hdiv]
  · right
    refine ⟨2 ^ k * (2 * n), ⟨n, by ring⟩, by ring, ?_⟩
    simp [buddy, Nat.mul_add]

theorem le_of_odd_div (h : ¬ p / 2 ^ k % 2 = 0) : 2 ^ k ≤ p := by
  by_contra hlt
  rw [Nat.div_eq_of_lt (Nat.lt_of_not_le hlt)] at h
  exact h rfl

theorem buddy_buddy (p k : Nat) : buddy (buddy p k) k = p := by
  rw [← xor_two_pow, ← xor_two_pow, Nat.xor_xor_cancel_right]

theorem buddy_ne (p k : Nat) : buddy p k ≠ p := by
  have hpos := Nat.two_pow_pos k
  unfold buddy
  split_ifs with h
  · omega
  · have := le_of_odd_div h
    omega

theorem buddy_mul (p k m : Nat) : buddy (p * 2 ^ m) (m + k) = buddy p k * 2 ^ m := by
  have hdiv : p * 2 ^ m / 2 ^ (m + k) = p / 2 ^ k := by
    rw [pow_add, Nat.mul_comm p, Nat.mul_div_mul_left _ _ (Nat.two_pow_pos m)]
  have hpow : 2 ^ (m + k) = 2 ^ k * 2 ^ m := by ring
  unfold buddy
  rw [hdiv, hpow]
  split_ifs
  · rw [Nat.add_mul]
  · rw [Nat.sub_mul]

theorem buddy_add {c : Nat} (h : 2 ^ (k + 1) ∣ c) (p : Nat) : buddy (c + p) k = c + buddy p k := by
  obtain ⟨m, rfl⟩ := h
  have hdiv : (2 ^ (k + 1) * m + p) / 2 ^ k = 2 * m + p / 2 ^ k := by
    rw [pow_succ, Nat.mul_assoc, Nat.mul_add_div (Nat.two_pow_pos k)]
  have hmod : (2 * m + p / 2 ^ k) % 2 = p / 2 ^ k % 2 := Nat.mul_add_mod_self_left _ _ _
  unfold buddy
  rw [hdiv, hmod]
  split_ifs with he
  · rw [Nat.add_assoc]
  · rw [Nat.add_sub_assoc (le_of_odd_div he)]

theorem buddy_lt {N : Nat} (h : 2 ^ (k + 1) ∣ N) (hp : p < N) : buddy p k < N := by
  unfold buddy
  split_ifs with he
  · obtain ⟨c, rfl⟩ := h
    have hq : p / 2 ^ k < 2 * c := by
      rw [Nat.div_lt_iff_lt_mul (Nat.two_pow_pos k)]
      calc p < 2 ^ (k + 1) * c := hp
        _ = 2 * c * 2 ^ k := by ring
    have hle : 2 ^ k * (p / 2 ^ k + 2) ≤ 2 ^ k * (2 * c) := Nat.mul_le_mul_left _ (by omega)
    have hlt : p < 2 ^ k * (p / 2 ^ k + 1) := Nat.lt_mul_div_succ p (Nat.two_pow_pos k)
    calc p + 2 ^ k < 2 ^ k * (p / 2 ^ k + 1) + 2 ^ k := by omega
      _ = 2 ^ k * (p / 2 ^ k + 2) := by ring
      _ ≤ 2 ^ k * (2 * c) := hle
      _ = 2 ^ (k + 1) * c := by ring
  · exact (Nat.sub_le _ _).trans_lt hp

structure Block where
  start : Nat
  order : Nat
  deriving DecidableEq, Repr

variable {c : Block} {F : List Block}

namespace Block

def covers (b : Block) (x : Nat) : Bool :=
  decide (b.start ≤ x ∧ x < b.start + 2 ^ b.order)

def Aligned (b : Block) : Prop := 2 ^ b.order ∣ b.start

def sibling (b : Block) : Block := ⟨buddy b.start b.order, b.order⟩

def parent (b : Block) : Block := ⟨min b.start (buddy b.start b.order), b.order + 1⟩

theorem covers_iff {b : Block} : b.covers x = true ↔ b.start ≤ x ∧ x < b.start + 2 ^ b.order := by
  simp [covers]

theorem covers_start (b : Block) : b.covers b.start = true :=
  covers_iff.mpr ⟨le_rfl, Nat.lt_add_of_pos_right (Nat.two_pow_pos _)⟩

theorem Aligned.nested {b : Block} (hb : b.Aligned) (hc : c.Aligned) (ho : b.order ≤ c.order)
    (hbx : b.covers x = true) (hcx : c.covers x = true) :
    c.start ≤ b.start ∧ b.start + 2 ^ b.order ≤ c.start + 2 ^ c.order := by
  rw [covers_iff] at hbx hcx
  obtain ⟨m, hm⟩ := hb
  obtain ⟨n, hn⟩ := hc
  obtain ⟨d, hd⟩ := Nat.exists_eq_add_of_le ho
  have hc' : c.start = 2 ^ b.order * (2 ^ d * n) := by rw [hn, hd]; ring
  have hs : 2 ^ c.order = 2 ^ b.order * 2 ^ d := by rw [hd]; ring
  rw [hm] at hbx ⊢
  rw [hc', hs] at hcx ⊢
  have h₁ : 2 ^ d * n < m + 1 := by
    by_contra hlt
    have := Nat.mul_le_mul_left (2 ^ b.order) (Nat.le_of_not_lt hlt)
    rw [Nat.mul_add, Nat.mul_one] at this
    omega
  have h₂ : m < 2 ^ d * n + 2 ^ d := by
    by_contra hlt
    have := Nat.mul_le_mul_left (2 ^ b.order) (Nat.le_of_not_lt hlt)
    rw [Nat.mul_add] at this
    omega
  have h₃ := Nat.mul_le_mul_left (2 ^ b.order) (Nat.le_of_lt_succ h₁)
  have h₄ := Nat.mul_le_mul_left (2 ^ b.order) (Nat.succ_le_of_lt h₂)
  rw [Nat.succ_eq_add_one, Nat.mul_add, Nat.mul_one, Nat.mul_add] at h₄
  exact ⟨h₃, h₄⟩

theorem Aligned.covers_of_le {b : Block} (hb : b.Aligned) (hc : c.Aligned) (ho : b.order ≤ c.order)
    {y : Nat} (hbx : b.covers x = true) (hcx : c.covers x = true) (hy : b.covers y = true) :
    c.covers y = true := by
  have hn := hb.nested hc ho hbx hcx
  rw [covers_iff] at hy ⊢
  omega

theorem Aligned.eq_of_order {b : Block} (hb : b.Aligned) (hc : c.Aligned) (ho : b.order = c.order)
    (hbx : b.covers x = true) (hcx : c.covers x = true) : b = c := by
  have h₁ := hb.nested hc ho.le hbx hcx
  have h₂ := hc.nested hb ho.ge hcx hbx
  cases b; cases c
  simp only [Block.mk.injEq] at *
  omega

theorem Aligned.sibling {b : Block} (h : b.Aligned) : b.sibling.Aligned := by
  have hdvd : 2 ^ b.order ∣ 2 ^ (b.order + 1) := pow_dvd_pow 2 (Nat.le_succ _)
  rcases buddy_cases h with ⟨_, he⟩ | ⟨q, hq, _, he⟩
  · simp only [Block.Aligned, Block.sibling, he]
    exact Nat.dvd_add h (dvd_refl _)
  · simp only [Block.Aligned, Block.sibling, he]
    exact hdvd.trans hq

theorem Aligned.parent {b : Block} (h : b.Aligned) : b.parent.Aligned := by
  rcases buddy_cases h with ⟨hd, he⟩ | ⟨q, hq, hb, he⟩
  · simp only [Block.Aligned, Block.parent, he]
    rwa [Nat.min_eq_left (by omega)]
  · simp only [Block.Aligned, Block.parent, he]
    rwa [Nat.min_eq_right (by omega)]

theorem Aligned.parent_covers {b : Block} (h : b.Aligned) (x : Nat) :
    (if b.parent.covers x then 1 else 0) =
      (if b.covers x then 1 else 0) + (if b.sibling.covers x then 1 else 0) := by
  have hpow : 2 ^ (b.order + 1) = 2 ^ b.order + 2 ^ b.order := by ring
  simp only [covers_iff, Block.parent, Block.sibling]
  rcases buddy_cases h with ⟨_, he⟩ | ⟨q, _, hb, he⟩
  · rw [he, Nat.min_eq_left (by omega), hpow]
    split_ifs <;> omega
  · rw [he, hb, Nat.min_eq_right (by omega), hpow]
    split_ifs <;> omega

end Block

structure Tiling (N : Nat) (B : List Block) : Prop where
  aligned : ∀ b ∈ B, b.Aligned
  cover : ∀ x, B.countP (fun b => b.covers x) = if x < N then 1 else 0

namespace Tiling

variable {N : Nat} {B C : List Block} {b : Block}

theorem perm (h : Tiling N B) (hp : B.Perm C) : Tiling N C :=
  ⟨fun b hb => h.aligned b (hp.mem_iff.mpr hb),
    fun x => (hp.countP_eq _).symm.trans (h.cover x)⟩

theorem split (h : Tiling N (b.parent :: B)) (hb : b.Aligned) :
    Tiling N (b :: b.sibling :: B) := by
  refine ⟨?_, fun x => ?_⟩
  · intro c hc
    rcases List.mem_cons.mp hc with rfl | hc
    · exact hb
    · rcases List.mem_cons.mp hc with rfl | hc
      · exact hb.sibling
      · exact h.aligned c (List.mem_cons_of_mem _ hc)
  · have hx := h.cover x
    have hp := hb.parent_covers x
    rw [List.countP_cons] at hx
    rw [List.countP_cons, List.countP_cons]
    omega

theorem merge (h : Tiling N (b :: b.sibling :: B)) : Tiling N (b.parent :: B) := by
  have hb : b.Aligned := h.aligned b (by simp)
  refine ⟨?_, fun x => ?_⟩
  · intro c hc
    rcases List.mem_cons.mp hc with rfl | hc
    · exact hb.parent
    · exact h.aligned c (by simp [hc])
  · have hx := h.cover x
    have hp := hb.parent_covers x
    rw [List.countP_cons, List.countP_cons] at hx
    rw [List.countP_cons]
    omega

theorem exists_covers (h : Tiling N B) (hx : x < N) : ∃ b ∈ B, b.covers x = true := by
  have hc := h.cover x
  rw [if_pos hx] at hc
  have hpos : 0 < B.countP (fun b => b.covers x) := by omega
  simpa using List.countP_pos_iff.mp hpos

theorem lt_of_covers (h : Tiling N B) (hb : b ∈ B) (hx : b.covers x = true) : x < N := by
  by_contra hN
  have hc := h.cover x
  rw [if_neg hN, List.countP_eq_zero] at hc
  exact hc b hb hx

theorem le_of_mem (h : Tiling N B) (hb : b ∈ B) : b.start + 2 ^ b.order ≤ N := by
  have hpos := Nat.two_pow_pos b.order
  have := h.lt_of_covers hb (x := b.start + 2 ^ b.order - 1) (Block.covers_iff.mpr (by omega))
  omega

theorem pairwise (h : Tiling N B) :
    B.Pairwise (fun b c => ∀ x, ¬ (b.covers x = true ∧ c.covers x = true)) := by
  have hle : ∀ x, B.countP (fun b => b.covers x) ≤ 1 := by
    intro x
    rw [h.cover x]
    split_ifs <;> omega
  clear h
  induction B with
  | nil => exact List.Pairwise.nil
  | cons b B ih =>
    refine List.pairwise_cons.mpr ⟨fun c hc x hx => ?_, ih (fun x => ?_)⟩
    · have := hle x
      rw [List.countP_cons, if_pos hx.1] at this
      have hpos : 0 < B.countP (fun b => b.covers x) := List.countP_pos_iff.mpr ⟨c, hc, hx.2⟩
      omega
    · have := hle x
      rw [List.countP_cons] at this
      omega

theorem eq_of_covers (h : Tiling N B) (hb : b ∈ B) (hc : c ∈ B) (hbx : b.covers x = true)
    (hcx : c.covers x = true) : b = c := by
  have hlen := h.cover x
  rw [if_pos (h.lt_of_covers hb hbx), List.countP_eq_length_filter] at hlen
  obtain ⟨d, hd⟩ := List.length_eq_one_iff.mp hlen
  have hb' : b ∈ B.filter (fun b => b.covers x) := List.mem_filter.mpr ⟨hb, hbx⟩
  have hc' : c ∈ B.filter (fun b => b.covers x) := List.mem_filter.mpr ⟨hc, hcx⟩
  rw [hd, List.mem_singleton] at hb' hc'
  exact hb'.trans hc'.symm

theorem uniform (m k : Nat) :
    Tiling (m * 2 ^ k) ((List.range m).map fun i => (⟨i * 2 ^ k, k⟩ : Block)) := by
  refine ⟨?_, fun x => ?_⟩
  · intro b hb
    obtain ⟨i, _, rfl⟩ := List.mem_map.mp hb
    exact Nat.dvd_mul_left _ _
  · induction m with
    | zero => simp
    | succ m ih =>
      have hpos := Nat.two_pow_pos k
      have hm : (m + 1) * 2 ^ k = m * 2 ^ k + 2 ^ k := by ring
      rw [List.range_succ, List.map_append, List.countP_append, ih, List.map_singleton,
        List.countP_singleton, hm]
      simp only [Block.covers_iff]
      split_ifs <;> omega

theorem sum_countP (N : Nat) (B : List Block) (h : ∀ b ∈ B, b.start + 2 ^ b.order ≤ N) :
    ∑ x ∈ Finset.range N, B.countP (fun b => b.covers x) = (B.map fun b => 2 ^ b.order).sum := by
  induction B with
  | nil => simp
  | cons b B ih =>
    have hb : (Finset.range N).filter (fun x => b.covers x = true) =
        Finset.Ico b.start (b.start + 2 ^ b.order) := by
      ext x
      have := h b (by simp)
      simp only [Finset.mem_filter, Finset.mem_range, Block.covers_iff, Finset.mem_Ico]
      omega
    have hcard : ∑ x ∈ Finset.range N, (if b.covers x = true then 1 else 0) = 2 ^ b.order := by
      rw [← Finset.card_filter, hb, Nat.card_Ico, Nat.add_sub_cancel_left]
    simp only [List.countP_cons, Finset.sum_add_distrib, List.map_cons, List.sum_cons, hcard,
      ih (fun c hc => h c (by simp [hc]))]
    omega

theorem sum_size (h : Tiling N B) : (B.map fun b => 2 ^ b.order).sum = N := by
  rw [← sum_countP N B (fun b hb => h.le_of_mem hb), Finset.sum_congr rfl (g := fun _ => 1)]
  · simp
  · intro x hx
    rw [h.cover x, if_pos (Finset.mem_range.mp hx)]

end Tiling

def Coalesced (top : Nat) (F : List Block) : Prop :=
  ∀ b ∈ F, b.order < top → b.sibling ∉ F

theorem Coalesced.perm {G : List Block} (h : Coalesced top F) (hp : F.Perm G) : Coalesced top G :=
  fun b hb ho hs => h b (hp.mem_iff.mpr hb) ho (hp.mem_iff.mpr hs)

theorem Coalesced.cons {b : Block} (h : Coalesced top F) (hb : b.order < top → b.sibling ∉ F) :
    Coalesced top (b :: F) := by
  have hinv : ∀ c : Block, c.sibling.sibling = c := by
    intro c
    simp [Block.sibling, buddy_buddy]
  have hne : ∀ c : Block, c.sibling ≠ c := by
    intro c e
    exact buddy_ne c.start c.order (congrArg Block.start e)
  intro c hc ho hs
  rcases List.mem_cons.mp hc with rfl | hc <;> rcases List.mem_cons.mp hs with hs | hs
  · exact hne c hs
  · exact hb ho hs
  · have he : c = b.sibling := by rw [← hs, hinv]
    have ho' : b.order < top := by rw [← hs]; exact ho
    exact hb ho' (he ▸ hc)
  · exact h c hc ho hs

/-- In a coalesced collection of disjoint blocks, an aligned block that is
covered at all lies inside a single member. -/
theorem Coalesced.exists_single (hF : Coalesced top F) (ha : ∀ b ∈ F, b.Aligned)
    (hu : ∀ b ∈ F, ∀ c ∈ F, ∀ x, b.covers x = true → c.covers x = true → b = c) {q : Block}
    (hq : q.Aligned) (ho : q.order ≤ top)
    (hfull : ∀ x, q.covers x = true → ∃ b ∈ F, b.covers x = true) :
    ∃ b ∈ F, q.order ≤ b.order ∧ b.covers q.start = true := by
  by_contra hno
  push Not at hno
  -- every member meeting `q` is smaller than `q`, and one of minimal order has its sibling
  have hsmall : ∀ b ∈ F, ∀ x, q.covers x = true → b.covers x = true → b.order < q.order := by
    intro b hb x hqx hbx
    by_contra hlt
    have hle : q.order ≤ b.order := Nat.le_of_not_lt hlt
    exact hno b hb hle (hq.covers_of_le (ha b hb) hle hqx hbx q.covers_start)
  have hfalse : ∀ m, ∀ b ∈ F, b.order = m → ∀ x, q.covers x = true → b.covers x = true → False := by
    intro m
    induction m using Nat.strong_induction_on with
    | _ m ih =>
      intro b hb hm x hqx hbx
      have hlt := hsmall b hb x hqx hbx
      have hb' := ha b hb
      have hpar : ∀ y, b.covers y = true ∨ b.sibling.covers y = true → b.parent.covers y = true := by
        intro y hy
        have := hb'.parent_covers y
        rcases hy with hy | hy <;> simp only [hy, if_true] at this <;>
          (by_contra hc; simp only [hc, if_false] at this; omega)
      have hin : ∀ y, b.parent.covers y = true → q.covers y = true := fun y hy =>
        hb'.parent.covers_of_le hq (show b.order + 1 ≤ q.order from hlt) (hpar x (.inl hbx)) hqx hy
      have hsib := hpar _ (.inr b.sibling.covers_start)
      obtain ⟨c, hc, hcx⟩ := hfull b.sibling.start (hin _ hsib)
      have hc' := ha c hc
      rcases Nat.lt_trichotomy c.order m with h | h | h
      · exact ih c.order h c hc rfl _ (hin _ hsib) hcx
      · have he : b.sibling = c :=
          hb'.sibling.eq_of_order hc' (by simp [Block.sibling, h, hm]) b.sibling.covers_start hcx
        exact hF b hb (by omega) (he ▸ hc)
      · have hcov : c.covers b.start = true :=
          hb'.parent.covers_of_le hc' (show b.order + 1 ≤ c.order by omega) hsib hcx
            (hpar _ (.inl b.covers_start))
        have := hu b hb c hc b.start b.covers_start hcov
        rw [← this] at h
        omega
  obtain ⟨b, hb, hbx⟩ := hfull q.start q.covers_start
  exact hfalse b.order b hb rfl q.start q.covers_start hbx

end Dyadic

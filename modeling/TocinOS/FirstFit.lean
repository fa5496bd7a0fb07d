import Mathlib

/-! First-fit search for a gap between sorted intervals, `(l, u)` standing for the numbers
from `l` up to `u`. -/

namespace FirstFit

/-- `[b, b + n)` lies in `[a, limit)` and meets none of the intervals. -/
structure Gap (limit n : Nat) (L : List (Nat × Nat)) (a b : Nat) : Prop where
  start : a ≤ b
  stop : b + n ≤ limit
  free : ∀ p ∈ L, b + n ≤ p.1 ∨ p.2 ≤ b

structure Sorted (limit : Nat) (L : List (Nat × Nat)) : Prop where
  order : L.Pairwise fun p q => p.2 ≤ q.1
  nonempty : ∀ p ∈ L, p.1 < p.2
  below : ∀ p ∈ L, p.2 ≤ limit

def search (limit n : Nat) : List (Nat × Nat) → Nat → Option Nat
  | [], a => if a + n ≤ limit then some a else none
  | p :: L, a => if a + n ≤ p.1 then some a else search limit n L (max a p.2)

variable {limit n : Nat} {L : List (Nat × Nat)} {p : Nat × Nat} {a b : Nat}

theorem Sorted.tail (h : Sorted limit (p :: L)) : Sorted limit L where
  order := (List.pairwise_cons.mp h.order).2
  nonempty q hq := h.nonempty q (List.mem_cons_of_mem p hq)
  below q hq := h.below q (List.mem_cons_of_mem p hq)

theorem Sorted.gap_of_le (h : Sorted limit (p :: L)) (ha : a + n ≤ p.1) :
    Gap limit n (p :: L) a a := by
  have hp := h.nonempty p (List.mem_cons_self ..)
  have hlimit := h.below p (List.mem_cons_self ..)
  refine ⟨Nat.le_refl a, by omega, fun q hq => ?_⟩
  rcases List.mem_cons.mp hq with rfl | hq
  · exact .inl ha
  · have := (List.pairwise_cons.mp h.order).1 q hq
    exact .inl (by omega)

theorem gap_cons_iff (ha : ¬ a + n ≤ p.1) :
    Gap limit n (p :: L) a b ↔ Gap limit n L (max a p.2) b := by
  constructor
  · rintro ⟨hstart, hstop, hfree⟩
    have hp := hfree p (List.mem_cons_self ..)
    exact ⟨by omega, hstop, fun q hq => hfree q (List.mem_cons_of_mem p hq)⟩
  · rintro ⟨hstart, hstop, hfree⟩
    refine ⟨by omega, hstop, fun q hq => ?_⟩
    rcases List.mem_cons.mp hq with rfl | hq
    · exact .inr (by omega)
    · exact hfree q hq

theorem search_some (h : Sorted limit L) (hs : search limit n L a = some b) :
    Gap limit n L a b ∧ ∀ c, Gap limit n L a c → b ≤ c := by
  induction L generalizing a with
  | nil =>
    rw [search] at hs
    split at hs
    · next hle =>
      obtain rfl := Option.some.inj hs
      exact ⟨⟨Nat.le_refl a, hle, by simp⟩, fun c hc => hc.start⟩
    · simp at hs
  | cons p L ih =>
    rw [search] at hs
    split at hs
    · next hle =>
      cases hs
      exact ⟨h.gap_of_le hle, fun c hc => hc.start⟩
    · next hle =>
      obtain ⟨hgap, hleast⟩ := ih h.tail hs
      exact ⟨(gap_cons_iff hle).mpr hgap, fun c hc => hleast c ((gap_cons_iff hle).mp hc)⟩

theorem search_eq (hs : search limit n L a = some b) : b = a ∨ ∃ p ∈ L, b = p.2 := by
  induction L generalizing a with
  | nil =>
    rw [search] at hs
    split at hs
    · exact .inl (Option.some.inj hs).symm
    · simp at hs
  | cons p L ih =>
    rw [search] at hs
    split at hs
    · exact .inl (Option.some.inj hs).symm
    · rcases ih hs with hb | ⟨q, hq, hb⟩
      · rcases Nat.le_total a p.2 with hle | hle
        · exact .inr ⟨p, List.mem_cons_self .., hb.trans (Nat.max_eq_right hle)⟩
        · exact .inl (hb.trans (Nat.max_eq_left hle))
      · exact .inr ⟨q, List.mem_cons_of_mem p hq, hb⟩

theorem search_none (hs : search limit n L a = none) : ¬ Gap limit n L a b := by
  induction L generalizing a with
  | nil =>
    rw [search] at hs
    split at hs
    · simp at hs
    · next hle =>
      intro hgap
      have hstart := hgap.start
      have hstop := hgap.stop
      omega
  | cons p L ih =>
    rw [search] at hs
    split at hs
    · simp at hs
    · next hle =>
      rw [gap_cons_iff hle]
      exact ih hs

end FirstFit

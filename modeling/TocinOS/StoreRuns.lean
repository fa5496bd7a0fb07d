import Mathlib

/-! Stores one after another into the units of a buffer, up to the first one that faults. The
units may be stored to again, but none is passed over. -/

namespace StoreRuns

variable {β : Type*}

def reach : List (Nat × β) → Nat → Nat
  | [], n => n
  | w :: ws, n => reach ws (max n (w.1 + 1))

def NoGap : List (Nat × β) → Nat → Prop
  | [], _ => True
  | w :: ws, n => w.1 ≤ n ∧ NoGap ws (max n (w.1 + 1))

theorem le_reach (ws : List (Nat × β)) (n : Nat) : n ≤ reach ws n := by
  induction ws generalizing n with
  | nil => exact Nat.le_refl n
  | cons w ws ih => exact (Nat.le_max_left _ _).trans (ih _)

theorem forall_takeWhile_iff {mapped : Nat → Bool} {good : Nat → Prop}
    (hmapped : ∀ k, good k → mapped k = true) {ws : List (Nat × β)} {n : Nat} (h : NoGap ws n)
    (hn : ∀ k < n, good k) :
    (∀ w ∈ ws.takeWhile fun w => mapped w.1, good w.1) ↔
      ∀ k < reach ws n, (∀ j ≤ k, mapped j = true) → good k := by
  induction ws generalizing n with
  | nil => exact ⟨fun _ k hk _ => hn k hk, fun _ w hw => (nomatch hw)⟩
  | cons w ws ih =>
    obtain ⟨hle, hrest⟩ := h
    by_cases hw : mapped w.1 = true
    · rw [List.takeWhile_cons, if_pos hw, List.forall_mem_cons, reach]
      by_cases hgood : good w.1
      · rw [ih hrest fun k hk => ?_]
        · exact and_iff_right hgood
        · rcases Nat.lt_or_ge k n with hkn | hkn
          · exact hn k hkn
          · have hkw : k = w.1 := by omega
            exact hkw ▸ hgood
      · -- a bad unit can only be the next one, and all units before it are mapped
        refine ⟨fun hall => absurd hall.1 hgood, fun hall => absurd (hall w.1 ?_ ?_) hgood⟩
        · exact lt_of_lt_of_le (Nat.lt_succ_self _) ((Nat.le_max_right _ _).trans (le_reach ws _))
        · intro j hj
          rcases Nat.lt_or_ge j n with hjn | hjn
          · exact hmapped j (hn j hjn)
          · have hjw : j = w.1 := by omega
            exact hjw ▸ hw
    · rw [List.takeWhile_cons, if_neg hw]
      have hnext : ¬ w.1 < n := fun hlt => hw (hmapped _ (hn _ hlt))
      refine ⟨fun _ k _ hall => ?_, fun _ w hw => (nomatch hw)⟩
      rcases Nat.lt_or_ge k n with hkn | hkn
      · exact hn k hkn
      · exact absurd (hall w.1 (by omega)) hw

/-- The stores of the elements of a list into consecutive units. -/
def straight : List β → Nat → List (Nat × β)
  | [], _ => []
  | b :: bs, n => (n, b) :: straight bs (n + 1)

theorem noGap_straight (bs : List β) (n : Nat) : NoGap (straight bs n) n := by
  induction bs generalizing n with
  | nil => trivial
  | cons b bs ih =>
    refine ⟨Nat.le_refl n, ?_⟩
    rw [Nat.max_eq_right (Nat.le_succ n)]
    exact ih (n + 1)

theorem reach_straight (bs : List β) (n : Nat) : reach (straight bs n) n = n + bs.length := by
  induction bs generalizing n with
  | nil => rfl
  | cons b bs ih =>
    rw [straight, reach, Nat.max_eq_right (Nat.le_succ n), ih, List.length_cons]
    omega

theorem mem_straight {bs : List β} {n : Nat} {w : Nat × β} (h : w ∈ straight bs n) : w.2 ∈ bs := by
  induction bs generalizing n with
  | nil => exact nomatch h
  | cons b bs ih =>
    rcases List.mem_cons.mp h with rfl | h
    · exact List.mem_cons_self
    · exact List.mem_cons_of_mem _ (ih h)

def apply {α : Type*} [DecidableEq α] (writes : List (α × β)) (memory : α → β) : α → β :=
  writes.foldl (fun m w => Function.update m w.1 w.2) memory

theorem apply_of_notMem {α : Type*} [DecidableEq α] {writes : List (α × β)} {a : α} (memory : α → β)
    (h : ∀ w ∈ writes, w.1 ≠ a) : apply writes memory a = memory a := by
  induction writes generalizing memory with
  | nil => rfl
  | cons w writes ih =>
    have hw : a ≠ w.1 := (h w List.mem_cons_self).symm
    rw [apply, List.foldl_cons, ← apply, ih _ fun v hv => h v (List.mem_cons_of_mem _ hv),
      Function.update_of_ne hw]

end StoreRuns

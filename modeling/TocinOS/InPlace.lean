import Mathlib

/-! Algorithms on the first cells of an array: insertion sort, and a pass that merges
each cell into the last one kept or keeps it. -/

namespace InPlace

open Function

variable {α β : Type} {f g : Nat → α} {n : Nat}

def cells (f : Nat → α) (n : Nat) : List α := (List.range n).map f

theorem cells_succ (f : Nat → α) (n : Nat) : cells f (n + 1) = cells f n ++ [f n] := by
  rw [cells, List.range_succ, List.map_append]
  rfl

theorem cells_congr (h : ∀ i < n, g i = f i) : cells g n = cells f n :=
  List.map_congr_left fun i hi => h i (List.mem_range.mp hi)

variable {i : Nat}

theorem cells_update (h : n ≤ i) (f : Nat → α) (x : α) : cells (update f i x) n = cells f n :=
  cells_congr fun j hj => update_of_ne (by omega) x f

section Sorting

variable [LinearOrder β] (key : α → β)

def insertAt (x : α) : (Nat → α) → Nat → Nat → α
  | f, 0 => update f 0 x
  | f, j + 1 =>
    if key x < key (f j) then insertAt x (update f (j + 1) (f j)) j else update f (j + 1) x

def insertionSort (n : Nat) (f : Nat → α) : Nat → α :=
  (List.range' 1 (n - 1)).foldl (fun f i => insertAt key (f i) f i) f

theorem insertAt_of_lt {x : α} {j : Nat} (h : j < i) : insertAt key x f j i = f i := by
  induction j generalizing f with
  | zero => exact update_of_ne (Nat.ne_of_gt h) x f
  | succ j ih =>
    rw [insertAt]
    split
    · rw [ih (by omega), update_of_ne (Nat.ne_of_gt h)]
    · exact update_of_ne (Nat.ne_of_gt h) x f

theorem insertAt_spec {x : α} {j : Nat} (h : (cells f j).Pairwise fun a b => key a ≤ key b) :
    (cells (insertAt key x f j) (j + 1)).Perm (x :: cells f j) ∧
      (cells (insertAt key x f j) (j + 1)).Pairwise fun a b => key a ≤ key b := by
  induction j generalizing f with
  | zero =>
    have hone : cells (insertAt key x f 0) 1 = [x] := by
      rw [cells_succ, insertAt, update_self]
      rfl
    rw [hone]
    exact ⟨.rfl, List.pairwise_singleton _ _⟩
  | succ j ih =>
    rw [cells_succ] at h ⊢
    rw [cells_succ f]
    obtain ⟨hinit, -, hlast⟩ := List.pairwise_append.mp h
    have hlast : ∀ a ∈ cells f j, key a ≤ key (f j) := fun a ha => hlast a ha _ (by simp)
    by_cases hlt : key x < key (f j)
    · have hcells : cells (update f (j + 1) (f j)) j = cells f j := cells_update (by omega) f _
      obtain ⟨hperm, hsorted⟩ := ih (f := update f (j + 1) (f j)) (by rwa [hcells])
      rw [hcells] at hperm
      rw [insertAt, if_pos hlt, insertAt_of_lt key (Nat.lt_succ_self j), update_self]
      refine ⟨hperm.append_right [f j], List.pairwise_append.mpr ⟨hsorted, by simp, ?_⟩⟩
      intro a ha b hb
      rw [List.mem_singleton.mp hb]
      rcases List.mem_cons.mp (hperm.subset ha) with rfl | ha
      · exact le_of_lt hlt
      · exact hlast a ha
    · have hle : key (f j) ≤ key x := not_lt.mp hlt
      rw [insertAt, if_neg hlt, update_self, cells_update (Nat.le_refl _), cells_succ]
      refine ⟨List.perm_append_singleton _ _, List.pairwise_append.mpr ⟨h, by simp, ?_⟩⟩
      intro a ha b hb
      rw [List.mem_singleton.mp hb]
      rcases List.mem_append.mp ha with ha | ha
      · exact le_trans (hlast a ha) hle
      · rwa [List.mem_singleton.mp ha]

theorem insertionSort_succ (n : Nat) (f : Nat → α) :
    insertionSort key (n + 2) f =
      insertAt key (insertionSort key (n + 1) f (n + 1)) (insertionSort key (n + 1) f) (n + 1) := by
  have hrange : List.range' 1 (n + 1) = List.range' 1 n ++ [n + 1] := by
    rw [List.range'_concat, Nat.one_mul, Nat.add_comm]
  simp only [insertionSort, Nat.add_sub_cancel, Nat.add_succ_sub_one, hrange, List.foldl_append,
    List.foldl_cons, List.foldl_nil]

theorem insertionSort_of_le (h : n ≤ i) : insertionSort key n f i = f i := by
  induction n with
  | zero => rfl
  | succ n ih =>
    cases n with
    | zero => rfl
    | succ n =>
      rw [insertionSort_succ, insertAt_of_lt key (by omega)]
      exact ih (by omega)

theorem insertionSort_spec (n : Nat) (f : Nat → α) :
    (cells (insertionSort key n f) n).Perm (cells f n) ∧
      (cells (insertionSort key n f) n).Pairwise fun a b => key a ≤ key b := by
  induction n with
  | zero => exact ⟨.rfl, .nil⟩
  | succ n ih =>
    cases n with
    | zero => exact ⟨.rfl, List.pairwise_singleton _ _⟩
    | succ n =>
      obtain ⟨hperm, hsorted⟩ := insertAt_spec key (x := insertionSort key (n + 1) f (n + 1)) ih.2
      rw [insertionSort_succ]
      refine ⟨hperm.trans ?_, hsorted⟩
      rw [insertionSort_of_le key (Nat.le_refl _), cells_succ f (n + 1)]
      exact (ih.1.cons _).trans (List.perm_append_singleton _ _).symm

end Sorting

section Compact

variable (merge : α → α → Option α)

/-- One round: cell `i` is merged into the last cell kept, or kept after it. -/
def compactRound (s : Nat × (Nat → α)) (i : Nat) : Nat × (Nat → α) :=
  match if s.1 = 0 then none else merge (s.2 (s.1 - 1)) (s.2 i) with
  | some c => (s.1, update s.2 (s.1 - 1) c)
  | none => (s.1 + 1, update s.2 s.1 (s.2 i))

def compact (n : Nat) (f : Nat → α) : Nat × (Nat → α) :=
  (List.range n).foldl (compactRound merge) (0, f)

/-- The same round on the list of cells kept, the last one first. -/
def push : List α → α → List α
  | [], x => [x]
  | c :: kept, x =>
    match merge c x with
    | some c' => c' :: kept
    | none => x :: c :: kept

theorem compact_succ (n : Nat) (f : Nat → α) :
    compact merge (n + 1) f = compactRound merge (compact merge n f) n := by
  rw [compact, List.range_succ, List.foldl_append]
  rfl

theorem compact_spec (n : Nat) (f : Nat → α) :
    (compact merge n f).1 ≤ n ∧ (∀ i, n ≤ i → (compact merge n f).2 i = f i) ∧
      (cells (compact merge n f).2 (compact merge n f).1).reverse =
        (cells f n).foldl (push merge) [] := by
  induction n with
  | zero => exact ⟨Nat.le_refl 0, fun _ _ => rfl, rfl⟩
  | succ n ih =>
    rw [compact_succ, cells_succ, List.foldl_append]
    obtain ⟨hle, hrest, hcells⟩ := ih
    rw [← hcells]
    generalize compact merge n f = s at hle hrest hcells
    obtain ⟨m, g⟩ := s
    dsimp only at hle hrest hcells ⊢
    rw [List.foldl_cons, List.foldl_nil, compactRound]
    dsimp only
    rw [hrest n (Nat.le_refl n)]
    cases m with
    | zero =>
      rw [if_pos rfl]
      dsimp only
      refine ⟨by omega, fun i hi => ?_, ?_⟩
      · exact (update_of_ne (by omega) _ _).trans (hrest i (by omega))
      · rw [cells_succ, update_self]
        rfl
    | succ m =>
      simp only [Nat.succ_ne_zero, if_false, Nat.add_one_sub_one, cells_succ,
        List.reverse_append, List.reverse_cons, List.reverse_nil, List.nil_append,
        List.singleton_append, push]
      cases merge (g m) (f n) with
      | some c =>
        dsimp only
        refine ⟨by omega, fun i hi => ?_, ?_⟩
        · exact (update_of_ne (by omega) _ _).trans (hrest i (by omega))
        · simp only [cells_succ, cells_update (Nat.le_refl m), update_self,
            List.reverse_append, List.reverse_cons, List.reverse_nil, List.nil_append,
            List.singleton_append]
      | none =>
        dsimp only
        refine ⟨by omega, fun i hi => ?_, ?_⟩
        · exact (update_of_ne (by omega) _ _).trans (hrest i (by omega))
        · have hm : update g (m + 1) (f n) m = g m := update_of_ne (by omega) _ _
          simp only [cells_succ, cells_update (Nat.le_succ m), update_self, hm,
            List.reverse_append, List.reverse_cons, List.reverse_nil, List.nil_append,
            List.singleton_append]

theorem foldl_push_induction {P : List α → List α → Prop} (hnil : P [] [])
    (hpush : ∀ kept seen x, P kept seen → P (push merge kept x) (seen ++ [x])) (l : List α) :
    P (l.foldl (push merge) []) l := by
  suffices h : ∀ kept seen, P kept seen → P (l.foldl (push merge) kept) (seen ++ l) from h [] [] hnil
  induction l with
  | nil => simp
  | cons x l ih =>
    intro kept seen hP
    have hnext := ih (push merge kept x) (seen ++ [x]) (hpush kept seen x hP)
    rwa [List.append_assoc] at hnext

end Compact

end InPlace

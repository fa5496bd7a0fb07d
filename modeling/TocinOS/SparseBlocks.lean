import Mathlib

/-! Contents kept in blocks: ranges that are copied, positions in a block, and lists of blocks of `B`
positions of which some are absent and read as `zero`. -/

namespace SparseBlocks

variable {β : Type*} {n : Nat}

/-- `target` with the `n` values from position `pos` on taken from `source`. -/
def copyAt (pos n : Nat) (source target : Nat → β) : Nat → β :=
  fun i => if pos ≤ i ∧ i < pos + n then source (i - pos) else target i

theorem copyAt_in {pos i : Nat} {source target : Nat → β} (h : pos ≤ i ∧ i < pos + n) :
    copyAt pos n source target i = source (i - pos) := if_pos h

theorem copyAt_out {pos i : Nat} {source target : Nat → β} (h : ¬(pos ≤ i ∧ i < pos + n)) :
    copyAt pos n source target i = target i := if_neg h

theorem copyAt_zero (pos : Nat) (source target : Nat → β) : copyAt pos 0 source target = target := by
  funext i
  exact if_neg (by omega)

theorem copyAt_congr {source source' : Nat → β} (h : ∀ i < n, source i = source' i) (pos : Nat)
    (target : Nat → β) : copyAt pos n source target = copyAt pos n source' target := by
  funext i
  rw [copyAt, copyAt]
  split
  · next hi => exact h _ (by omega)
  · rfl

theorem copyAt_append (pos n m : Nat) (source target : Nat → β) :
    copyAt (pos + n) m (fun i => source (n + i)) (copyAt pos n source target) =
      copyAt pos (n + m) source target := by
  funext i
  simp only [copyAt]
  by_cases hlow : i < pos + n
  · rw [if_neg (by omega)]
    by_cases hpos : pos ≤ i
    · rw [if_pos ⟨hpos, hlow⟩, if_pos ⟨hpos, by omega⟩]
    · rw [if_neg (fun h => hpos h.1), if_neg (fun h => hpos h.1)]
  · by_cases hhigh : i < pos + n + m
    · rw [if_pos ⟨by omega, hhigh⟩, if_pos ⟨by omega, by omega⟩]
      congr 1
      omega
    · rw [if_neg (by omega), if_neg (by omega), if_neg (by omega)]

theorem div_mod_add {p j : Nat} (h : p % n + j < n) :
    (p + j) / n = p / n ∧ (p + j) % n = p % n + j := by
  have hpos : 0 < n := Nat.zero_lt_of_lt h
  have hp : p + j = n * (p / n) + (p % n + j) := by
    have := Nat.div_add_mod p n
    omega
  rw [hp, Nat.mul_add_div hpos, Nat.mul_add_mod, Nat.div_eq_of_lt h, Nat.mod_eq_of_lt h]
  exact ⟨rfl, rfl⟩

variable {B : Nat} {zero : β} {blocks : List (Option (Nat → β))}

def at_ (B : Nat) (zero : β) (blocks : List (Option (Nat → β))) (p : Nat) : β :=
  match blocks[p / B]? with
  | some (some b) => b (p % B)
  | _ => zero

theorem at_eq {p : Nat} {b : Option (Nat → β)} (h : blocks[p / B]? = some b) :
    at_ B zero blocks p = (b.getD fun _ => zero) (p % B) := by
  rw [at_, h]
  cases b <;> rfl

theorem at_of_length_le {p : Nat} (h : blocks.length ≤ p / B) : at_ B zero blocks p = zero := by
  rw [at_, List.getElem?_eq_none h]

theorem at_append_none (p : Nat) : at_ B zero (blocks ++ [none]) p = at_ B zero blocks p := by
  obtain hp | hp := Nat.lt_or_ge (p / B) blocks.length
  · rw [at_, at_, List.getElem?_append_left hp]
  · rw [at_of_length_le hp, at_, List.getElem?_append_right hp]
    cases p / B - blocks.length <;> rfl

theorem at_set {k : Nat} (hk : k < blocks.length) (b : Nat → β) (p : Nat) :
    at_ B zero (blocks.set k (some b)) p =
      if p / B = k then b (p % B) else at_ B zero blocks p := by
  by_cases h : p / B = k
  · rw [if_pos h, at_, h, List.getElem?_set_self hk]
  · rw [if_neg h, at_, List.getElem?_set_ne (Ne.symm h), at_]

end SparseBlocks

import Mathlib

/-! Bitmaps packed into bytes, least significant bit first. -/

namespace Bitmap

open Function (update)

variable {b : Nat → BitVec 8} {i j n : Nat}

def mask (i : Nat) : BitVec 8 := 1#8 <<< (i % 8)

def test (b : Nat → BitVec 8) (i : Nat) : Bool := b (i / 8) &&& mask i != 0

def set (b : Nat → BitVec 8) (i : Nat) : Nat → BitVec 8 :=
  update b (i / 8) (b (i / 8) ||| mask i)

def clear (b : Nat → BitVec 8) (i : Nat) : Nat → BitVec 8 :=
  update b (i / 8) (b (i / 8) &&& ~~~ mask i)

def count (n : Nat) (b : Nat → BitVec 8) : Nat := (List.range n).countP (test b)

theorem getLsbD_mask (i k : Nat) : (mask i).getLsbD k = decide (i % 8 = k) := by
  have hi : i % 8 < 8 := Nat.mod_lt i (by decide)
  simp [mask, ← BitVec.twoPow_eq, BitVec.getLsbD_twoPow, hi]

theorem test_eq (b : Nat → BitVec 8) (i : Nat) : test b i = (b (i / 8)).getLsbD (i % 8) := by
  have hne : BitVec.twoPow 8 (i % 8) ≠ 0#8 := by
    intro h
    have hbit := getLsbD_mask i (i % 8)
    simp [mask, ← BitVec.twoPow_eq, h] at hbit
  unfold test mask
  rw [← BitVec.twoPow_eq, BitVec.and_twoPow]
  cases (b (i / 8)).getLsbD (i % 8) <;> simp [hne]

theorem eq_of_div_mod (hd : j / 8 = i / 8) (hm : j % 8 = i % 8) : j = i := by
  rw [← Nat.div_add_mod j 8, ← Nat.div_add_mod i 8, hd, hm]

theorem test_set : test (set b i) j = (test b j || decide (j = i)) := by
  simp only [test_eq, set]
  by_cases hd : j / 8 = i / 8
  · by_cases hm : j % 8 = i % 8
    · simp [eq_of_div_mod hd hm, getLsbD_mask]
    · have hne : j ≠ i := fun h => hm (by rw [h])
      simp [hd, hne, getLsbD_mask, Ne.symm hm]
  · have hne : j ≠ i := fun h => hd (by rw [h])
    simp [Function.update_of_ne hd, hne]

theorem test_clear : test (clear b i) j = (test b j && !decide (j = i)) := by
  have hj : j % 8 < 8 := Nat.mod_lt j (by decide)
  simp only [test_eq, clear]
  by_cases hd : j / 8 = i / 8
  · by_cases hm : j % 8 = i % 8
    · simp [eq_of_div_mod hd hm, getLsbD_mask]
    · have hne : j ≠ i := fun h => hm (by rw [h])
      simp only [hd, Function.update_self, BitVec.getLsbD_and, BitVec.getLsbD_not, getLsbD_mask]
      simp [hne, Ne.symm hm, hj]
  · have hne : j ≠ i := fun h => hd (by rw [h])
    simp [Function.update_of_ne hd, hne]

theorem count_erase (b : Nat → BitVec 8) (hi : i < n) :
    count n b = ((List.range n).erase i).countP (test b) + if test b i then 1 else 0 := by
  have hp : (List.range n).Perm (i :: (List.range n).erase i) :=
    List.perm_cons_erase (List.mem_range.mpr hi)
  unfold count
  rw [hp.countP_eq, List.countP_cons]

theorem count_congr_erase {c : Nat → BitVec 8} (h : ∀ j, j ≠ i → test c j = test b j) :
    ((List.range n).erase i).countP (test c) = ((List.range n).erase i).countP (test b) := by
  apply List.countP_congr
  intro j hj
  have hne : j ≠ i := (List.nodup_range.mem_erase_iff.mp hj).1
  rw [h j hne]

theorem count_set (hi : i < n) (h : test b i = false) : count n (set b i) = count n b + 1 := by
  have hsame : ∀ j, j ≠ i → test (set b i) j = test b j := by
    intro j hj
    simp [test_set, hj]
  have hbit : test (set b i) i = true := by simp [test_set]
  rw [count_erase (set b i) hi, count_erase b hi, count_congr_erase hsame, hbit, h]
  rfl

theorem count_clear (hi : i < n) (h : test b i = true) : count n (clear b i) + 1 = count n b := by
  have hsame : ∀ j, j ≠ i → test (clear b i) j = test b j := by
    intro j hj
    simp [test_clear, hj]
  have hbit : test (clear b i) i = false := by simp [test_clear]
  rw [count_erase (clear b i) hi, count_erase b hi, count_congr_erase hsame, hbit, h]
  rfl

theorem count_le (n : Nat) (b : Nat → BitVec 8) : count n b ≤ n := by
  simpa [count] using List.countP_le_length (p := test b) (l := List.range n)

theorem count_lt (hi : i < n) (h : test b i = false) : count n b < n := by
  have hset := count_le n (set b i)
  have hcount := count_set hi h
  omega

end Bitmap

import Mathlib

/-! The 64-bit division of `kernel/task/cfs.c` and the virtual runtime it is for. The divisor is
shifted inside 64 bits, so the first rounds may compare with a divisor that has lost its high bits. -/

namespace TocinOS.Cfs

def divLoop (divisor : BitVec 64) : Nat → BitVec 64 → BitVec 64 → BitVec 64
  | 0, result, _ => result
  | i + 1, result, remainder =>
    if divisor <<< i ≤ remainder then
      divLoop divisor i (result <<< 1 ||| 1) (remainder - divisor <<< i)
    else divLoop divisor i (result <<< 1) remainder

def div64 (dividend : BitVec 64) (divisor : BitVec 32) : BitVec 64 :=
  if divisor = 0 then 0 else divLoop (divisor.setWidth 64) 64 0 dividend

def nice0Load : BitVec 64 := 1024

structure CfsTask where
  vruntime : BitVec 64
  loadWeight : BitVec 32

def cfsCalcVruntime (task : CfsTask) (deltaExec : BitVec 64) : BitVec 64 :=
  task.vruntime + div64 (deltaExec * nice0Load) task.loadWeight

/-- The quotient that the last `n` rounds collect. -/
def quotient (divisor : Nat) : Nat → Nat → Nat
  | 0, _ => 0
  | i + 1, remainder =>
    if divisor * 2 ^ i % 2 ^ 64 ≤ remainder then
      2 ^ i + quotient divisor i (remainder - divisor * 2 ^ i % 2 ^ 64)
    else quotient divisor i remainder

/-- What is left of a shifted divisor that does not fit is above the dividend. -/
def Untouched (n dividend divisor : Nat) : Prop :=
  ∀ i < n, 2 ^ 64 ≤ divisor * 2 ^ i → dividend < divisor * 2 ^ i % 2 ^ 64

instance (n dividend divisor : Nat) : Decidable (Untouched n dividend divisor) :=
  inferInstanceAs (Decidable (∀ i < n, _))

theorem shifted_toNat (d : BitVec 64) (n : Nat) : (d <<< n).toNat = d.toNat * 2 ^ n % 2 ^ 64 := by
  rw [BitVec.toNat_shiftLeft, Nat.shiftLeft_eq]

theorem divLoop_toNat (d : BitVec 64) {n : Nat} {r a : BitVec 64}
    (h : r.toNat * 2 ^ n + 2 ^ n ≤ 2 ^ 64) :
    (divLoop d n r a).toNat = r.toNat * 2 ^ n + quotient d.toNat n a.toNat := by
  induction n generalizing r a with
  | zero => simp [divLoop, quotient]
  | succ n ih =>
    have hpow := Nat.two_pow_pos n
    have hdouble : r.toNat * 2 ^ (n + 1) = 2 * r.toNat * 2 ^ n := by ring
    have hodd : (2 * r.toNat + 1) * 2 ^ n = 2 * r.toNat * 2 ^ n + 2 ^ n := by ring
    have hsmall : 2 * r.toNat ≤ 2 * r.toNat * 2 ^ n := Nat.le_mul_of_pos_right _ hpow
    rw [hdouble, Nat.pow_succ] at h
    have hshift : (r <<< 1).toNat = 2 * r.toNat := by
      rw [shifted_toNat]
      omega
    have hset : (r <<< 1 ||| 1).toNat = 2 * r.toNat + 1 := by
      rw [BitVec.toNat_or, hshift]
      exact (Nat.two_pow_add_eq_or_of_lt (i := 1) Nat.one_lt_two r.toNat).symm
    have htest : d <<< n ≤ a ↔ d.toNat * 2 ^ n % 2 ^ 64 ≤ a.toNat := by
      rw [BitVec.le_def, shifted_toNat]
    rw [divLoop, quotient, hdouble]
    by_cases hle : d <<< n ≤ a
    · rw [if_pos hle, if_pos (htest.mp hle), ih (by rw [hset, hodd]; omega), hset, hodd,
        BitVec.toNat_sub_of_le hle, shifted_toNat, Nat.add_assoc]
    · rw [if_neg hle, if_neg (mt htest.mpr hle), ih (by rw [hshift]; omega), hshift]

variable {d a n : Nat}

theorem quotient_eq (hfits : ∀ i < n, d * 2 ^ i < 2 ^ 64) (hd : 0 < d) (h : a < d * 2 ^ n) :
    quotient d n a = a / d := by
  induction n generalizing a with
  | zero => rw [quotient, Nat.div_eq_of_lt (by simpa using h)]
  | succ n ih =>
    have hrest {a : Nat} (ha : a < d * 2 ^ n) : quotient d n a = a / d :=
      ih (fun i hi => hfits i (Nat.lt_succ_of_lt hi)) ha
    rw [Nat.pow_succ, ← Nat.mul_assoc] at h
    rw [quotient, Nat.mod_eq_of_lt (hfits n (Nat.lt_succ_self n))]
    split
    · next hle =>
      rw [hrest (by omega), Nat.sub_mul_div, Nat.add_sub_cancel']
      rwa [Nat.le_div_iff_mul_le hd, Nat.mul_comm]
    · next hlt => exact hrest (Nat.lt_of_not_le hlt)

/-- The first wrapped divisor that the dividend reaches puts a bit above the quotient. -/
theorem quotient_eq_iff (hd : 0 < d) (ha : a < 2 ^ 64) (h : a < d * 2 ^ n) :
    quotient d n a = a / d ↔ Untouched n a d := by
  induction n with
  | zero => exact iff_of_true (by rw [quotient, Nat.div_eq_of_lt (by simpa using h)]) nofun
  | succ n ih =>
    by_cases hwrap : 2 ^ 64 ≤ d * 2 ^ n
    · have hlt : a < d * 2 ^ n := by omega
      have hsmall : a / d < 2 ^ n := (Nat.div_lt_iff_lt_mul hd).mpr (by rwa [Nat.mul_comm])
      rw [quotient]
      split
      · next hle => exact iff_of_false (by omega) fun hall => absurd (hall n n.lt_succ_self hwrap) (by omega)
      · next hnot =>
        rw [ih hlt]
        refine ⟨fun hall i hi hi' => ?_, fun hall i hi => hall i (Nat.lt_succ_of_lt hi)⟩
        rcases Nat.lt_succ_iff_lt_or_eq.mp hi with hi | rfl
        · exact hall i hi hi'
        · exact Nat.lt_of_not_le hnot
    · have hfits (i : Nat) (hi : i < n + 1) : d * 2 ^ i < 2 ^ 64 :=
        (Nat.mul_le_mul_left d (Nat.pow_le_pow_right (by decide) (Nat.le_of_lt_succ hi))).trans_lt
          (Nat.lt_of_not_le hwrap)
      exact iff_of_true (quotient_eq hfits hd h) fun i hi hi' => absurd hi' (Nat.not_le.mpr (hfits i hi))

theorem div64_eq_iff (a : BitVec 64) {b : BitVec 32} (hb : b ≠ 0) :
    (div64 a b).toNat = a.toNat / b.toNat ↔ Untouched 64 a.toNat b.toNat := by
  have hpos : 0 < b.toNat := Nat.pos_of_ne_zero fun h => hb (BitVec.eq_of_toNat_eq h)
  have hwide : (b.setWidth 64).toNat = b.toNat := by
    rw [BitVec.toNat_setWidth, Nat.mod_eq_of_lt (by omega)]
  have hzero : (0 : BitVec 64).toNat = 0 := rfl
  rw [div64, if_neg hb, divLoop_toNat _ (by decide), hwide, hzero, Nat.zero_mul, Nat.zero_add]
  exact quotient_eq_iff hpos a.isLt (a.isLt.trans_le (Nat.le_mul_of_pos_left _ hpos))

/-- The division and the virtual runtime are exact for the dividends below every wrapped divisor: all
of them for a divisor of 1, and none for an even one. -/
theorem vruntime_exact_iff (a : BitVec 64) (b : BitVec 32) (task : CfsTask) (delta : BitVec 64)
    (hb : b ≠ 0) (hweight : task.loadWeight ≠ 0) (hfits : delta.toNat * 1024 < 2 ^ 64) :
    ((div64 a b).toNat = a.toNat / b.toNat ↔ Untouched 64 a.toNat b.toNat) ∧
      ((cfsCalcVruntime task delta - task.vruntime).toNat =
          delta.toNat * 1024 / task.loadWeight.toNat ↔
        Untouched 64 (delta.toNat * 1024) task.loadWeight.toNat) := by
  have hproduct : (delta * nice0Load).toNat = delta.toNat * 1024 := by
    rw [BitVec.toNat_mul]
    exact Nat.mod_eq_of_lt hfits
  refine ⟨div64_eq_iff a hb, ?_⟩
  rw [cfsCalcVruntime, BitVec.add_comm, BitVec.add_sub_cancel, ← hproduct]
  exact div64_eq_iff _ hweight

theorem lowest_priority_exact :
    (cfsCalcVruntime ⟨0, 15⟩ 3 - 0).toNat = 3 * 1024 / (15 : BitVec 32).toNat :=
  (vruntime_exact_iff 0 1 ⟨0, 15⟩ 3 (by decide) (by decide) (by decide)).2.mpr (by decide)

/-- Half of 4 is 2, and one tick of a task of nice value 0 is one tick. -/
theorem even_divisors_wrong :
    (div64 4 2).toNat = 2 ^ 63 + 4 / 2 ∧
      (cfsCalcVruntime ⟨0, 1024⟩ 1).toNat = 2 ^ 64 - 2 ^ 54 + 1024 / 1024 := by
  decide +kernel

end TocinOS.Cfs

import Mathlib

/-! Little-endian numbers in byte sequences. -/

namespace LittleEndian

def decode : Nat → (Nat → BitVec 8) → Nat
  | 0, _ => 0
  | n + 1, f => (f 0).toNat + 256 * decode n (fun i => f (i + 1))

theorem decode_congr {n : Nat} {f g : Nat → BitVec 8} (h : ∀ i < n, f i = g i) :
    decode n f = decode n g := by
  induction n generalizing f g with
  | zero => rfl
  | succ n ih =>
    have htail : decode n (fun i => f (i + 1)) = decode n (fun i => g (i + 1)) :=
      ih fun i hi => h (i + 1) (Nat.succ_lt_succ hi)
    simp only [decode, htail, h 0 (Nat.succ_pos n)]

theorem decode_digits (n v : Nat) :
    decode n (fun i => BitVec.ofNat 8 (v / 256 ^ i)) = v % 256 ^ n := by
  induction n generalizing v with
  | zero => simp [decode, Nat.mod_one]
  | succ n ih =>
    have htail : decode n (fun i => BitVec.ofNat 8 (v / 256 ^ (i + 1))) = v / 256 % 256 ^ n := by
      rw [← ih]
      exact decode_congr fun i _ => by rw [Nat.pow_succ', Nat.div_div_eq_div_mul]
    rw [decode, htail, Nat.pow_zero, Nat.div_one]
    show v % 256 + 256 * (v / 256 % 256 ^ n) = v % 256 ^ (n + 1)
    rw [Nat.pow_succ', Nat.mod_mul]

def get (f : Nat → BitVec 8) (pos n : Nat) : Nat :=
  decode n fun i => f (pos + i)

def put (f : Nat → BitVec 8) (pos n v : Nat) : Nat → BitVec 8 :=
  fun i => if pos ≤ i ∧ i < pos + n then BitVec.ofNat 8 (v / 256 ^ (i - pos)) else f i

theorem get_congr {f g : Nat → BitVec 8} {pos n : Nat}
    (h : ∀ i, pos ≤ i → i < pos + n → f i = g i) : get f pos n = get g pos n :=
  decode_congr fun i hi => h (pos + i) (Nat.le_add_right ..) (Nat.add_lt_add_left hi pos)

theorem decode_lt (n : Nat) (f : Nat → BitVec 8) : decode n f < 256 ^ n := by
  induction n generalizing f with
  | zero => exact Nat.one_pos
  | succ n ih =>
    have hhead := (f 0).isLt
    have htail := ih fun i => f (i + 1)
    rw [decode, Nat.pow_succ]
    omega

theorem get_lt (f : Nat → BitVec 8) (pos n : Nat) : get f pos n < 256 ^ n :=
  decode_lt n _

theorem get_put (f : Nat → BitVec 8) (pos : Nat) {n v : Nat} (hv : v < 256 ^ n) :
    get (put f pos n v) pos n = v := by
  have hdigit : ∀ i < n, put f pos n v (pos + i) = BitVec.ofNat 8 (v / 256 ^ i) := by
    intro i hi
    rw [put, if_pos ⟨Nat.le_add_right .., Nat.add_lt_add_left hi pos⟩, Nat.add_sub_cancel_left]
  rw [get, decode_congr hdigit, decode_digits, Nat.mod_eq_of_lt hv]

theorem get_put_of_disjoint (f : Nat → BitVec 8) {pos pos' n n' : Nat} (v : Nat)
    (h : pos + n ≤ pos' ∨ pos' + n' ≤ pos) : get (put f pos n v) pos' n' = get f pos' n' := by
  apply get_congr
  intro i hle hlt
  rw [put, if_neg (by omega)]

end LittleEndian

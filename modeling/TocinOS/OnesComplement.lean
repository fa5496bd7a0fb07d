import Mathlib

/-! One's-complement sums of 16-bit words with end-around carry. A sum is determined by
its residue modulo 65535 and by whether every word is zero. -/

namespace TocinOS.OnesComplement

/-- Addition with end-around carry. -/
def add (a b : Nat) : Nat := (a + b) % 65536 + (a + b) / 65536

def total (words : List Nat) : Nat := words.foldr add 0

def networkWords : List (BitVec 8) → List Nat
  | [] => []
  | [a] => [a.toNat * 256]
  | a :: b :: rest => (a.toNat * 256 + b.toNat) :: networkWords rest

def checksum (bytes : List (BitVec 8)) : Nat := 65535 - total (networkWords bytes)

def swap (x : Nat) : Nat := x % 256 * 256 + x / 256

structure Folds (n r : Nat) : Prop where
  lt : r < 65536
  mod : r % 65535 = n % 65535
  zero : r = 0 ↔ n = 0

variable {n r : Nat}

theorem Folds.pos (h : Folds n r) (hn : 0 < n) : 0 < r :=
  Nat.pos_of_ne_zero fun hr => by have := h.zero.mp hr; omega

theorem Folds.eq_iff {m q : Nat} (h : Folds n r) (h' : Folds m q) (hn : 0 < n) (hm : 0 < m) :
    r = q ↔ n % 65535 = m % 65535 := by
  have hr := h.pos hn
  have hq := h'.pos hm
  obtain ⟨hlt, hmod, -⟩ := h
  obtain ⟨hlt', hmod', -⟩ := h'
  omega

theorem Folds.full_iff (h : Folds n r) : r = 65535 ↔ 0 < n ∧ n % 65535 = 0 := by
  have hlt := h.lt
  have hmod := h.mod
  constructor
  · intro hr
    exact ⟨Nat.pos_of_ne_zero fun hn => by have := h.zero.mpr hn; omega, by omega⟩
  · rintro ⟨hn, hn'⟩
    have hr := h.pos hn
    omega

theorem Folds.complement (h : Folds n r) : 0 < n + (65535 - r) ∧ (n + (65535 - r)) % 65535 = 0 := by
  obtain ⟨hlt, hmod, hzero⟩ := h
  omega

theorem Folds.swap (h : Folds n r) : Folds (256 * n) (swap r) := by
  obtain ⟨hlt, hmod, hzero⟩ := h
  refine ⟨?_, ?_, ?_⟩
  · unfold OnesComplement.swap
    omega
  · unfold OnesComplement.swap
    omega
  · rw [Nat.mul_eq_zero, ← hzero, OnesComplement.swap]
    omega

theorem Folds.add {m q : Nat} (h : Folds n r) (h' : Folds m q) : Folds (n + m) (add r q) := by
  obtain ⟨hlt, hmod, hzero⟩ := h
  obtain ⟨hlt', hmod', hzero'⟩ := h'
  refine ⟨?_, ?_, ?_⟩
  · unfold OnesComplement.add
    omega
  · unfold OnesComplement.add
    omega
  · rw [Nat.add_eq_zero_iff, ← hzero, ← hzero', OnesComplement.add]
    omega

theorem Folds.of_lt {w : Nat} (h : w < 65536) : Folds w w := ⟨h, rfl, Iff.rfl⟩

theorem total_folds {words : List Nat} (h : ∀ w ∈ words, w < 65536) :
    Folds words.sum (total words) := by
  induction words with
  | nil => exact .of_lt (by decide)
  | cons w rest ih =>
    have hrest := ih fun v hv => h v (List.mem_cons_of_mem w hv)
    rw [List.sum_cons]
    exact (Folds.of_lt (h w (by simp))).add hrest

theorem networkWords_lt (bytes : List (BitVec 8)) : ∀ w ∈ networkWords bytes, w < 65536 := by
  induction bytes using networkWords.induct with
  | case1 => simp [networkWords]
  | case2 a =>
    have := a.isLt
    simp only [networkWords, List.mem_singleton, forall_eq]
    omega
  | case3 a b rest ih =>
    have := a.isLt
    have := b.isLt
    simp only [networkWords, List.mem_cons, forall_eq_or_imp]
    exact ⟨by omega, ih⟩

theorem networkWords_folds (bytes : List (BitVec 8)) :
    Folds (networkWords bytes).sum (total (networkWords bytes)) :=
  total_folds (networkWords_lt bytes)

end TocinOS.OnesComplement

import TocinOS.LittleEndian

/-! Words of 32 bits in a byte memory, and null-terminated lists that are linked
through the first word of their nodes. -/

namespace MemoryWords

abbrev Memory := Nat → BitVec 8

def word (m : Memory) (a : Nat) : Nat := LittleEndian.get m a 4

def setWord (m : Memory) (a v : Nat) : Memory := LittleEndian.put m a 4 v

variable {m m' : Memory} {a b v : Nat}

theorem word_setWord (m : Memory) (a : Nat) (hv : v < 2 ^ 32) : word (setWord m a v) a = v :=
  LittleEndian.get_put m a hv

theorem word_setWord_of_disjoint (m : Memory) (v : Nat) (h : a + 4 ≤ b ∨ b + 4 ≤ a) :
    word (setWord m a v) b = word m b :=
  LittleEndian.get_put_of_disjoint m v h

theorem setWord_of_outside (m : Memory) (v : Nat) (h : b < a ∨ a + 4 ≤ b) :
    setWord m a v b = m b :=
  if_neg (by omega)

theorem word_congr (h : ∀ x, a ≤ x → x < a + 4 → m' x = m x) : word m' a = word m a :=
  LittleEndian.get_congr h

theorem word_lt (m : Memory) (a : Nat) : word m a < 2 ^ 32 :=
  LittleEndian.get_lt m a 4

def Chain (m : Memory) : Nat → List Nat → Prop
  | head, [] => head = 0
  | head, a :: l => head = a ∧ a ≠ 0 ∧ Chain m (word m a) l

variable {l : List Nat}

theorem Chain.congr {head : Nat} (h : Chain m head l) (hl : ∀ a ∈ l, word m' a = word m a) :
    Chain m' head l := by
  induction l generalizing head with
  | nil => exact h
  | cons a l ih =>
    obtain ⟨hhead, hne, hrest⟩ := h
    refine ⟨hhead, hne, ?_⟩
    rw [hl a List.mem_cons_self]
    exact ih hrest fun b hb => hl b (List.mem_cons_of_mem a hb)

theorem Chain.eq_nil (h : Chain m 0 l) : l = [] := by
  cases l with
  | nil => rfl
  | cons a l => exact absurd h.1.symm h.2.1

theorem Chain.exists_cons {head : Nat} (h : Chain m head l) (hne : head ≠ 0) :
    ∃ rest, l = head :: rest ∧ Chain m (word m head) rest := by
  cases l with
  | nil => exact absurd h hne
  | cons a l =>
    obtain ⟨rfl, -, hrest⟩ := h
    exact ⟨l, rfl, hrest⟩

theorem Chain.of_spaced {size n : Nat} (hne : a ≠ 0)
    (hlink : ∀ i < n, word m (a + i * size) = a + (i + 1) * size)
    (hlast : word m (a + n * size) = 0) :
    Chain m a ((List.range (n + 1)).map fun i => a + i * size) := by
  induction n generalizing a with
  | zero =>
    rw [Nat.zero_mul, Nat.add_zero] at hlast
    exact ⟨by simp, by simpa using hne, by simpa [Chain] using hlast⟩
  | succ n ih =>
    rw [List.range_succ_eq_map, List.map_cons, List.map_map]
    have hshift (i : Nat) : a + (i + 1) * size = a + size + i * size := by
      rw [Nat.add_mul]
      omega
    have hrest := ih (a := a + size) (by omega)
      (fun i hi => by rw [← hshift, ← hshift]; exact hlink (i + 1) (by omega))
      (by rw [← hshift]; exact hlast)
    have hnext := hlink 0 (by omega)
    simp only [Nat.zero_mul, Nat.add_zero, Nat.zero_add, Nat.one_mul] at hnext
    refine ⟨by simp, by simpa using hne, ?_⟩
    simp only [Nat.zero_mul, Nat.add_zero, hnext, Function.comp_def, Nat.succ_eq_add_one, hshift]
    exact hrest

end MemoryWords

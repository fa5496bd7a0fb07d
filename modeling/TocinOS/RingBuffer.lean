import Mathlib

/-! Fixed-size circular buffers with a head, a tail and a count, filled and
drained in blocks of bytes. `Holds` ties the cells to the queue they represent,
so that nothing above this file reasons about wrapped indices. -/

namespace TocinOS.RingBuffer

structure Buffer (α : Type) where
  cells : Nat → α
  head : Nat
  tail : Nat
  count : Nat

variable {α : Type}

def Buffer.put (size : Nat) (r : Buffer α) (x : α) : Buffer α :=
  { r with cells := Function.update r.cells r.tail x, tail := (r.tail + 1) % size }

def Buffer.push (size : Nat) (r : Buffer α) (block : List α) : Buffer α :=
  let filled := block.foldl (Buffer.put size) r
  { filled with count := r.count + block.length }

def Buffer.drain (size : Nat) (cells : Nat → α) : Nat → Nat → List α
  | _, 0 => []
  | head, n + 1 => cells head :: Buffer.drain size cells ((head + 1) % size) n

theorem Buffer.length_drain (size : Nat) (cells : Nat → α) (head n : Nat) :
    (Buffer.drain size cells head n).length = n := by
  induction n generalizing head with
  | zero => rfl
  | succ n ih => rw [Buffer.drain, List.length_cons, ih]

def Buffer.pop (size : Nat) (r : Buffer α) (n : Nat) : List α × Buffer α :=
  (Buffer.drain size r.cells r.head n,
    { r with head := (r.head + n) % size, count := r.count - n })

structure Holds (size : Nat) (r : Buffer α) (q : List α) : Prop where
  fits : q.length ≤ size
  tail_eq : r.tail = (r.head + q.length) % size
  cell : ∀ i (h : i < q.length), r.cells ((r.head + i) % size) = q[i]
  head_lt : r.head < size
  count_eq : r.count = q.length

variable {size : Nat} {r : Buffer α} {q : List α}

theorem holds_empty (hsize : 0 < size) (cells : Nat → α) :
    Holds size ⟨cells, 0, 0, 0⟩ ([] : List α) where
  fits := Nat.zero_le _
  tail_eq := by simp
  cell := fun i h => absurd h (Nat.not_lt_zero i)
  head_lt := hsize
  count_eq := rfl

theorem Holds.congr (h : Holds size r q) {cells : Nat → α}
    (hcells : ∀ i < q.length, cells ((r.head + i) % size) = r.cells ((r.head + i) % size)) :
    Holds size { r with cells } q :=
  { h with cell := fun i hi => (hcells i hi).trans (h.cell i hi) }

theorem wrap_inj {head i j : Nat} (hi : i < size) (hj : j < size)
    (h : (head + i) % size = (head + j) % size) : i = j := by
  have hmod : i ≡ j [MOD size] := Nat.ModEq.add_left_cancel' head h
  exact hmod.eq_of_lt_of_lt hi hj

theorem Holds.put (h : Holds size r q) (x : α) (hroom : q.length < size) :
    Holds size { r.put size x with count := r.count + 1 } (q ++ [x]) where
  fits := by simpa using Nat.succ_le_of_lt hroom
  tail_eq := by
    simp only [Buffer.put, h.tail_eq, List.length_append, List.length_singleton]
    rw [Nat.mod_add_mod, Nat.add_assoc]
  cell := by
    intro i hi
    simp only [Buffer.put, h.tail_eq]
    rcases Nat.lt_or_ge i q.length with hold | hnew
    · have hne : (r.head + i) % size ≠ (r.head + q.length) % size := fun he =>
        absurd (wrap_inj (Nat.lt_trans hold hroom) hroom he) (Nat.ne_of_lt hold)
      rw [Function.update_of_ne hne, h.cell i hold, List.getElem_append_left hold]
    · have hlast : i = q.length := by
        simp only [List.length_append, List.length_singleton] at hi
        omega
      subst hlast
      simp
  head_lt := h.head_lt
  count_eq := by simp [h.count_eq]

theorem foldl_put_count (size : Nat) (block : List α) (r : Buffer α) (n : Nat) :
    block.foldl (Buffer.put size) { r with count := n } =
      { block.foldl (Buffer.put size) r with count := n } := by
  induction block generalizing r with
  | nil => rfl
  | cons x block ih => exact ih (r.put size x)

theorem Holds.push (h : Holds size r q) (block : List α) (hroom : q.length + block.length ≤ size) :
    Holds size (r.push size block) (q ++ block) := by
  induction block generalizing r q with
  | nil => simpa [Buffer.push] using h
  | cons x block ih =>
    simp only [List.length_cons] at hroom
    have hfirst := h.put x (by omega)
    have hrest := ih hfirst (by simp only [List.length_append, List.length_singleton]; omega)
    simp only [Buffer.push, foldl_put_count, List.append_assoc, List.singleton_append] at hrest
    simpa only [Buffer.push, List.foldl_cons, List.length_cons, Nat.add_assoc,
      Nat.add_comm 1] using hrest

theorem Holds.drain (h : Holds size r q) {n : Nat} (hn : n ≤ q.length) :
    Buffer.drain size r.cells r.head n = q.take n := by
  have hcells : ∀ n k, k + n ≤ q.length →
      Buffer.drain size r.cells ((r.head + k) % size) n = (q.drop k).take n := by
    intro n
    induction n with
    | zero => simp [Buffer.drain]
    | succ n ih =>
      intro k hk
      have hlt : k < q.length := by omega
      have hstep := ih (k + 1) (by omega)
      rw [Buffer.drain, Nat.mod_add_mod, Nat.add_assoc, hstep, h.cell k hlt,
        List.drop_eq_getElem_cons hlt, List.take_succ_cons]
  have hall := hcells n 0 (by omega)
  rwa [Nat.add_zero, Nat.mod_eq_of_lt h.head_lt, List.drop_zero] at hall

theorem Holds.pop (h : Holds size r q) {n : Nat} (hn : n ≤ q.length) :
    (r.pop size n).1 = q.take n ∧ Holds size (r.pop size n).2 (q.drop n) := by
  constructor
  · exact h.drain hn
  · have hfits := h.fits
    have hhead := h.head_lt
    constructor
    · simp only [List.length_drop]
      omega
    · simp only [Buffer.pop, h.tail_eq, List.length_drop, Nat.mod_add_mod]
      rw [Nat.add_assoc, Nat.add_sub_cancel' hn]
    · intro i hi
      rw [List.length_drop] at hi
      simp only [Buffer.pop, Nat.mod_add_mod, List.getElem_drop, Nat.add_assoc]
      exact h.cell (n + i) (by omega)
    · exact Nat.mod_lt _ (by omega)
    · simp only [Buffer.pop, h.count_eq, List.length_drop]

end TocinOS.RingBuffer

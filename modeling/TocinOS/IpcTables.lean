import Mathlib

/-! What the object tables of `kernel/ipc.c` have in common: a bitmap of the slots in use, the
tests at the start of every call, the search for a free slot, and calls that may block. -/

namespace TocinOS.Ipc

def ipcCreat : BitVec 32 := 1
def ipcExcl : BitVec 32 := 2
def ipcNowait : BitVec 32 := 4

def has (flags mask : BitVec 32) : Bool := flags &&& mask != 0

structure Table (α : Type) where
  slots : Nat → α
  bitmap : Nat → Bool := fun _ => false

variable {α : Type}

variable {i j : Nat}

namespace Table

def modify (t : Table α) (i : Nat) (f : α → α) : Table α :=
  { t with slots := Function.update t.slots i (f (t.slots i)) }

/-- The slot of an id, or none where a call returns -1. -/
def lookup (t : Table α) (limit : Nat) (id : Int) : Option Nat :=
  if id < 0 ∨ id ≥ limit then none
  else if !t.bitmap id.toNat then none
  else some id.toNat

def firstFree (t : Table α) (limit : Nat) : Option Nat :=
  (List.range limit).find? fun i => !t.bitmap i

def occupy (t : Table α) (i : Nat) (a : α) : Table α :=
  ⟨Function.update t.slots i a, Function.update t.bitmap i true⟩

theorem lookup_eq_some {t : Table α} {limit : Nat} {id : Int} (h : t.lookup limit id = some i) :
    id = i ∧ t.bitmap i = true := by
  simp only [lookup] at h
  split_ifs at h with hrange hbit
  cases h
  exact ⟨by omega, by simpa using hbit⟩

theorem firstFree_eq_some {t : Table α} {limit : Nat} (h : t.firstFree limit = some i) :
    t.bitmap i = false ∧ i < limit :=
  ⟨by simpa using List.find?_some h, List.mem_range.mp (List.mem_of_find?_eq_some h)⟩

@[simp] theorem modify_self (t : Table α) (i : Nat) (f : α → α) :
    (t.modify i f).slots i = f (t.slots i) := by simp [modify]

@[simp] theorem modify_of_ne (t : Table α) (h : j ≠ i) (f : α → α) :
    (t.modify i f).slots j = t.slots j := by simp [modify, h]

@[simp] theorem occupy_self (t : Table α) (i : Nat) (a : α) : (t.occupy i a).slots i = a := by
  simp [occupy]

@[simp] theorem occupy_of_ne (t : Table α) (h : j ≠ i) (a : α) :
    (t.occupy i a).slots j = t.slots j := by simp [occupy, h]

theorem occupy_bitmap_of_ne (t : Table α) (h : j ≠ i) (a : α) :
    (t.occupy i a).bitmap j = t.bitmap j := by simp [occupy, h]

@[simp] theorem occupy_bitmap_self (t : Table α) (i : Nat) (a : α) :
    (t.occupy i a).bitmap i = true := by simp [occupy]

end Table

inductive Outcome where
  | returned (r : Int)
  | blocked
deriving DecidableEq

end TocinOS.Ipc

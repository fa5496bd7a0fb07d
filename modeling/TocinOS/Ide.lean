import Mathlib

/-! Sector transfers of `drivers/ide_driver.c`. The outcomes of the waits for the status
register come from outside, so that every pattern of failures is a value of the state. -/

namespace TocinOS.Ide

abbrev Byte := BitVec 8
abbrev Bytes := Nat → Byte

abbrev sectorSize : Nat := 512

abbrev errTimeout : Int := -1
abbrev errNoDrive : Int := -2
abbrev errReadFail : Int := -3
abbrev errWriteFail : Int := -4
abbrev errInvalid : Int := -5

inductive Wait
  | ready
  | timeout
  | error
  deriving DecidableEq

structure State where
  initialized : Bool
  present : BitVec 8 → Bool
  sectors : BitVec 8 → Nat → Bytes
  waits : Nat → Wait

def State.nextWait (s : State) : State :=
  { s with waits := fun k => s.waits (k + 1) }

def sectorOf (lba : BitVec 32) (i : Nat) : Nat := (lba.toNat + i) % 2 ^ 28

/-- The sectors `i`, `i + 1`, … of a read command, up to the first failing wait. -/
def readData (drive : BitVec 8) (lba : BitVec 32) (i : Nat) :
    Nat → Bytes → State → Int × Bytes × State
  | 0, buffer, s => (i, buffer, s)
  | left + 1, buffer, s =>
    match s.waits 0 with
    | .timeout => (errTimeout, buffer, s.nextWait)
    | .error => (errReadFail, buffer, s.nextWait)
    | .ready =>
      readData drive lba (i + 1) left
        (fun j =>
          if i * sectorSize ≤ j ∧ j < (i + 1) * sectorSize then
            s.sectors drive (sectorOf lba i) (j - i * sectorSize)
          else buffer j)
        s.nextWait

def ideReadSectors (drive : BitVec 8) (lba : BitVec 32) (count : BitVec 8) (buffer : Bytes)
    (s : State) : Int × Bytes × State :=
  if s.initialized = false ∨ count = 0 then (errInvalid, buffer, s)
  else if s.present drive = false then (errNoDrive, buffer, s)
  else if s.waits 0 ≠ .ready then (errTimeout, buffer, s.nextWait)
  else readData drive lba 0 count.toNat buffer s.nextWait

def writeData (drive : BitVec 8) (lba : BitVec 32) (buffer : Bytes) (i : Nat) :
    Nat → State → Int × State
  | 0, s =>
    if s.waits 0 ≠ .ready then (errTimeout, s.nextWait) else (i, s.nextWait)
  | left + 1, s =>
    match s.waits 0 with
    | .timeout => (errTimeout, s.nextWait)
    | .error => (errWriteFail, s.nextWait)
    | .ready =>
      writeData drive lba buffer (i + 1) left
        { s.nextWait with
          sectors := Function.update s.sectors drive
            (Function.update (s.sectors drive) (sectorOf lba i)
              fun j => buffer (i * sectorSize + j)) }

def ideWriteSectors (drive : BitVec 8) (lba : BitVec 32) (count : BitVec 8) (buffer : Bytes)
    (s : State) : Int × State :=
  if s.initialized = false ∨ count = 0 then (errInvalid, s)
  else if s.present drive = false then (errNoDrive, s)
  else if s.waits 0 ≠ .ready then (errTimeout, s.nextWait)
  else writeData drive lba buffer 0 count.toNat s.nextWait

def ideReadSector (drive : BitVec 8) (lba : BitVec 32) (buffer : Bytes) (s : State) :
    Int × Bytes × State :=
  ideReadSectors drive lba 1 buffer s

def ideWriteSector (drive : BitVec 8) (lba : BitVec 32) (buffer : Bytes) (s : State) :
    Int × State :=
  ideWriteSectors drive lba 1 buffer s

/-- Success is the number of sectors and failure is negative; a read that fails stores nothing. -/
theorem ideReadSector_cases (drive : BitVec 8) (lba : BitVec 32) (buffer : Bytes) (s : State) :
    ∃ s' : State, s'.sectors = s.sectors ∧ (ideReadSector drive lba buffer s =
      (1, fun j => if j < sectorSize then s.sectors drive (sectorOf lba 0) j else buffer j, s') ∨
        ∃ e < 0, ideReadSector drive lba buffer s = (e, buffer, s')) := by
  unfold ideReadSector ideReadSectors
  split
  · exact ⟨s, rfl, .inr ⟨errInvalid, by decide, rfl⟩⟩
  split
  · exact ⟨s, rfl, .inr ⟨errNoDrive, by decide, rfl⟩⟩
  split
  · exact ⟨s.nextWait, rfl, .inr ⟨errTimeout, by decide, rfl⟩⟩
  · refine ⟨s.nextWait.nextWait, rfl, ?_⟩
    show readData drive lba 0 1 buffer s.nextWait = _ ∨ ∃ e < 0, readData drive lba 0 1 buffer s.nextWait = _
    rw [readData]
    cases s.nextWait.waits 0 with
    | timeout => exact .inr ⟨errTimeout, by decide, rfl⟩
    | error => exact .inr ⟨errReadFail, by decide, rfl⟩
    | ready =>
      refine .inl (Prod.ext rfl (Prod.ext (funext fun j => ?_) rfl))
      simp [readData, State.nextWait]

theorem ideReadSector_ne_zero (drive : BitVec 8) (lba : BitVec 32) (buffer : Bytes)
    (s : State) : (ideReadSector drive lba buffer s).1 ≠ 0 := by
  obtain ⟨s', -, h | ⟨e, he, h⟩⟩ := ideReadSector_cases drive lba buffer s
  · rw [h]
    exact Int.one_ne_zero
  · rw [h]
    exact Int.ne_of_lt he

/-- A write that fails may have stored the sector: the last wait is for the flush. -/
theorem ideWriteSector_cases (drive : BitVec 8) (lba : BitVec 32) (buffer : Bytes) (s : State) :
    ∃ e s', ideWriteSector drive lba buffer s = (e, s') ∧ (e < 0 ∧ s'.sectors = s.sectors ∨
      (e = 1 ∨ e < 0) ∧ s'.sectors = Function.update s.sectors drive
        (Function.update (s.sectors drive) (sectorOf lba 0) buffer)) := by
  unfold ideWriteSector ideWriteSectors
  split
  · exact ⟨errInvalid, s, rfl, .inl ⟨by decide, rfl⟩⟩
  split
  · exact ⟨errNoDrive, s, rfl, .inl ⟨by decide, rfl⟩⟩
  split
  · exact ⟨errTimeout, s.nextWait, rfl, .inl ⟨by decide, rfl⟩⟩
  · show ∃ e s', writeData drive lba buffer 0 1 s.nextWait = (e, s') ∧ _
    rw [writeData]
    cases s.nextWait.waits 0 with
    | timeout => exact ⟨errTimeout, _, rfl, .inl ⟨by decide, rfl⟩⟩
    | error => exact ⟨errWriteFail, _, rfl, .inl ⟨by decide, rfl⟩⟩
    | ready =>
      simp only [writeData, Nat.zero_mul, Nat.zero_add]
      split
      · exact ⟨errTimeout, _, rfl, .inr ⟨.inr (by decide), rfl⟩⟩
      · exact ⟨1, _, rfl, .inr ⟨.inl rfl, rfl⟩⟩

end TocinOS.Ide

import TocinOS.IpcTables

/-! The semaphores of `kernel/ipc.c`. `sem_wait` is cut where it calls `task_block`, so that a
blocked call may go on at any later time. -/

namespace TocinOS.IpcSemaphores

open Function (update)
open Ipc

abbrev maxSemaphores : Nat := 128
abbrev maxValueLimit : Int := 0x7FFFFFFF

structure Semaphore where
  name : List (BitVec 8) := []
  value : Int := 0
  maxValue : Int := 0
  flags : BitVec 32 := 0
  owner : Int := 0
  numBlocked : Int := 0

abbrev State := Table Semaphore

def ipcInit : State := { slots := fun _ => {} }

def findSemaphore (s : State) (name : List (BitVec 8)) : Option Nat :=
  (List.range maxSemaphores).find? fun i =>
    s.bitmap i && (s.slots i).name != [] && (s.slots i).name == name

/-- The id of the semaphore, or -1. `owner` is the current task. -/
def semCreate (s : State) (name : List (BitVec 8)) (initialValue : Int) (flags : BitVec 32)
    (owner : Int) : Int × State :=
  if initialValue < 0 then (-1, s)
  else
    match findSemaphore s name with
    | some existing => if has flags ipcExcl then (-1, s) else (existing, s)
    | none =>
      if !has flags ipcCreat then (-1, s)
      else
        match s.firstFree maxSemaphores with
        | none => (-1, s)
        | some semid =>
          (semid, s.occupy semid
            { name := name.take 31, value := initialValue, maxValue := maxValueLimit
              flags, owner, numBlocked := 0 })

def waitRound (s : State) (i : Nat) : Outcome × State :=
  if (s.slots i).value ≤ 0 then
    (.blocked, s.modify i fun sem => { sem with numBlocked := sem.numBlocked + 1 })
  else (.returned 0, s.modify i fun sem => { sem with value := sem.value - 1 })

def semWait (s : State) (semid : Int) : Outcome × State :=
  match s.lookup maxSemaphores semid with
  | none => (.returned (-1), s)
  | some i => waitRound s i

def semWaitResume (s : State) (i : Nat) : Outcome × State :=
  waitRound (s.modify i fun sem => { sem with numBlocked := sem.numBlocked - 1 }) i

def semTrywait (s : State) (semid : Int) : Int × State :=
  match s.lookup maxSemaphores semid with
  | none => (-1, s)
  | some i =>
    if (s.slots i).value ≤ 0 then (-1, s)
    else (0, s.modify i fun sem => { sem with value := sem.value - 1 })

def semPost (s : State) (semid : Int) : Int × State :=
  match s.lookup maxSemaphores semid with
  | none => (-1, s)
  | some i =>
    if (s.slots i).value < (s.slots i).maxValue then
      (0, s.modify i fun sem => { sem with value := sem.value + 1 })
    else (0, s)

/-! ### Runs -/

structure Account where
  initial : Int := 0
  posts : Nat := 0
  waits : Nat := 0

/-- The table, the semaphore that each suspended `sem_wait` waits for, and the accounts. -/
structure Config where
  state : State := ipcInit
  waiting : Nat → Option Nat := fun _ => none
  accounts : Nat → Account := fun _ => {}

def Config.counted (c : Config) (i : Nat) (f : Account → Account) : Nat → Account :=
  update c.accounts i (f (c.accounts i))

def Config.afterWait (c : Config) (task i : Nat) (r : Outcome × State) : Config where
  state := r.2
  waiting := update c.waiting task (if r.1 = .blocked then some i else none)
  accounts := if r.1 = .returned 0 then
      c.counted i fun a => { a with waits := a.waits + 1 }
    else c.accounts

def Config.afterCall (c : Config) (i : Nat) (count : Account → Account) (r : Int × State) :
    Config :=
  { c with state := r.2, accounts := if r.1 = 0 then c.counted i count else c.accounts }

inductive Step (c : Config) : Config → Prop
  | create (name : List (BitVec 8)) (initialValue : Int) (flags : BitVec 32) (owner : Int) :
      Step c
        { c with
          state := (semCreate c.state name initialValue flags owner).2
          accounts := fun i =>
            if c.state.bitmap i = false ∧
                (semCreate c.state name initialValue flags owner).2.bitmap i = true then
              { initial := initialValue }
            else c.accounts i }
  | wait (task : Nat) (semid : Int) (hidle : c.waiting task = none) :
      Step c (c.afterWait task semid.toNat (semWait c.state semid))
  | resume (task i : Nat) (hwaiting : c.waiting task = some i) :
      Step c (c.afterWait task i (semWaitResume c.state i))
  | trywait (task : Nat) (semid : Int) (hidle : c.waiting task = none) :
      Step c (c.afterCall semid.toNat (fun a => { a with waits := a.waits + 1 })
        (semTrywait c.state semid))
  | post (task : Nat) (semid : Int) (hidle : c.waiting task = none)
      (hbelow : ∀ i, c.state.lookup maxSemaphores semid = some i →
        (c.state.slots i).value < (c.state.slots i).maxValue) :
      Step c (c.afterCall semid.toNat (fun a => { a with posts := a.posts + 1 })
        (semPost c.state semid))

structure Balanced (sem : Semaphore) (a : Account) : Prop where
  nonneg : 0 ≤ sem.value
  value : sem.value = a.initial + a.posts - a.waits

def Inv (c : Config) : Prop :=
  ∀ i, c.state.bitmap i = true → Balanced (c.state.slots i) (c.accounts i)

variable {c : Config}

theorem Inv.change (h : Inv c) (i : Nat) {f : Semaphore → Semaphore} {g : Account → Account}
    (w : Nat → Option Nat)
    (hstep : Balanced (c.state.slots i) (c.accounts i) →
      Balanced (f (c.state.slots i)) (g (c.accounts i))) :
    Inv ⟨c.state.modify i f, w, c.counted i g⟩ := by
  intro j hj
  by_cases hji : j = i
  · subst hji
    simpa [Config.counted] using hstep (h j hj)
  · simpa [Config.counted, hji] using h j hj

theorem Inv.modify (h : Inv c) (i : Nat) {f : Semaphore → Semaphore} (w : Nat → Option Nat)
    (hvalue : (f (c.state.slots i)).value = (c.state.slots i).value) :
    Inv ⟨c.state.modify i f, w, c.accounts⟩ := by
  have hsame := h.change i (f := f) (g := id) w fun hb =>
    ⟨hvalue ▸ hb.nonneg, hvalue.trans hb.value⟩
  simpa [Config.counted] using hsame

theorem afterWait_blocked (c : Config) (task i : Nat) (s : State) :
    c.afterWait task i (.blocked, s) = ⟨s, update c.waiting task (some i), c.accounts⟩ := rfl

theorem afterWait_returned (c : Config) (task i : Nat) (s : State) :
    c.afterWait task i (.returned 0, s) = ⟨s, update c.waiting task none,
      c.counted i fun a => { a with waits := a.waits + 1 }⟩ := rfl

theorem afterCall_zero (c : Config) (i : Nat) (count : Account → Account) (s : State) :
    c.afterCall i count (0, s) = ⟨s, c.waiting, c.counted i count⟩ := rfl

theorem Balanced.wait {sem : Semaphore} {a : Account} (h : Balanced sem a) (hvalue : ¬ sem.value ≤ 0) :
    Balanced { sem with value := sem.value - 1 } { a with waits := a.waits + 1 } := by
  have hsum := h.value
  constructor <;> dsimp only
  · omega
  · omega

theorem Balanced.post {sem : Semaphore} {a : Account} (h : Balanced sem a) :
    Balanced { sem with value := sem.value + 1 } { a with posts := a.posts + 1 } := by
  have hsum := h.value
  have hnonneg := h.nonneg
  constructor <;> dsimp only
  · omega
  · omega

theorem Inv.waitRound (h : Inv c) (task i : Nat) :
    Inv (c.afterWait task i (waitRound c.state i)) := by
  unfold IpcSemaphores.waitRound
  by_cases hvalue : (c.state.slots i).value ≤ 0
  · rw [if_pos hvalue, afterWait_blocked]
    exact h.modify i _ rfl
  · rw [if_neg hvalue, afterWait_returned]
    exact h.change i _ fun hb => hb.wait hvalue

theorem semCreate_cases (s : State) (name : List (BitVec 8)) (initialValue : Int)
    (flags : BitVec 32) (owner : Int) :
    (semCreate s name initialValue flags owner).2 = s ∨
      ∃ semid sem, s.bitmap semid = false ∧ 0 ≤ initialValue ∧ sem.value = initialValue ∧
        (semCreate s name initialValue flags owner).2 = s.occupy semid sem := by
  unfold semCreate
  by_cases hneg : initialValue < 0
  · rw [if_pos hneg]
    exact .inl rfl
  rw [if_neg hneg]
  cases findSemaphore s name with
  | some existing =>
    dsimp only
    split_ifs
    · exact .inl rfl
    · exact .inl rfl
  | none =>
    dsimp only
    split_ifs
    · exact .inl rfl
    · cases hfree : s.firstFree maxSemaphores with
      | none => exact .inl rfl
      | some semid =>
        exact .inr ⟨semid, _, (Table.firstFree_eq_some hfree).1, by omega, rfl, rfl⟩

theorem Inv.create (h : Inv c) (name : List (BitVec 8)) (initialValue : Int) (flags : BitVec 32)
    (owner : Int) (w : Nat → Option Nat) :
    Inv ⟨(semCreate c.state name initialValue flags owner).2, w, fun i =>
      if c.state.bitmap i = false ∧
          (semCreate c.state name initialValue flags owner).2.bitmap i = true then
        { initial := initialValue }
      else c.accounts i⟩ := by
  rcases semCreate_cases c.state name initialValue flags owner with
    hs | ⟨semid, sem, hfree, hinitial, hvalue, hs⟩
  · rw [hs]
    intro i hi
    have hused : c.state.bitmap i = true := hi
    simpa [hused] using h i hi
  · rw [hs]
    intro i hi
    by_cases hisem : i = semid
    · subst hisem
      simp only [Table.occupy_self, Table.occupy_bitmap_self, hfree, and_self, if_true]
      exact ⟨hvalue ▸ hinitial, by simp [hvalue]⟩
    · have hused : c.state.bitmap i = true := by
        rw [← c.state.occupy_bitmap_of_ne hisem sem]
        exact hi
      simpa [hisem, hused] using h i hused

theorem Inv.step {c' : Config} (h : Inv c) (hs : Step c c') : Inv c' := by
  cases hs with
  | create name initialValue flags owner => exact h.create name initialValue flags owner _
  | wait task semid hidle =>
    unfold semWait
    cases hl : c.state.lookup maxSemaphores semid with
    | none => exact h
    | some i =>
      obtain ⟨rfl, -⟩ := Table.lookup_eq_some hl
      exact h.waitRound task i
  | resume task i hwaiting =>
    have hdone := h.modify i (f := fun sem => { sem with numBlocked := sem.numBlocked - 1 })
      c.waiting rfl
    exact hdone.waitRound task i
  | trywait task semid hidle =>
    unfold semTrywait
    cases hl : c.state.lookup maxSemaphores semid with
    | none => exact h
    | some i =>
      obtain ⟨rfl, -⟩ := Table.lookup_eq_some hl
      dsimp only
      by_cases hvalue : (c.state.slots i).value ≤ 0
      · rw [if_pos hvalue]
        exact h
      · rw [if_neg hvalue, afterCall_zero]
        exact h.change i _ fun hb => hb.wait hvalue
  | post task semid hidle hbelow =>
    unfold semPost
    cases hl : c.state.lookup maxSemaphores semid with
    | none => exact h
    | some i =>
      obtain ⟨rfl, -⟩ := Table.lookup_eq_some hl
      dsimp only
      rw [if_pos (hbelow i hl), afterCall_zero]
      exact h.change i _ fun hb => hb.post

theorem Inv.run (h : Relation.ReflTransGen Step {} c) : Inv c := by
  induction h with
  | refl =>
    intro i hi
    cases hi
  | tail _ hs ih => exact ih.step hs

/-- In every run in which posts find the value below its maximum, the value of every semaphore
is its initial value plus posts minus successful waits, and never negative. -/
theorem semaphore_conserved {c : Config} (h : Relation.ReflTransGen Step {} c) {i : Nat}
    (hi : c.state.bitmap i = true) :
    0 ≤ (c.state.slots i).value ∧
      (c.state.slots i).value =
        (c.accounts i).initial + (c.accounts i).posts - (c.accounts i).waits ∧
      ((c.accounts i).waits : Int) ≤ (c.accounts i).initial + (c.accounts i).posts := by
  have hnonneg := (Inv.run h i hi).nonneg
  have hvalue := (Inv.run h i hi).value
  exact ⟨hnonneg, hvalue, by omega⟩

def oneSemaphore : Config where
  state := (semCreate ipcInit [0x61] 1 ipcCreat 0).2
  accounts := fun i =>
    if ipcInit.bitmap i = false ∧ (semCreate ipcInit [0x61] 1 ipcCreat 0).2.bitmap i = true then
      { initial := 1 }
    else {}

def contended : Config :=
  let c := oneSemaphore.afterWait 0 0 (semWait oneSemaphore.state 0)
  c.afterWait 1 0 (semWait c.state 0)

theorem contended_reached : Relation.ReflTransGen Step {} contended := by
  exact .tail (.tail (.single (.create [0x61] 1 ipcCreat 0)) (.wait 0 0 rfl)) (.wait 1 0 rfl)

theorem contended_conserved : (contended.state.slots 0).value =
    (contended.accounts 0).initial + (contended.accounts 0).posts - (contended.accounts 0).waits :=
  (semaphore_conserved contended_reached (by decide)).2.1

end TocinOS.IpcSemaphores

import TocinOS.IpcTables

/-! The mutexes of `kernel/ipc.c`. `mutex_lock` is cut where it calls `task_block`. -/

namespace TocinOS.IpcMutexes

open Function (update update_self update_of_ne)
open Ipc

abbrev maxMutexes : Nat := 128

inductive MutexType where
  | normal
  | recursive
  | errorcheck
deriving DecidableEq

structure Mutex where
  name : List (BitVec 8) := []
  type : MutexType := .normal
  locked : Bool := false
  owner : Int := 0
  recursionCount : BitVec 32 := 0
  numBlocked : Int := 0

abbrev State := Table Mutex

def ipcInit : State := { slots := fun _ => {} }

def mutexCreate (s : State) (name : List (BitVec 8)) (type : MutexType) : Int × State :=
  match s.firstFree maxMutexes with
  | none => (-1, s)
  | some mutexid =>
    (mutexid, s.occupy mutexid { name := name.take 31, type, owner := -1 })

def Mutex.acquire (m : Mutex) (task : Int) : Mutex :=
  { m with locked := true, owner := task, recursionCount := 1 }

def Mutex.again (m : Mutex) : Mutex := { m with recursionCount := m.recursionCount + 1 }

def lockRound (s : State) (i : Nat) (task : Int) : Outcome × State :=
  if (s.slots i).locked then
    (.blocked, s.modify i fun m => { m with numBlocked := m.numBlocked + 1 })
  else (.returned 0, s.modify i fun m => m.acquire task)

def mutexLock (s : State) (mutexid task : Int) : Outcome × State :=
  match s.lookup maxMutexes mutexid with
  | none => (.returned (-1), s)
  | some i =>
    let m := s.slots i
    if m.type = .recursive ∧ m.owner = task then (.returned 0, s.modify i Mutex.again)
    else if m.type = .errorcheck ∧ m.owner = task then (.returned (-1), s)
    else lockRound s i task

def mutexLockResume (s : State) (i : Nat) (task : Int) : Outcome × State :=
  lockRound (s.modify i fun m => { m with numBlocked := m.numBlocked - 1 }) i task

def mutexTrylock (s : State) (mutexid task : Int) : Int × State :=
  match s.lookup maxMutexes mutexid with
  | none => (-1, s)
  | some i =>
    let m := s.slots i
    if m.locked then
      if m.type = .recursive ∧ m.owner = task then (0, s.modify i Mutex.again) else (-1, s)
    else (0, s.modify i fun m => m.acquire task)

def mutexUnlock (s : State) (mutexid task : Int) : Int × State :=
  match s.lookup maxMutexes mutexid with
  | none => (-1, s)
  | some i =>
    let m := s.slots i
    if m.type = .errorcheck ∧ m.owner ≠ task then (-1, s)
    else if m.type = .recursive ∧ m.recursionCount.toInt > 1 then
      (0, s.modify i fun m => { m with recursionCount := m.recursionCount - 1 })
    else (0, s.modify i fun m => { m with locked := false, owner := -1, recursionCount := 0 })

def ipcCleanupTask (s : State) (taskId : Int) : State :=
  { s with slots := fun i =>
      if i < maxMutexes ∧ s.bitmap i = true ∧ (s.slots i).owner = taskId then
        { s.slots i with locked := false, owner := -1 }
      else s.slots i }

/-! ### Runs -/

/-- The table, the mutex that each suspended `mutex_lock` waits for, and how often each task has
locked a mutex and not unlocked it again. -/
structure Config where
  state : State := ipcInit
  waiting : Int → Option Nat := fun _ => none
  held : Nat → Int → Nat := fun _ _ => 0

def Config.recount (c : Config) (i : Nat) (task : Int) (f : Nat → Nat) : Nat → Int → Nat :=
  update c.held i (update (c.held i) task (f (c.held i task)))

def Config.afterLock (c : Config) (i : Nat) (task : Int) (r : Outcome × State) : Config where
  state := r.2
  waiting := update c.waiting task (if r.1 = .blocked then some i else none)
  held := if r.1 = .returned 0 then c.recount i task (· + 1) else c.held

def Config.afterCall (c : Config) (i : Nat) (task : Int) (f : Nat → Nat) (r : Int × State) :
    Config :=
  { c with state := r.2, held := if r.1 = 0 then c.recount i task f else c.held }

inductive Call where
  | create (name : List (BitVec 8)) (type : MutexType)
  | lock (mutexid task : Int)
  | resume (i : Nat) (task : Int)
  | trylock (mutexid task : Int)
  | unlock (mutexid task : Int)
  | cleanup (task : Int)

def Config.call (c : Config) : Call → Config
  | .create name type => { c with state := (mutexCreate c.state name type).2 }
  | .lock mutexid task => c.afterLock mutexid.toNat task (mutexLock c.state mutexid task)
  | .resume i task => c.afterLock i task (mutexLockResume c.state i task)
  | .trylock mutexid task =>
    c.afterCall mutexid.toNat task (· + 1) (mutexTrylock c.state mutexid task)
  | .unlock mutexid task =>
    c.afterCall mutexid.toNat task (· - 1) (mutexUnlock c.state mutexid task)
  | .cleanup task =>
    { c with
      state := ipcCleanupTask c.state task
      held := fun i t => if t = task then 0 else c.held i t }

def Call.Possible (c : Config) : Call → Prop
  | .create _ _ => True
  | .lock _ task => 0 ≤ task ∧ c.waiting task = none
  | .resume i task => c.waiting task = some i
  | .trylock _ task => 0 ≤ task ∧ c.waiting task = none
  | .unlock _ task => 0 ≤ task ∧ c.waiting task = none
  | .cleanup _ => True

def RoomToCount (m : Mutex) (task : Int) : Prop :=
  m.type = .recursive → m.owner = task → m.recursionCount.toInt < 0x7FFFFFFF

/-- An unlock of a locked mutex that does not check for errors comes from its owner, and a
recursive lock does not overflow the count. -/
def Call.Proper (c : Config) : Call → Prop
  | .lock mutexid task => ∀ i, c.state.lookup maxMutexes mutexid = some i →
      RoomToCount (c.state.slots i) task
  | .trylock mutexid task => ∀ i, c.state.lookup maxMutexes mutexid = some i →
      RoomToCount (c.state.slots i) task
  | .unlock mutexid task => ∀ i, c.state.lookup maxMutexes mutexid = some i →
      (c.state.slots i).locked = true → (c.state.slots i).type ≠ .errorcheck →
        (c.state.slots i).owner = task
  | _ => True

inductive Step (c : Config) : Config → Prop
  | call (a : Call) (hpossible : a.Possible c) (hproper : a.Proper c) : Step c (c.call a)

/-! ### Ownership -/

structure Owned (m : Mutex) (held : Int → Nat) : Prop where
  holder : ∀ t, 0 < held t → m.locked = true ∧ m.owner = t
  free : m.locked = false → m.owner = -1
  owner : m.locked = true → 0 ≤ m.owner ∧ 0 < held m.owner
  counted : m.locked = true → m.type = .recursive → m.recursionCount.toInt = held m.owner
  once : m.locked = true → m.type ≠ .recursive → held m.owner = 1

structure Inv (c : Config) : Prop where
  bounded : ∀ i, c.state.bitmap i = true → i < maxMutexes
  owned : ∀ i, c.state.bitmap i = true → Owned (c.state.slots i) (c.held i)
  unused : ∀ i, c.state.bitmap i = false → ∀ t, c.held i t = 0
  waits : ∀ t i, c.waiting t = some i → 0 ≤ t ∧ c.state.bitmap i = true

section

variable {m : Mutex} {held : Int → Nat} {task : Int}

theorem Owned.held_eq_zero (h : Owned m held) {t : Int} (ht : m.locked = false ∨ m.owner ≠ t) :
    held t = 0 := by
  by_contra hne
  obtain ⟨hlocked, howner⟩ := h.holder t (Nat.pos_of_ne_zero hne)
  rcases ht with ht | ht
  · rw [hlocked] at ht
    cases ht
  · exact ht howner

theorem Owned.of_free (hfree : m.locked = false) (howner : m.owner = -1)
    (hzero : ∀ t, held t = 0) : Owned m held := by
  constructor
  case holder =>
    intro t ht
    rw [hzero t] at ht
    cases ht
  case free => exact fun _ => howner
  all_goals
    intro hlocked
    rw [hfree] at hlocked
    cases hlocked

theorem Owned.numBlocked (h : Owned m held) (n : Int) : Owned { m with numBlocked := n } held :=
  ⟨h.holder, h.free, h.owner, h.counted, h.once⟩

theorem Owned.acquire (h : Owned m held) (hfree : m.locked = false) (htask : 0 ≤ task) :
    Owned (m.acquire task) (update held task (held task + 1)) := by
  have hzero : ∀ t, held t = 0 := fun t => h.held_eq_zero (.inl hfree)
  have hone : update held task (held task + 1) task = 1 := by rw [update_self, hzero]
  constructor
  case holder =>
    intro t ht
    by_cases hne : t = task
    · exact ⟨rfl, hne.symm⟩
    · rw [update_of_ne hne, hzero t] at ht
      cases ht
  case free => exact fun hunlocked => by cases hunlocked
  case owner => exact fun _ => ⟨htask, Nat.lt_of_lt_of_eq Nat.one_pos hone.symm⟩
  case counted =>
    intro _ _
    show (1 : BitVec 32).toInt = (update held task (held task + 1) task : Nat)
    rw [hone]
    decide
  case once => exact fun _ _ => hone

theorem toInt_add_one {x : BitVec 32} (h : x.toInt < 0x7FFFFFFF) : (x + 1).toInt = x.toInt + 1 := by
  have hone : (1 : BitVec 32).toNat = 1 := rfl
  rw [BitVec.toInt_eq_toNat_cond] at h ⊢
  rw [BitVec.toInt_eq_toNat_cond, BitVec.toNat_add, hone]
  have := x.isLt
  split_ifs at h ⊢ <;> omega

theorem toInt_sub_one {x : BitVec 32} (h : 1 < x.toInt) : (x - 1).toInt = x.toInt - 1 := by
  have hone : (1 : BitVec 32).toNat = 1 := rfl
  rw [BitVec.toInt_eq_toNat_cond] at h ⊢
  rw [BitVec.toInt_eq_toNat_cond, BitVec.toNat_sub, hone]
  have := x.isLt
  split_ifs at h ⊢ <;> omega

theorem Owned.locked_of_owner (h : Owned m held) (howner : m.owner = task) (htask : 0 ≤ task) :
    m.locked = true := by
  by_contra hfree
  have := h.free (by simpa using hfree)
  omega

theorem Owned.again (h : Owned m held) (htype : m.type = .recursive) (howner : m.owner = task)
    (htask : 0 ≤ task) (hroom : RoomToCount m task) :
    Owned m.again (update held task (held task + 1)) := by
  have hlocked := h.locked_of_owner howner htask
  subst howner
  constructor
  case holder =>
    intro t ht
    by_cases hne : t = m.owner
    · exact ⟨hlocked, hne.symm⟩
    · rw [update_of_ne hne] at ht
      exact h.holder t ht
  case free => exact h.free
  case owner =>
    intro _
    refine ⟨htask, ?_⟩
    show 0 < update held m.owner (held m.owner + 1) m.owner
    rw [update_self]
    exact Nat.succ_pos _
  case counted =>
    intro _ _
    show (m.recursionCount + 1).toInt = (update held m.owner (held m.owner + 1) m.owner : Nat)
    rw [update_self, toInt_add_one (hroom htype rfl), h.counted hlocked htype]
    rfl
  case once => exact fun _ hne => absurd htype hne

theorem Owned.countDown (h : Owned m held) (htype : m.type = .recursive)
    (hcount : 1 < m.recursionCount.toInt) (howner : m.locked = true → m.owner = task) :
    Owned { m with recursionCount := m.recursionCount - 1 }
      (update held task (held task - 1)) := by
  by_cases hlocked : m.locked = true
  · obtain rfl := howner hlocked
    have hheld := h.counted hlocked htype
    constructor
    case holder =>
      intro t ht
      by_cases hne : t = m.owner
      · exact ⟨hlocked, hne.symm⟩
      · rw [update_of_ne hne] at ht
        exact h.holder t ht
    case free => exact h.free
    case owner =>
      intro _
      refine ⟨(h.owner hlocked).1, ?_⟩
      show 0 < update held m.owner (held m.owner - 1) m.owner
      rw [update_self]
      omega
    case counted =>
      intro _ _
      show (m.recursionCount - 1).toInt = (update held m.owner (held m.owner - 1) m.owner : Nat)
      rw [update_self, toInt_sub_one hcount]
      omega
    case once => exact fun _ hne => absurd htype hne
  · have hfree : m.locked = false := by simpa using hlocked
    have hsame : update held task (held task - 1) = held := by
      rw [h.held_eq_zero (.inl hfree), Nat.zero_sub, ← h.held_eq_zero (t := task) (.inl hfree)]
      exact Function.update_eq_self _ _
    rw [hsame]
    exact ⟨h.holder, h.free, h.owner, fun hl => absurd hl hlocked, h.once⟩

theorem Owned.release (h : Owned m held)
    (hlast : ¬ (m.type = .recursive ∧ m.recursionCount.toInt > 1))
    (howner : m.locked = true → m.owner = task) :
    Owned { m with locked := false, owner := -1, recursionCount := 0 }
      (update held task (held task - 1)) := by
  have hzero : ∀ t, update held task (held task - 1) t = 0 := by
    intro t
    by_cases hne : t = task
    · subst hne
      rw [update_self]
      cases hlocked : m.locked with
      | false => rw [h.held_eq_zero (.inl hlocked)]
      | true =>
        obtain rfl := howner hlocked
        by_cases htype : m.type = .recursive
        · have := h.counted hlocked htype
          have : ¬ m.recursionCount.toInt > 1 := fun hgt => hlast ⟨htype, hgt⟩
          omega
        · rw [h.once hlocked htype]
    · rw [update_of_ne hne]
      cases hlocked : m.locked with
      | false => exact h.held_eq_zero (.inl hlocked)
      | true => exact h.held_eq_zero (.inr fun e => hne (e.symm.trans (howner hlocked)))
  exact .of_free rfl rfl hzero

theorem Owned.cleanup (h : Owned m held) :
    Owned (if m.owner = task then { m with locked := false, owner := -1 } else m)
      (fun t => if t = task then 0 else held t) := by
  by_cases howner : m.owner = task
  · rw [if_pos howner]
    refine .of_free rfl rfl fun t => ?_
    split_ifs with hne
    · rfl
    · exact h.held_eq_zero (.inr fun e => hne (e.symm.trans howner))
  · have hsame : (fun t => if t = task then 0 else held t) = held := by
      funext t
      split_ifs with ht
      · subst ht
        exact (h.held_eq_zero (.inr howner)).symm
      · rfl
    rw [if_neg howner, hsame]
    exact h

end

/-! ### Steps -/

variable {c : Config} {i : Nat} {mutexid : Int}

theorem Inv.change (h : Inv c) (hi : c.state.bitmap i = true) {f : Mutex → Mutex} {g : Nat → Nat}
    {task : Int} {w : Int → Option Nat} (hw : ∀ t j, w t = some j → 0 ≤ t ∧ c.state.bitmap j = true)
    (hstep : Owned (c.state.slots i) (c.held i) →
      Owned (f (c.state.slots i)) (update (c.held i) task (g (c.held i task)))) :
    Inv ⟨c.state.modify i f, w, c.recount i task g⟩ where
  bounded := h.bounded
  owned j hj := by
    by_cases hji : j = i
    · subst hji
      simpa [Config.recount] using hstep (h.owned j hj)
    · simpa [Config.recount, hji] using h.owned j hj
  unused j hj t := by
    have hji : j ≠ i := by
      rintro rfl
      exact absurd (hi.symm.trans hj) (by decide)
    simpa [Config.recount, hji] using h.unused j hj t
  waits := hw

theorem Inv.modify (h : Inv c) {f : Mutex → Mutex} {w : Int → Option Nat}
    (hw : ∀ t j, w t = some j → 0 ≤ t ∧ c.state.bitmap j = true)
    (hstep : Owned (c.state.slots i) (c.held i) → Owned (f (c.state.slots i)) (c.held i)) :
    Inv ⟨c.state.modify i f, w, c.held⟩ where
  bounded := h.bounded
  owned j hj := by
    by_cases hji : j = i
    · subst hji
      simpa using hstep (h.owned j hj)
    · simpa [hji] using h.owned j hj
  unused := h.unused
  waits := hw

theorem Inv.waits_update (h : Inv c) {task : Int} {v : Option Nat}
    (hv : ∀ j, v = some j → 0 ≤ task ∧ c.state.bitmap j = true) :
    ∀ t j, update c.waiting task v t = some j → 0 ≤ t ∧ c.state.bitmap j = true := by
  intro t j ht
  by_cases hne : t = task
  · subst hne
    rw [update_self] at ht
    exact hv j ht
  · rw [update_of_ne hne] at ht
    exact h.waits t j ht

theorem afterLock_blocked (c : Config) (i : Nat) (task : Int) (s : State) :
    c.afterLock i task (.blocked, s) = ⟨s, update c.waiting task (some i), c.held⟩ := rfl

theorem afterLock_returned (c : Config) (i : Nat) (task : Int) (s : State) :
    c.afterLock i task (.returned 0, s) =
      ⟨s, update c.waiting task none, c.recount i task (· + 1)⟩ := rfl

theorem afterLock_failed (c : Config) (i : Nat) (task : Int) (s : State) :
    c.afterLock i task (.returned (-1), s) = ⟨s, update c.waiting task none, c.held⟩ := rfl

theorem afterCall_zero (c : Config) (i : Nat) (task : Int) (f : Nat → Nat) (s : State) :
    c.afterCall i task f (0, s) = ⟨s, c.waiting, c.recount i task f⟩ := rfl

theorem Inv.lockRound (h : Inv c) (hi : c.state.bitmap i = true) {task : Int} (htask : 0 ≤ task) :
    Inv (c.afterLock i task (lockRound c.state i task)) := by
  unfold IpcMutexes.lockRound
  cases hlocked : (c.state.slots i).locked with
  | true =>
    rw [if_pos rfl, afterLock_blocked]
    refine h.modify (h.waits_update fun j hj => ?_) fun ho => ho.numBlocked _
    cases hj
    exact ⟨htask, hi⟩
  | false =>
    rw [if_neg (by decide), afterLock_returned]
    refine h.change hi (h.waits_update fun j hj => ?_) fun ho => ho.acquire hlocked htask
    cases hj

theorem Inv.lock (h : Inv c) {task : Int} (hpossible : (Call.lock mutexid task).Possible c)
    (hproper : (Call.lock mutexid task).Proper c) : Inv (c.call (.lock mutexid task)) := by
  show Inv (c.afterLock mutexid.toNat task (mutexLock c.state mutexid task))
  have hnone : ∀ j, (none : Option Nat) = some j → 0 ≤ task ∧ c.state.bitmap j = true := by simp
  unfold mutexLock
  cases hl : c.state.lookup maxMutexes mutexid with
  | none =>
    rw [afterLock_failed]
    exact ⟨h.bounded, h.owned, h.unused, h.waits_update hnone⟩
  | some i =>
    obtain ⟨rfl, hi⟩ := Table.lookup_eq_some hl
    dsimp only [Int.toNat_natCast]
    by_cases hrec : (c.state.slots i).type = .recursive ∧ (c.state.slots i).owner = task
    · rw [if_pos hrec, afterLock_returned]
      exact h.change hi (h.waits_update hnone) fun ho =>
        ho.again hrec.1 hrec.2 hpossible.1 (hproper i hl)
    rw [if_neg hrec]
    by_cases herr : (c.state.slots i).type = .errorcheck ∧ (c.state.slots i).owner = task
    · rw [if_pos herr, afterLock_failed]
      exact ⟨h.bounded, h.owned, h.unused, h.waits_update hnone⟩
    · rw [if_neg herr]
      exact h.lockRound hi hpossible.1

theorem Inv.resume (h : Inv c) {task : Int} (hpossible : c.waiting task = some i) :
    Inv (c.call (.resume i task)) := by
  obtain ⟨htask, hi⟩ := h.waits task i hpossible
  have hdone : Inv ⟨c.state.modify i fun m => { m with numBlocked := m.numBlocked - 1 },
      c.waiting, c.held⟩ := h.modify h.waits fun ho => ho.numBlocked _
  exact hdone.lockRound hi htask

theorem Inv.trylock (h : Inv c) {task : Int} (hpossible : (Call.trylock mutexid task).Possible c)
    (hproper : (Call.trylock mutexid task).Proper c) : Inv (c.call (.trylock mutexid task)) := by
  show Inv (c.afterCall mutexid.toNat task (· + 1) (mutexTrylock c.state mutexid task))
  unfold mutexTrylock
  cases hl : c.state.lookup maxMutexes mutexid with
  | none => exact h
  | some i =>
    obtain ⟨rfl, hi⟩ := Table.lookup_eq_some hl
    dsimp only [Int.toNat_natCast]
    cases hlocked : (c.state.slots i).locked with
    | true =>
      rw [if_pos rfl]
      by_cases hrec : (c.state.slots i).type = .recursive ∧ (c.state.slots i).owner = task
      · rw [if_pos hrec, afterCall_zero]
        exact h.change hi h.waits fun ho => ho.again hrec.1 hrec.2 hpossible.1 (hproper i hl)
      · rw [if_neg hrec]
        exact h
    | false =>
      rw [if_neg (by decide), afterCall_zero]
      exact h.change hi h.waits fun ho => ho.acquire hlocked hpossible.1

theorem Inv.unlock (h : Inv c) {task : Int} (hproper : (Call.unlock mutexid task).Proper c) :
    Inv (c.call (.unlock mutexid task)) := by
  show Inv (c.afterCall mutexid.toNat task (· - 1) (mutexUnlock c.state mutexid task))
  unfold mutexUnlock
  cases hl : c.state.lookup maxMutexes mutexid with
  | none => exact h
  | some i =>
    obtain ⟨rfl, hi⟩ := Table.lookup_eq_some hl
    dsimp only [Int.toNat_natCast]
    by_cases herr : (c.state.slots i).type = .errorcheck ∧ (c.state.slots i).owner ≠ task
    · rw [if_pos herr]
      exact h
    have howner : (c.state.slots i).locked = true → (c.state.slots i).owner = task := by
      intro hlocked
      by_cases htype : (c.state.slots i).type = .errorcheck
      · exact not_not.mp fun hne => herr ⟨htype, hne⟩
      · exact hproper i hl hlocked htype
    rw [if_neg herr]
    by_cases hrec : (c.state.slots i).type = .recursive ∧
        (c.state.slots i).recursionCount.toInt > 1
    · rw [if_pos hrec, afterCall_zero]
      exact h.change hi h.waits fun ho => ho.countDown hrec.1 hrec.2 howner
    · rw [if_neg hrec, afterCall_zero]
      exact h.change hi h.waits fun ho => ho.release hrec howner

theorem Inv.create (h : Inv c) (name : List (BitVec 8)) (type : MutexType) :
    Inv (c.call (.create name type)) := by
  show Inv ⟨(mutexCreate c.state name type).2, c.waiting, c.held⟩
  unfold mutexCreate
  cases hfree : c.state.firstFree maxMutexes with
  | none => exact h
  | some k =>
    obtain ⟨hk, hlt⟩ := Table.firstFree_eq_some hfree
    have hzero := h.unused k hk
    constructor
    case bounded =>
      intro i hi
      by_cases hik : i = k
      · exact hik ▸ hlt
      · rw [Table.occupy_bitmap_of_ne _ hik] at hi
        exact h.bounded i hi
    case owned =>
      intro i hi
      by_cases hik : i = k
      · subst hik
        rw [Table.occupy_self]
        exact .of_free rfl rfl hzero
      · rw [Table.occupy_bitmap_of_ne _ hik] at hi
        rw [Table.occupy_of_ne _ hik]
        exact h.owned i hi
    case unused =>
      intro i hi
      by_cases hik : i = k
      · subst hik
        exact hzero
      · rw [Table.occupy_bitmap_of_ne _ hik] at hi
        exact h.unused i hi
    case waits =>
      intro t i ht
      obtain ⟨ht', hi⟩ := h.waits t i ht
      refine ⟨ht', ?_⟩
      by_cases hik : i = k
      · subst hik
        exact Table.occupy_bitmap_self _ _ _
      · rwa [Table.occupy_bitmap_of_ne _ hik]

theorem Inv.cleanup (h : Inv c) (task : Int) : Inv (c.call (.cleanup task)) where
  bounded := h.bounded
  owned i hi := by
    have hused : c.state.bitmap i = true := hi
    have hslot : (ipcCleanupTask c.state task).slots i =
        if (c.state.slots i).owner = task then
          { c.state.slots i with locked := false, owner := -1 }
        else c.state.slots i := by
      simp [ipcCleanupTask, h.bounded i hused, hused]
    show Owned ((ipcCleanupTask c.state task).slots i) _
    rw [hslot]
    exact (h.owned i hused).cleanup
  unused i hi t := by
    show (if t = task then 0 else c.held i t) = 0
    rw [h.unused i hi t, ite_self]
  waits := h.waits

theorem Inv.step {c' : Config} (h : Inv c) (hs : Step c c') : Inv c' := by
  obtain ⟨a, hpossible, hproper⟩ := hs
  cases a with
  | create name type => exact h.create name type
  | lock mutexid task => exact h.lock hpossible hproper
  | resume i task => exact h.resume hpossible
  | trylock mutexid task => exact h.trylock hpossible hproper
  | unlock mutexid task => exact h.unlock hproper
  | cleanup task => exact h.cleanup task

theorem Inv.run (h : Relation.ReflTransGen Step {} c) : Inv c := by
  induction h with
  | refl =>
    exact ⟨fun _ hi => (by cases hi), fun _ hi => (by cases hi), fun _ _ _ => rfl,
      fun _ _ ht => (by cases ht)⟩
  | tail _ hs ih => exact ih.step hs

theorem recount_eq_self {task : Int} (h : c.held i task = 0) :
    c.recount i task (· - 1) = c.held := by
  have hsame : c.held i task - 1 = c.held i task := by omega
  show update c.held i (update (c.held i) task (c.held i task - 1)) = c.held
  rw [hsame, Function.update_eq_self, Function.update_eq_self]

theorem Inv.unlock_of_not_owner (h : Inv c) (hi : c.state.bitmap i = true) {task : Int}
    (hne : (c.state.slots i).owner ≠ task) (hproper : (Call.unlock i task).Proper c) :
    ((c.call (.unlock i task)).state.slots i).locked = (c.state.slots i).locked ∧
      ((c.call (.unlock i task)).state.slots i).owner = (c.state.slots i).owner ∧
      (c.call (.unlock i task)).held = c.held := by
  have hheld := recount_eq_self ((h.owned i hi).held_eq_zero (.inr hne))
  have hlookup : c.state.lookup maxMutexes (i : Int) = some i := by
    have := h.bounded i hi
    rw [Table.lookup, if_neg (by omega), Int.toNat_natCast, if_neg (by simp [hi])]
  have hcall : c.call (.unlock i task) = c.afterCall i task (· - 1) (mutexUnlock c.state i task) :=
    rfl
  rw [hcall, mutexUnlock, hlookup]
  dsimp only
  by_cases herr : (c.state.slots i).type = .errorcheck ∧ (c.state.slots i).owner ≠ task
  · rw [if_pos herr]
    exact ⟨rfl, rfl, rfl⟩
  have hfree : (c.state.slots i).locked = false := by
    by_contra hlocked
    have htype : (c.state.slots i).type ≠ .errorcheck := fun e => herr ⟨e, hne⟩
    exact hne (hproper i hlookup (by simpa using hlocked) htype)
  rw [if_neg herr]
  by_cases hrec : (c.state.slots i).type = .recursive ∧ (c.state.slots i).recursionCount.toInt > 1
  · rw [if_pos hrec, afterCall_zero, hheld]
    simp
  · rw [if_neg hrec, afterCall_zero, hheld]
    simp [hfree, (h.owned i hi).free hfree]

/-- In every run of such calls a mutex that a task has locked more often than unlocked is locked
and owned by it, so that no two tasks hold it, and an unlock by another task has no effect. -/
theorem mutex_owner_kept {c : Config} (h : Relation.ReflTransGen Step {} c) {i : Nat}
    (hi : c.state.bitmap i = true) :
    (∀ t, 0 < c.held i t → (c.state.slots i).locked = true ∧ (c.state.slots i).owner = t) ∧
      (∀ t u, 0 < c.held i t → 0 < c.held i u → t = u) ∧
      ∀ t, (c.state.slots i).owner ≠ t → (Call.unlock i t).Proper c →
        ((c.call (.unlock i t)).state.slots i).locked = (c.state.slots i).locked ∧
          ((c.call (.unlock i t)).state.slots i).owner = (c.state.slots i).owner ∧
          (c.call (.unlock i t)).held = c.held := by
  have hinv := Inv.run h
  have hholder := (hinv.owned i hi).holder
  refine ⟨hholder, fun t u ht hu => ?_, fun t hne hproper => ?_⟩
  · exact (hholder t ht).2.symm.trans (hholder u hu).2
  · exact hinv.unlock_of_not_owner hi hne hproper

def lockedBy0 (type : MutexType) : Config :=
  (({} : Config).call (.create [0x61] type)).call (.lock 0 0)

theorem lockedBy0_reached : Relation.ReflTransGen Step {} (lockedBy0 .recursive) := by
  refine .tail (.single (.call (.create [0x61] .recursive) trivial trivial))
    (.call (.lock 0 0) ⟨by decide, rfl⟩ fun i hi _ howner => ?_)
  obtain ⟨hid, -⟩ := Table.lookup_eq_some hi
  obtain rfl : i = 0 := by omega
  revert howner
  decide

theorem lockedBy0_owner : 0 < (lockedBy0 .recursive).held 0 0 ∧
    ((lockedBy0 .recursive).state.slots 0).owner = 0 := by
  have hheld : 0 < (lockedBy0 .recursive).held 0 0 := by decide
  exact ⟨hheld, ((mutex_owner_kept lockedBy0_reached (by decide)).1 0 hheld).2⟩

/-- Task 1 unlocks a normal mutex that task 0 holds and locks it: both hold it. -/
theorem foreign_unlock_releases :
    let c := (((lockedBy0 .normal).call (.unlock 0 1)).call (.lock 0 1))
    ((lockedBy0 .normal).state.slots 0).owner = 0 ∧
      ((c.state.slots 0).owner = 1 ∧ 0 < c.held 0 0 ∧ 0 < c.held 0 1) := by
  decide

end TocinOS.IpcMutexes

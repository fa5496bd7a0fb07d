import TocinOS.PthreadMutex

/-! Wake-ups of the mutex: who still wakes a sleeping thread when the mutex is free. -/

namespace TocinOS.Pthread

variable {ι : Type*} [DecidableEq ι] {pthreadSelf : ι → BitVec 32} {σ σ' : State ι} {t : ι}

/-- At the wake call of an unlock, or awake in the loop of `pthread_mutex_lock`. A thread in the
loop leaves 2 in the word before it sleeps or takes the mutex, so that another wake follows. -/
def Place.AboutToWake : Place → Bool
  | .lockMark | .lockTake _ | .lockAdd _ | .lockWait _ | .lockSub | .unlockWake => true
  | _ => false

/-- While the word is 0 no thread sleeps on it without another one that will wake it. -/
def NoLostWake (σ : State ι) : Prop :=
  ∀ t, σ.Asleep t → σ.mutex.lock = 0 → ∃ u ≠ t, (σ.thread u).place.AboutToWake

/-- Not about to sleep on a word that does not say that somebody waits. -/
def Timely (σ : State ι) (t : ι) : Prop := (σ.thread t).place = .lockWait 1 → σ.mutex.lock ≠ 1

instance (σ : State ι) (t : ι) : Decidable (Timely σ t) := inferInstanceAs (Decidable (_ → _))

def Place.Expects : Place → Prop
  | .lockTake expected | .lockAdd expected | .lockWait expected => expected = 1 ∨ expected = 2
  | _ => True

structure Alarmed (σ : State ι) : Prop where
  expects : ∀ t, (σ.thread t).place.Expects
  alarm : ∀ t, σ.Asleep t → σ.mutex.lock = 2 ∨ ∃ u, (σ.thread u).place.AboutToWake

omit [DecidableEq ι] in
theorem Alarmed.noLostWake (h : Alarmed σ) : NoLostWake σ := by
  intro t ht hzero
  rcases h.alarm t ht with htwo | ⟨u, hu⟩
  · exact absurd (hzero.symm.trans htwo) (by decide)
  · refine ⟨u, ?_, hu⟩
    rintro rfl
    rw [ht] at hu
    exact Bool.noConfusion hu

/-- Thread `t` moves on. Either it does not sleep then and the others have what they need, or it
goes to sleep on a 2. -/
theorem Alarmed.set (h : Alarmed σ) {th : Thread} {m : Mutex} (hexpects : th.place.Expects)
    (halarm : th.place.AboutToWake = true ∨ m.lock = 2 ∨
      th.place ≠ .lockAsleep ∧ (σ.thread t).place.AboutToWake = false ∧ (σ.mutex.lock = 2 → m.lock = 2)) :
    Alarmed (σ.set t th m) := by
  constructor
  · intro u
    by_cases hu : u = t
    · rw [hu, State.set_self]
      exact hexpects
    · rw [State.set_of_ne _ hu]
      exact h.expects u
  · intro u hasleep
    rcases halarm with hwake | htwo | ⟨hawake, hidle, hkeep⟩
    · exact .inr ⟨t, by rwa [State.set_self]⟩
    · exact .inl htwo
    -- a sleeper is another thread, and whoever was to wake it still is
    have hut : u ≠ t := by
      rintro rfl
      rw [State.Asleep, State.set_self] at hasleep
      exact hawake hasleep
    rw [State.Asleep, State.set_of_ne _ hut] at hasleep
    rcases h.alarm u hasleep with htwo | ⟨v, hv⟩
    · exact .inl (hkeep htwo)
    · have hvt : v ≠ t := by
        rintro rfl
        exact Bool.noConfusion (hidle.symm.trans hv)
      exact .inr ⟨v, by rwa [State.set_of_ne _ hvt]⟩

theorem Alarmed.run (h : Alarmed σ) (htimely : Timely σ t) {th : Thread} {m : Mutex}
    (hstep : (σ.thread t).step (pthreadSelf t) σ.mutex = some (th, m)) : Alarmed (σ.set t th m) := by
  have hexpects := h.expects t
  rw [Thread.step] at hstep
  cases hplace : (σ.thread t).place with
  | outside | lockAsleep | unlockWake =>
    rw [hplace] at hstep
    cases hstep
  | lockFast =>
    rw [hplace] at hstep
    replace hstep := Option.some.inj hstep
    split at hstep
    · next hzero =>
      cases hstep
      refine h.set trivial (.inr (.inr ⟨fun hasleep => Place.noConfusion hasleep, by rw [hplace]; rfl, fun htwo => ?_⟩))
      exact absurd (hzero.symm.trans htwo) (by decide)
    · cases hstep
      exact h.set trivial (.inl rfl)
  | tryFast =>
    rw [hplace] at hstep
    replace hstep := Option.some.inj hstep
    have hidle : (σ.thread t).place.AboutToWake = false := by
      rw [hplace]
      rfl
    split at hstep
    · next hzero =>
      cases hstep
      refine h.set trivial (.inr (.inr ⟨fun hasleep => Place.noConfusion hasleep, hidle, fun htwo => ?_⟩))
      exact absurd (hzero.symm.trans htwo) (by decide)
    · cases hstep
      exact h.set trivial (.inr (.inr ⟨fun hasleep => Place.noConfusion hasleep, hidle, id⟩))
  | lockMark =>
    rw [hplace] at hstep
    replace hstep := Option.some.inj hstep
    split at hstep
    · cases hstep
      exact h.set (.inr rfl) (.inl rfl)
    · cases hstep
      exact h.set (.inl rfl) (.inl rfl)
  | lockTake expected =>
    rw [hplace] at hstep hexpects
    replace hstep := Option.some.inj hstep
    split at hstep
    · cases hstep
      exact h.set trivial (.inr (.inl rfl))
    · cases hstep
      exact h.set hexpects (.inl rfl)
  | lockAdd expected =>
    rw [hplace] at hstep hexpects
    cases hstep
    exact h.set hexpects (.inl rfl)
  | lockWait expected =>
    rw [hplace] at hstep hexpects
    cases hstep
    split
    · next hword =>
      -- the word is the expected one, and it is not 1
      refine h.set trivial (.inr (.inl ?_))
      rcases hexpects with rfl | rfl
      · exact absurd hword (htimely hplace)
      · exact hword
    · exact h.set trivial (.inl rfl)
  | lockSub =>
    rw [hplace] at hstep
    cases hstep
    exact h.set trivial (.inl rfl)
  | own | unlockClear =>
    rw [hplace] at hstep
    cases hstep
    exact h.set trivial (.inr (.inr ⟨fun hasleep => Place.noConfusion hasleep, by rw [hplace]; rfl, id⟩))
  | unlockCheck =>
    rw [hplace] at hstep
    cases hstep
    have hidle : (σ.thread t).place.AboutToWake = false := by
      rw [hplace]
      rfl
    split
    · exact h.set trivial (.inr (.inr ⟨fun hasleep => Place.noConfusion hasleep, hidle, id⟩))
    · exact h.set trivial (.inr (.inr ⟨fun hasleep => Place.noConfusion hasleep, hidle, id⟩))
  | unlockXchg =>
    rw [hplace] at hstep
    cases hstep
    split
    · next hone =>
      refine h.set trivial (.inr (.inr ⟨fun hasleep => Place.noConfusion hasleep, by rw [hplace]; rfl, fun htwo => ?_⟩))
      exact absurd (hone.symm.trans htwo) (by decide)
    · exact h.set trivial (.inl rfl)

theorem Alarmed.wake (h : Alarmed σ) {woken : Finset ι} (hwakes : Wakes σ.Asleep 1 woken)
    (hplace : (σ.thread t).place = .unlockWake) :
    Alarmed ((σ.wake woken).set t ((σ.thread t).finish 0) σ.mutex) := by
  have hthread (u : ι) (hu : u ≠ t) : ((σ.wake woken).set t ((σ.thread t).finish 0) σ.mutex).thread u =
      if u ∈ woken then (σ.thread u).goto .lockSub else σ.thread u := State.set_of_ne _ hu _ _
  constructor
  · intro u
    by_cases hu : u = t
    · rw [hu, State.set_self]
      trivial
    · rw [hthread u hu]
      split
      · trivial
      · exact h.expects u
  · intro u hasleep
    have hut : u ≠ t := by
      rintro rfl
      rw [State.Asleep, State.set_self] at hasleep
      exact nomatch hasleep
    have hslept : σ.Asleep u := by
      rw [State.Asleep, hthread u hut] at hasleep
      split at hasleep
      · exact nomatch hasleep
      · exact hasleep
    obtain ⟨v, hv⟩ := hwakes.nonempty one_ne_zero hslept
    have hvt : v ≠ t := by
      rintro rfl
      exact Place.noConfusion (hplace.symm.trans (hwakes.sleeping v hv))
    refine .inr ⟨v, ?_⟩
    rw [hthread v hvt, if_pos hv]
    rfl

theorem Alarmed.step (h : Alarmed σ) (htimely : Timely σ t) (hstep : Step pthreadSelf t σ σ') :
    Alarmed σ' := by
  cases hstep with
  | call c hplace =>
    refine h.set ?_ (.inr (.inr ⟨?_, by rw [hplace]; rfl, id⟩))
    · cases c <;> trivial
    · cases c <;> exact nofun
  | move hmove =>
    cases hmove with
    | run hrun => exact h.run htimely hrun
    | wake hplace hwakes => exact h.wake hwakes hplace
    | interrupt hasleep => exact h.set trivial (.inl rfl)

theorem no_lost_wake
    (h : Relation.ReflTransGen (fun σ σ' => ∃ t, Timely σ t ∧ Step pthreadSelf t σ σ') State.start σ) :
    NoLostWake σ := by
  have halarmed : Alarmed σ := by
    induction h with
    | refl => exact ⟨fun _ => trivial, fun _ hasleep => nomatch hasleep⟩
    | tail _ hstep ih =>
      obtain ⟨t, htimely, hstep⟩ := hstep
      exact ih.step htimely hstep
  exact halarmed.noLostWake

/-! ### Two runs -/

def State.act (pthreadSelf : ι → BitVec 32) (guard : State ι → ι → Bool) (σ : State ι) :
    ι × Option Call → Option (State ι)
  | (t, some c) =>
    if guard σ t && (σ.thread t).place = .outside then
      some (σ.set t ((σ.thread t).goto c.entry) σ.mutex)
    else none
  | (t, none) =>
    if guard σ t then
      ((σ.thread t).step (pthreadSelf t) σ.mutex).map fun next => σ.set t next.1 next.2
    else none

theorem step_of_act {guard : State ι → ι → Bool} {action : ι × Option Call}
    (h : σ.act pthreadSelf guard action = some σ') :
    guard σ action.1 = true ∧ Step pthreadSelf action.1 σ σ' := by
  obtain ⟨t, c⟩ := action
  cases c with
  | some c =>
    rw [State.act] at h
    split at h
    · next hcall =>
      rw [Bool.and_eq_true, decide_eq_true_iff] at hcall
      cases h
      exact ⟨hcall.1, .call c hcall.2⟩
    · exact nomatch h
  | none =>
    rw [State.act] at h
    split at h
    · next hguard =>
      obtain ⟨⟨th, m⟩, hstep, rfl⟩ := Option.map_eq_some_iff.mp h
      exact ⟨hguard, .move (.run hstep)⟩
    · exact nomatch h

theorem run_of_acts {guard : State ι → ι → Bool} {actions : List (ι × Option Call)}
    (h : actions.foldlM (State.act pthreadSelf guard) σ = some σ') :
    Relation.ReflTransGen (fun σ σ' => ∃ t, guard σ t = true ∧ Step pthreadSelf t σ σ') σ σ' := by
  induction actions generalizing σ with
  | nil =>
    cases h
    exact .refl
  | cons action actions ih =>
    rw [List.foldlM_cons] at h
    obtain ⟨τ, hact, hrest⟩ := Option.bind_eq_some_iff.mp h
    obtain ⟨hguard, hstep⟩ := step_of_act hact
    exact .head ⟨action.1, hguard, hstep⟩ (ih hrest)

def twoSelf (t : Fin 2) : BitVec 32 := BitVec.ofNat 32 (t.val + 1)

def wokenRun : List (Fin 2 × Option Call) :=
  [(0, some .lock), (0, none), (0, none), (1, some .lock), (1, none), (1, none), (1, none), (1, none),
    (1, none), (0, some .unlock), (0, none), (0, none), (0, none)]

theorem wokenRun_no_lost_wake : ∃ σ : State (Fin 2), σ.Asleep 1 ∧ σ.mutex.lock = 0 ∧ NoLostWake σ := by
  have hend : (wokenRun.foldlM (State.act twoSelf fun σ t => Timely σ t) State.start).all
      (fun σ => (σ.thread 1).place = .lockAsleep ∧ σ.mutex.lock = 0) = true := by decide
  have hruns : (wokenRun.foldlM (State.act twoSelf fun σ t => Timely σ t) State.start).isSome = true := by
    decide
  obtain ⟨σ, hσ⟩ := Option.isSome_iff_exists.mp hruns
  rw [hσ, Option.all_some, decide_eq_true_iff] at hend
  have hrun : Relation.ReflTransGen (fun σ σ' => ∃ t, Timely σ t ∧ Step twoSelf t σ σ') State.start σ := by
    refine Relation.ReflTransGen.mono ?_ _ _ (run_of_acts hσ)
    rintro τ τ' ⟨t, htimely, hstep⟩
    exact ⟨t, of_decide_eq_true htimely, hstep⟩
  exact ⟨σ, hend.1, hend.2, no_lost_wake hrun⟩

/-- Thread 1 finds the word 0 when it wants to mark it and 1 when it waits, because thread 0 has
given the mutex back and taken it again. -/
def lostRun : List (Fin 2 × Option Call) :=
  [(0, some .lock), (0, none), (0, none), (1, some .lock), (1, none),
    (0, some .unlock), (0, none), (0, none), (0, none), (1, none),
    (0, some .lock), (0, none), (0, none), (1, none), (1, none), (1, none),
    (0, some .unlock), (0, none), (0, none), (0, none)]

theorem lostRun_end : ∃ σ : State (Fin 2), Reachable twoSelf σ ∧ σ.Asleep 1 ∧ σ.mutex.lock = 0 ∧
    (σ.thread 0).place = .outside := by
  have hend : (lostRun.foldlM (State.act twoSelf fun _ _ => true) State.start).all
      (fun σ => (σ.thread 1).place = .lockAsleep ∧ σ.mutex.lock = 0 ∧ (σ.thread 0).place = .outside) =
        true := by decide
  have hruns : (lostRun.foldlM (State.act twoSelf fun _ _ => true) State.start).isSome = true := by decide
  obtain ⟨σ, hσ⟩ := Option.isSome_iff_exists.mp hruns
  rw [hσ, Option.all_some, decide_eq_true_iff] at hend
  refine ⟨σ, Relation.ReflTransGen.mono ?_ _ _ (run_of_acts hσ), hend⟩
  rintro τ τ' ⟨t, -, hstep⟩
  exact ⟨t, hstep⟩

/-- Thread 1 sleeps on a free mutex, and thread 0 is outside. -/
theorem lostRun_lost_wake : ∃ σ : State (Fin 2), Reachable twoSelf σ ∧ ¬ NoLostWake σ := by
  obtain ⟨σ, hrun, hasleep, hzero, houtside⟩ := lostRun_end
  refine ⟨σ, hrun, fun h => ?_⟩
  obtain ⟨u, hne, hu⟩ := h 1 hasleep hzero
  match u with
  | 0 =>
    rw [houtside] at hu
    exact Bool.noConfusion hu
  | 1 => exact hne rfl

end TocinOS.Pthread

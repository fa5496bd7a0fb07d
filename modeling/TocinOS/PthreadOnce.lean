import TocinOS.PthreadWake

/-! `pthread_once`: a flag that is read without the mutex and written with it. -/

namespace TocinOS.Pthread

open Function

inductive OncePlace
  | outside
  | check
  | locking
  | recheck
  -- in the init routine
  | routine
  | store
  | unlocking
  | returned
  deriving DecidableEq

variable {ι : Type*} [DecidableEq ι]

/-- `pthread_once_t`, the threads, and how often the routine was started and came to its end. -/
structure OnceState (ι : Type*) where
  base : State ι
  place : ι → OncePlace
  done : Bool
  started : Nat
  finished : Nat

def OnceState.start : OnceState ι := ⟨State.start, fun _ => .outside, false, 0, 0⟩

def OnceState.goto (ω : OnceState ι) (t : ι) (place : OncePlace) : OnceState ι :=
  { ω with place := Function.update ω.place t place }

def OnceState.call (ω : OnceState ι) (t : ι) (c : Call) : OnceState ι :=
  { ω with base := ω.base.set t ((ω.base.thread t).goto c.entry) ω.base.mutex }

inductive OnceStep (pthreadSelf : ι → BitVec 32) (t : ι) (ω : OnceState ι) : OnceState ι → Prop
  | enter : ω.place t = .outside ∨ ω.place t = .returned → OnceStep pthreadSelf t ω (ω.goto t .check)
  | check : ω.place t = .check → OnceStep pthreadSelf t ω
      (if ω.done then ω.goto t .returned else (ω.call t .lock).goto t .locking)
  -- the calls of the mutex functions
  | mutex {σ : State ι} : Move pthreadSelf t ω.base σ → OnceStep pthreadSelf t ω { ω with base := σ }
  | locked : ω.place t = .locking → (ω.base.thread t).place = .outside →
      OnceStep pthreadSelf t ω (ω.goto t .recheck)
  | recheck : ω.place t = .recheck → OnceStep pthreadSelf t ω
      (if ω.done then (ω.call t .unlock).goto t .unlocking
      else { ω.goto t .routine with started := ω.started + 1 })
  | finish : ω.place t = .routine →
      OnceStep pthreadSelf t ω { ω.goto t .store with finished := ω.finished + 1 }
  | store : ω.place t = .store →
      OnceStep pthreadSelf t ω { (ω.call t .unlock).goto t .unlocking with done := true }
  | unlocked : ω.place t = .unlocking → (ω.base.thread t).place = .outside →
      OnceStep pthreadSelf t ω (ω.goto t .returned)

def OnceReachable (pthreadSelf : ι → BitVec 32) : OnceState ι → Prop :=
  Relation.ReflTransGen (fun ω ω' => ∃ t, OnceStep pthreadSelf t ω ω') OnceState.start

/-- The routine is started at most once, and a call that has returned came after its end. -/
structure OnceSound (ω : OnceState ι) : Prop where
  once : ω.started ≤ 1
  after : ∀ t, ω.place t = .returned → ω.started = 1 ∧ ω.finished = 1

/-! ### The invariant -/

def OncePlace.Fits : OncePlace → Thread → Prop
  | .outside, th | .check, th | .returned, th => th.place = .outside ∧ th.holds = false
  | .locking, th => th.Locking
  | .recheck, th | .routine, th | .store, th => th.place = .outside ∧ th.holds = true
  | .unlocking, th => th.Unlocking

structure Counts (place : ι → OncePlace) (done : Bool) (started finished : Nat) : Prop where
  before : done = false → (∀ t, place t ≠ .routine ∧ place t ≠ .store) → started = 0 ∧ finished = 0
  routine : ∀ t, place t = .routine → done = false ∧ started = 1 ∧ finished = 0
  store : ∀ t, place t = .store → done = false ∧ started = 1 ∧ finished = 1
  ended : done = true → started = 1 ∧ finished = 1
  returned : ∀ t, place t = .unlocking ∨ place t = .returned → done = true

structure OnceInv (pthreadSelf : ι → BitVec 32) (ω : OnceState ι) : Prop where
  held : ∃ o, HeldBy pthreadSelf ω.base o
  fits : ∀ t, (ω.place t).Fits (ω.base.thread t)
  counts : Counts ω.place ω.done ω.started ω.finished

variable {pthreadSelf : ι → BitVec 32} {ω ω' : OnceState ι} {t : ι}

omit [DecidableEq ι] in
theorem onceInv_start : OnceInv pthreadSelf (OnceState.start : OnceState ι) where
  held := ⟨none, heldBy_start⟩
  fits := fun _ => ⟨rfl, rfl⟩
  counts := ⟨fun _ _ => ⟨rfl, rfl⟩, nofun, nofun, nofun, fun _ h => h.elim nofun nofun⟩

variable {p : OncePlace}

theorem Counts.goto {place : ι → OncePlace} {done : Bool} {started finished : Nat}
    (h : Counts place done started finished) (hold : place t ≠ .routine ∧ place t ≠ .store)
    (hnew : p ≠ .routine ∧ p ≠ .store) (hreturned : p = .unlocking ∨ p = .returned → done = true) :
    Counts (update place t p) done started finished where
  before := fun hdone hall => h.before hdone fun u => by
    by_cases hu : u = t
    · rwa [hu]
    · have := hall u
      rwa [update_of_ne hu] at this
  routine := fun u => by
    by_cases hu : u = t
    · rw [hu, update_self]
      exact fun heq => absurd heq hnew.1
    · rw [update_of_ne hu]
      exact h.routine u
  store := fun u => by
    by_cases hu : u = t
    · rw [hu, update_self]
      exact fun heq => absurd heq hnew.2
    · rw [update_of_ne hu]
      exact h.store u
  ended := h.ended
  returned := fun u => by
    by_cases hu : u = t
    · rw [hu, update_self]
      exact hreturned
    · rw [update_of_ne hu]
      exact h.returned u

theorem Counts.alone {place : ι → OncePlace} {done : Bool} {started finished : Nat}
    (halone : ∀ u ≠ t, place u ≠ .routine ∧ place u ≠ .store)
    (hothers : ∀ u ≠ t, place u = .unlocking ∨ place u = .returned → done = true)
    (hcase : p = .routine ∧ done = false ∧ started = 1 ∧ finished = 0 ∨
      p = .store ∧ done = false ∧ started = 1 ∧ finished = 1 ∨
      p = .unlocking ∧ done = true ∧ started = 1 ∧ finished = 1) :
    Counts (update place t p) done started finished := by
  have hother {u : ι} (hu : u ≠ t) : update place t p u = place u := update_of_ne hu ..
  have hself : update place t p t = p := update_self ..
  refine ⟨fun hdone hall => ?_, fun u hu => ?_, fun u hu => ?_, fun hdone => ?_, fun u hu => ?_⟩
  · have := hall t
    rw [hself] at this
    rcases hcase with ⟨rfl, -⟩ | ⟨rfl, -⟩ | ⟨-, htrue, -⟩
    · exact absurd rfl this.1
    · exact absurd rfl this.2
    · exact Bool.noConfusion (hdone.symm.trans htrue)
  · by_cases hut : u = t
    · subst hut
      rw [hself] at hu
      subst hu
      simpa using hcase
    · exact absurd (hother hut ▸ hu) (halone u hut).1
  · by_cases hut : u = t
    · subst hut
      rw [hself] at hu
      subst hu
      simpa using hcase
    · exact absurd (hother hut ▸ hu) (halone u hut).2
  · rcases hcase with ⟨-, hfalse, -⟩ | ⟨-, hfalse, -⟩ | ⟨-, -, hcounts⟩
    · exact Bool.noConfusion (hfalse.symm.trans hdone)
    · exact Bool.noConfusion (hfalse.symm.trans hdone)
    · exact hcounts
  · by_cases hut : u = t
    · subst hut
      rw [hself] at hu
      rcases hcase with ⟨rfl, -⟩ | ⟨rfl, -⟩ | ⟨-, htrue, -⟩
      · exact hu.elim nofun nofun
      · exact hu.elim nofun nofun
      · exact htrue
    · rw [hother hut] at hu
      exact hothers u hut hu

omit [DecidableEq ι] in
theorem OnceInv.alone (h : OnceInv pthreadSelf ω) (ht : (ω.base.thread t).holds = true) {u : ι} (hu : u ≠ t) :
    ω.place u ≠ .routine ∧ ω.place u ≠ .store := by
  obtain ⟨o, ho⟩ := h.held
  have hnot : (ω.base.thread u).holds ≠ true := fun hholds =>
    hu (Option.some.inj (((ho.holds u).mp hholds).symm.trans ((ho.holds t).mp ht)))
  have hfits := h.fits u
  constructor
  · intro hplace
    rw [hplace] at hfits
    exact hnot hfits.2
  · intro hplace
    rw [hplace] at hfits
    exact hnot hfits.2

theorem fits_set (h : ∀ u, (ω.place u).Fits (ω.base.thread u)) {th : Thread} {m : Mutex}
    (hp : p.Fits th) (u : ι) :
    (update ω.place t p u).Fits ((ω.base.set t th m).thread u) := by
  by_cases hu : u = t
  · rwa [hu, update_self, State.set_self]
  · rw [update_of_ne hu, State.set_of_ne _ hu]
    exact h u

theorem fits_goto (h : ∀ u, (ω.place u).Fits (ω.base.thread u)) (hp : p.Fits (ω.base.thread t))
    (u : ι) : (update ω.place t p u).Fits (ω.base.thread u) := by
  by_cases hu : u = t
  · rwa [hu, update_self]
  · rw [update_of_ne hu]
    exact h u

theorem OnceInv.step (h : OnceInv pthreadSelf ω) (hself : ∀ t, pthreadSelf t ≠ 0)
    (hinj : Injective pthreadSelf) (hstep : OnceStep pthreadSelf t ω ω') :
    OnceInv pthreadSelf ω' := by
  obtain ⟨o, ho⟩ := h.held
  have hfits := h.fits t
  cases hstep with
  | enter hplace =>
    have hold : ω.place t ≠ .routine ∧ ω.place t ≠ .store := by
      rcases hplace with heq | heq <;> rw [heq] <;> exact ⟨nofun, nofun⟩
    have hout : OncePlace.check.Fits (ω.base.thread t) := by
      rcases hplace with heq | heq <;> rw [heq] at hfits <;> exact hfits
    exact ⟨⟨o, ho⟩, fits_goto h.fits hout, h.counts.goto hold ⟨nofun, nofun⟩ fun heq => heq.elim nofun nofun⟩
  | check hplace =>
    rw [hplace] at hfits
    have hold : ω.place t ≠ .routine ∧ ω.place t ≠ .store := by
      rw [hplace]
      exact ⟨nofun, nofun⟩
    split
    · next hdone =>
      exact ⟨⟨o, ho⟩, fits_goto h.fits hfits, h.counts.goto hold ⟨nofun, nofun⟩ fun _ => hdone⟩
    · refine ⟨ho.step hself hinj (.call .lock hfits.1), fits_set h.fits (.inl ⟨rfl, hfits.2⟩), ?_⟩
      exact h.counts.goto hold ⟨nofun, nofun⟩ fun heq => heq.elim nofun nofun
  | @mutex σ hmove =>
    refine ⟨ho.step hself hinj (.move hmove), fun u => ?_, h.counts⟩
    have hu := h.fits u
    have hstay (hplace : (ω.base.thread u).place = .outside) : σ.thread u = ω.base.thread u := by
      refine hmove.outside_of_ne ?_ hplace
      rintro rfl
      exact hmove.not_outside hplace
    dsimp only
    cases hplace : ω.place u with
    | outside | check | returned | recheck | routine | store =>
      rw [hplace] at hu
      rw [hstay hu.1]
      exact hu
    | locking =>
      rw [hplace] at hu
      exact hmove.locking hu
    | unlocking =>
      rw [hplace] at hu
      exact hmove.unlocking ho hu
  | locked hplace houtside =>
    rw [hplace] at hfits
    have hold : ω.place t ≠ .routine ∧ ω.place t ≠ .store := by
      rw [hplace]
      exact ⟨nofun, nofun⟩
    have hholds : (ω.base.thread t).holds = true := by
      rcases hfits with ⟨hin, -⟩ | ⟨-, hholds⟩
      · rw [houtside] at hin
        exact Bool.noConfusion hin
      · exact hholds
    exact ⟨⟨o, ho⟩, fits_goto h.fits ⟨houtside, hholds⟩,
      h.counts.goto hold ⟨nofun, nofun⟩ fun heq => heq.elim nofun nofun⟩
  | recheck hplace =>
    rw [hplace] at hfits
    have hold : ω.place t ≠ .routine ∧ ω.place t ≠ .store := by
      rw [hplace]
      exact ⟨nofun, nofun⟩
    have halone {u : ι} (hu : u ≠ t) := h.alone hfits.2 hu
    split
    · next hdone =>
      refine ⟨ho.step hself hinj (.call .unlock hfits.1), fits_set h.fits (.inl ⟨.inl rfl, hfits.2⟩), ?_⟩
      exact h.counts.goto hold ⟨nofun, nofun⟩ fun _ => hdone
    · next hdone =>
      have hfalse : ω.done = false := Bool.eq_false_iff.mpr hdone
      obtain ⟨hstarted, hfinished⟩ := h.counts.before hfalse fun u => by
        by_cases hu : u = t
        · rwa [hu]
        · exact halone hu
      refine ⟨⟨o, ho⟩, fits_goto h.fits hfits, ?_⟩
      refine Counts.alone (fun u => halone) (fun u _ hu => h.counts.returned u hu) (.inl ⟨rfl, hfalse, ?_, hfinished⟩)
      rw [hstarted]
  | finish hplace =>
    rw [hplace] at hfits
    obtain ⟨hdone, hstarted, hfinished⟩ := h.counts.routine t hplace
    refine ⟨⟨o, ho⟩, fits_goto h.fits hfits, ?_⟩
    refine Counts.alone (fun u => h.alone hfits.2) (fun u _ hu => h.counts.returned u hu)
      (.inr (.inl ⟨rfl, hdone, hstarted, ?_⟩))
    rw [hfinished]
  | store hplace =>
    rw [hplace] at hfits
    obtain ⟨-, hcounts⟩ := h.counts.store t hplace
    refine ⟨ho.step hself hinj (.call .unlock hfits.1), fits_set h.fits (.inl ⟨.inl rfl, hfits.2⟩), ?_⟩
    exact Counts.alone (fun u => h.alone hfits.2) (fun _ _ _ => rfl) (.inr (.inr ⟨rfl, rfl, hcounts⟩))
  | unlocked hplace houtside =>
    rw [hplace] at hfits
    have hold : ω.place t ≠ .routine ∧ ω.place t ≠ .store := by
      rw [hplace]
      exact ⟨nofun, nofun⟩
    have hholds : (ω.base.thread t).holds = false := by
      rcases hfits with ⟨heq | heq | heq, -⟩ | ⟨-, hholds⟩
      · exact nomatch houtside.symm.trans heq
      · exact nomatch houtside.symm.trans heq
      · exact nomatch houtside.symm.trans heq
      · exact hholds
    exact ⟨⟨o, ho⟩, fits_goto h.fits ⟨houtside, hholds⟩,
      h.counts.goto hold ⟨nofun, nofun⟩ fun _ => h.counts.returned t (.inl hplace)⟩

omit [DecidableEq ι] in
theorem OnceInv.sound (h : OnceInv pthreadSelf ω) : OnceSound ω := by
  refine ⟨?_, fun t ht => h.counts.ended (h.counts.returned t (.inr ht))⟩
  by_cases hdone : ω.done = true
  · rw [(h.counts.ended hdone).1]
  by_cases hall : ∀ t, ω.place t ≠ .routine ∧ ω.place t ≠ .store
  · rw [(h.counts.before (Bool.eq_false_iff.mpr hdone) hall).1]
    exact Nat.zero_le 1
  obtain ⟨t, ht⟩ := not_forall.mp hall
  by_cases hroutine : ω.place t = .routine
  · rw [(h.counts.routine t hroutine).2.1]
  · have hstore : ω.place t = .store := not_not.mp fun hne => ht ⟨hroutine, hne⟩
    rw [(h.counts.store t hstore).2.1]

/-! ### Exclusion -/

/-- At most one thread is between a successful lock and its unlock, and an unlock by another
thread returns `EINVAL` and changes nothing. -/
structure Exclusion (pthreadSelf : ι → BitVec 32) (σ : State ι) : Prop where
  one : ∀ t u, (σ.thread t).holds = true → (σ.thread u).holds = true → t = u
  reject : ∀ t, (σ.thread t).place = .unlockCheck → (σ.thread t).holds = false →
    ∀ σ', Step pthreadSelf t σ σ' → σ' = σ.set t ((σ.thread t).finish EINVAL) σ.mutex

theorem HeldBy.exclusion {σ : State ι} {o : Option ι} (h : HeldBy pthreadSelf σ o)
    (hself : ∀ t, pthreadSelf t ≠ 0) (hinj : Injective pthreadSelf) : Exclusion pthreadSelf σ := by
  constructor
  · intro t u ht hu
    exact Option.some.inj (((h.holds t).mp ht).symm.trans ((h.holds u).mp hu))
  · intro t hplace hholds σ' hstep
    have howner : σ.mutex.owner ≠ pthreadSelf t := fun heq =>
      Bool.noConfusion (hholds.symm.trans ((h.holds t).mpr (h.check hself hinj t heq)))
    cases hstep with
    | call c houtside => cases hplace.symm.trans houtside
    | move hmove =>
      cases hmove with
      | run hrun =>
        rw [Thread.step, hplace] at hrun
        cases hrun
        rw [if_pos howner]
      | wake hwake => cases hplace.symm.trans hwake
      | interrupt hasleep => cases hplace.symm.trans hasleep

theorem mutex_and_once (hself : ∀ t, pthreadSelf t ≠ 0) (hinj : Function.Injective pthreadSelf) :
    (∀ σ, Reachable pthreadSelf σ → Exclusion pthreadSelf σ) ∧
      ∀ ω, OnceReachable pthreadSelf ω → OnceSound ω := by
  constructor
  · intro σ h
    obtain ⟨o, ho⟩ := h.heldBy hself hinj
    exact ho.exclusion hself hinj
  · intro ω h
    have hinv : OnceInv pthreadSelf ω := by
      induction h with
      | refl => exact onceInv_start
      | tail _ hstep ih =>
        obtain ⟨t, hstep⟩ := hstep
        exact ih.step hself hinj hstep
    exact hinv.sound

/-- Thread 0 finds the flag unset, runs the routine with the mutex held and returns. -/
theorem onceRun_end : ∃ ω : OnceState (Fin 2), OnceReachable twoSelf ω ∧ ω.place 0 = .returned := by
  have hstep {ω ω' : OnceState (Fin 2)} (h : OnceReachable twoSelf ω) (hs : OnceStep twoSelf 0 ω ω') :
      OnceReachable twoSelf ω' := h.tail ⟨0, hs⟩
  have hlock := hstep (hstep .refl (.enter (.inl rfl))) (.check rfl)
  have hlocked := hstep (hstep (hstep hlock (.mutex (.run rfl))) (.mutex (.run rfl))) (.locked rfl rfl)
  have hstored := hstep (hstep (hstep hlocked (.recheck rfl)) (.finish rfl)) (.store rfl)
  have hunlocked := hstep (hstep (hstep hstored (.mutex (.run rfl))) (.mutex (.run rfl))) (.mutex (.run rfl))
  exact ⟨_, hstep hunlocked (.unlocked rfl rfl), rfl⟩

/-- The end of a run in which thread 1 waits, and of one in which thread 0 has returned. -/
theorem lostRun_mutex_and_once : (∃ σ : State (Fin 2), σ.Asleep 1 ∧ Exclusion twoSelf σ) ∧
    ∃ ω : OnceState (Fin 2), ω.place 0 = .returned ∧ OnceSound ω := by
  obtain ⟨σ, hrun, hasleep, -⟩ := lostRun_end
  obtain ⟨ω, honceRun, hreturned⟩ := onceRun_end
  have hself : ∀ t, twoSelf t ≠ 0 := by decide
  have hinj : Injective twoSelf := by
    unfold Injective
    decide
  obtain ⟨hmutex, honce⟩ := mutex_and_once hself hinj
  exact ⟨⟨σ, hasleep, hmutex σ hrun⟩, ω, hreturned, honce ω honceRun⟩

end TocinOS.Pthread

import TocinOS.Pthread

/-! Mutual exclusion and wake-ups of the mutex. -/

namespace TocinOS.Pthread

variable {ι : Type*} [DecidableEq ι] {pthreadSelf : ι → BitVec 32} {σ σ' : State ι} {t : ι} {o : Option ι}

/-! ### Exclusion -/

def Place.Inside : Place → Bool
  | .own | .unlockClear | .unlockXchg => true
  | _ => false

def Place.Unregistered : Place → Bool
  | .own | .unlockXchg => true
  | _ => false

structure HeldBy (pthreadSelf : ι → BitVec 32) (σ : State ι) (o : Option ι) : Prop where
  holds : ∀ t, (σ.thread t).holds = true ↔ o = some t
  free : σ.mutex.lock = 0 → o = none
  inside : ∀ t, (σ.thread t).place.Inside → o = some t
  owner : σ.mutex.owner = o.elim 0 fun t => if (σ.thread t).place.Unregistered then 0 else pthreadSelf t

omit [DecidableEq ι] in
theorem heldBy_start : HeldBy pthreadSelf (State.start : State ι) none where
  holds := fun _ => iff_of_false nofun nofun
  free := fun _ => rfl
  inside := fun _ h => Bool.noConfusion h
  owner := rfl

variable {th : Thread} {m : Mutex} {u : ι}

theorem HeldBy.keep (h : HeldBy pthreadSelf σ o) (hholds : th.holds = (σ.thread t).holds)
    (hinside : th.place.Inside → o = some t)
    (hreg : th.place.Unregistered = (σ.thread t).place.Unregistered)
    (howner : m.owner = σ.mutex.owner) (hlock : m.lock = 0 → σ.mutex.lock = 0) :
    HeldBy pthreadSelf (σ.set t th m) o where
  holds := fun u => by
    rw [← h.holds u]
    by_cases hu : u = t
    · rw [hu, State.set_self, hholds]
    · rw [State.set_of_ne _ hu]
  free := fun hzero => h.free (hlock hzero)
  inside := fun u => by
    by_cases hu : u = t
    · rw [hu, State.set_self]
      exact hinside
    · rw [State.set_of_ne _ hu]
      exact h.inside u
  owner := by
    rw [State.set_mutex, howner, h.owner]
    cases o with
    | none => rfl
    | some u =>
      dsimp only [Option.elim]
      by_cases hu : u = t
      · rw [hu, State.set_self, hreg]
      · rw [State.set_of_ne _ hu]

theorem HeldBy.goto (h : HeldBy pthreadSelf σ o) (hholds : th.holds = (σ.thread t).holds)
    (hplace : th.place.Inside = false) (hthere : (σ.thread t).place.Inside = false)
    (howner : m.owner = σ.mutex.owner) (hlock : m.lock = 0 → σ.mutex.lock = 0) :
    HeldBy pthreadSelf (σ.set t th m) o := by
  have hout {p : Place} (hp : p.Inside = false) : p.Unregistered = false := by
    cases p <;> first | rfl | exact Bool.noConfusion hp
  refine h.keep hholds (fun hin => ?_) ((hout hplace).trans (hout hthere).symm) howner hlock
  exact Bool.noConfusion (hplace.symm.trans hin)

theorem HeldBy.take (h : HeldBy pthreadSelf σ o) (hzero : σ.mutex.lock = 0) {word : BitVec 32}
    (hword : word ≠ 0) (htake : (σ.thread t).take σ.mutex word = (th, m)) :
    HeldBy pthreadSelf (σ.set t th m) (some t) := by
  cases htake
  obtain rfl := h.free hzero
  have howner := h.owner
  refine ⟨fun u => ?_, fun heq => absurd heq hword, fun u => ?_, ?_⟩
  · by_cases hu : u = t
    · rw [hu, State.set_self]
      exact iff_of_true rfl rfl
    · rw [State.set_of_ne _ hu, h.holds u]
      exact iff_of_false nofun fun heq => hu (Option.some.inj heq).symm
  · by_cases hu : u = t
    · exact fun _ => congrArg some hu.symm
    · rw [State.set_of_ne _ hu]
      exact fun hin => nomatch h.inside u hin
  · dsimp only [Option.elim]
    rw [State.set_self]
    exact howner

theorem HeldBy.setOwner (h : HeldBy pthreadSelf σ o) (hin : (σ.thread t).place.Inside)
    (hholds : th.holds = (σ.thread t).holds) (hlock : m.lock = σ.mutex.lock)
    (howner : m.owner = if th.place.Unregistered then 0 else pthreadSelf t) :
    HeldBy pthreadSelf (σ.set t th m) o := by
  have ho := h.inside t hin
  refine ⟨fun u => ?_, fun hzero => h.free (hlock ▸ hzero), fun u => ?_, ?_⟩
  · rw [← h.holds u]
    by_cases hu : u = t
    · rw [hu, State.set_self, hholds]
    · rw [State.set_of_ne _ hu]
  · by_cases hu : u = t
    · exact fun _ => hu ▸ ho
    · rw [State.set_of_ne _ hu]
      exact h.inside u
  · subst ho
    dsimp only [Option.elim]
    rw [State.set_self]
    exact howner

theorem HeldBy.release (h : HeldBy pthreadSelf σ o) (hplace : (σ.thread t).place = .unlockXchg)
    (hholds : th.holds = false) (hout : th.place.Inside = false) :
    HeldBy pthreadSelf (σ.set t th { σ.mutex with lock := 0 }) none := by
  have ho := h.inside t (by rw [hplace]; rfl)
  subst ho
  have howner := h.owner
  rw [Option.elim, hplace] at howner
  refine ⟨fun u => ?_, fun _ => rfl, fun u => ?_, howner⟩
  · by_cases hu : u = t
    · rw [hu, State.set_self, hholds]
      exact iff_of_false nofun nofun
    · rw [State.set_of_ne _ hu, h.holds u]
      exact iff_of_false (fun heq => hu (Option.some.inj heq).symm) nofun
  · by_cases hu : u = t
    · rw [hu, State.set_self, hout]
      exact Bool.noConfusion
    · rw [State.set_of_ne _ hu]
      exact fun hin => absurd (Option.some.inj (h.inside u hin)).symm hu

theorem HeldBy.wake (h : HeldBy pthreadSelf σ o) {woken : Finset ι} (hwoken : ∀ u ∈ woken, σ.Asleep u) :
    HeldBy pthreadSelf (σ.wake woken) o := by
  have hplace (u : ι) : ((σ.wake woken).thread u).place.Inside = (σ.thread u).place.Inside ∧
      ((σ.wake woken).thread u).place.Unregistered = (σ.thread u).place.Unregistered := by
    dsimp only [State.wake]
    split
    · next hu =>
      rw [show (σ.thread u).place = .lockAsleep from hwoken u hu]
      exact ⟨rfl, rfl⟩
    · exact ⟨rfl, rfl⟩
  refine ⟨fun u => ?_, h.free, fun u hin => h.inside u ((hplace u).1 ▸ hin), ?_⟩
  · rw [← h.holds u]
    dsimp only [State.wake]
    split <;> rfl
  · refine h.owner.trans ?_
    cases o with
    | none => rfl
    | some u =>
      dsimp only [Option.elim]
      rw [(hplace u).2]

omit [DecidableEq ι] in
theorem HeldBy.check (h : HeldBy pthreadSelf σ o) (hself : ∀ t, pthreadSelf t ≠ 0)
    (hinj : Function.Injective pthreadSelf) (t : ι) : σ.mutex.owner = pthreadSelf t → o = some t := by
  rw [h.owner]
  cases o with
  | none => exact fun heq => absurd heq.symm (hself t)
  | some u =>
    dsimp only [Option.elim]
    split
    · exact fun heq => absurd heq.symm (hself t)
    · exact fun heq => congrArg some (hinj heq)

theorem HeldBy.run (h : HeldBy pthreadSelf σ o) (hself : ∀ t, pthreadSelf t ≠ 0)
    (hinj : Function.Injective pthreadSelf)
    (hstep : (σ.thread t).step (pthreadSelf t) σ.mutex = some (th, m)) :
    ∃ o', HeldBy pthreadSelf (σ.set t th m) o' := by
  have hout {place : Place} (hplace : (σ.thread t).place = place) (hp : place.Inside = false) :
      (σ.thread t).place.Inside = false := hplace ▸ hp
  rw [Thread.step] at hstep
  cases hplace : (σ.thread t).place with
  | outside | lockAsleep | unlockWake =>
    rw [hplace] at hstep
    exact nomatch hstep
  | lockFast | lockTake expected | tryFast =>
    rw [hplace] at hstep
    replace hstep := Option.some.inj hstep
    split at hstep
    · next hzero => exact ⟨_, h.take hzero (by decide) hstep⟩
    · cases hstep
      refine ⟨o, ?_⟩
      exact h.goto rfl rfl (hout hplace rfl) rfl id
  | lockMark =>
    rw [hplace] at hstep
    replace hstep := Option.some.inj hstep
    split at hstep
    · cases hstep
      refine ⟨o, ?_⟩
      refine h.goto rfl rfl (hout hplace rfl) rfl fun hzero => ?_
      exact absurd (show (2 : BitVec 32) = 0 from hzero) (by decide)
    · cases hstep
      refine ⟨o, ?_⟩
      exact h.goto rfl rfl (hout hplace rfl) rfl id
  | lockAdd expected | lockSub =>
    rw [hplace] at hstep
    cases hstep
    refine ⟨o, ?_⟩
    exact h.goto rfl rfl (hout hplace rfl) rfl id
  | lockWait expected =>
    rw [hplace] at hstep
    cases hstep
    refine ⟨o, ?_⟩
    exact h.goto rfl (by split <;> rfl) (hout hplace rfl) rfl id
  | own | unlockClear =>
    rw [hplace] at hstep
    cases hstep
    refine ⟨o, ?_⟩
    have hin : (σ.thread t).place.Inside := by
      rw [hplace]
      rfl
    refine h.setOwner hin ?_ ?_ ?_ <;> rfl
  | unlockCheck =>
    rw [hplace] at hstep
    cases hstep
    refine ⟨o, ?_⟩
    split
    · exact h.goto rfl rfl (hout hplace rfl) rfl id
    · next howner =>
      exact h.keep rfl (fun _ => h.check hself hinj t (not_not.mp howner)) (by rw [hplace]; rfl) rfl id
  | unlockXchg =>
    rw [hplace] at hstep
    cases hstep
    exact ⟨none, h.release hplace (by split <;> rfl) (by split <;> rfl)⟩

theorem HeldBy.step (h : HeldBy pthreadSelf σ o) (hself : ∀ t, pthreadSelf t ≠ 0)
    (hinj : Function.Injective pthreadSelf) (hstep : Step pthreadSelf t σ σ') :
    ∃ o', HeldBy pthreadSelf σ' o' := by
  have hout {place : Place} (hplace : (σ.thread t).place = place) (hp : place.Inside = false) :
      (σ.thread t).place.Inside = false := hplace ▸ hp
  cases hstep with
  | call c hplace => exact ⟨o, h.goto rfl (by cases c <;> rfl) (hout hplace rfl) rfl id⟩
  | move hmove =>
    cases hmove with
    | run hrun => exact h.run hself hinj hrun
    | @wake woken hplace hwakes =>
      have hsame : (σ.wake woken).thread t = σ.thread t :=
        if_neg fun hmem => Place.noConfusion (hplace.symm.trans (hwakes.sleeping t hmem))
      have hwoken := h.wake hwakes.sleeping
      refine ⟨o, ?_⟩
      rw [← hsame]
      exact hwoken.goto rfl rfl (by rw [hsame, hplace]; rfl) rfl id
    | interrupt hasleep => exact ⟨o, h.goto rfl rfl (hout hasleep rfl) rfl id⟩

theorem Reachable.heldBy (hself : ∀ t, pthreadSelf t ≠ 0) (hinj : Function.Injective pthreadSelf)
    (h : Reachable pthreadSelf σ) : ∃ o, HeldBy pthreadSelf σ o := by
  induction h with
  | refl => exact ⟨none, heldBy_start⟩
  | tail _ hstep ih =>
    obtain ⟨t, hstep⟩ := hstep
    obtain ⟨o, ho⟩ := ih
    exact ho.step hself hinj hstep

/-! ### What a call has done -/

def Place.InLock : Place → Bool
  | .lockFast | .lockMark | .lockTake _ | .lockAdd _ | .lockWait _ | .lockAsleep | .lockSub => true
  | _ => false

def Thread.Locking (th : Thread) : Prop :=
  th.place.InLock = true ∧ th.holds = false ∨ (th.place = .own ∨ th.place = .outside) ∧ th.holds = true

def Thread.Unlocking (th : Thread) : Prop :=
  (th.place = .unlockCheck ∨ th.place = .unlockClear ∨ th.place = .unlockXchg) ∧ th.holds = true ∨
    (th.place = .unlockWake ∨ th.place = .outside) ∧ th.holds = false

theorem Move.of_ne (h : Move pthreadSelf t σ σ') (hu : u ≠ t) :
    σ'.thread u = σ.thread u ∨ σ.Asleep u ∧ σ'.thread u = (σ.thread u).goto .lockSub := by
  cases h with
  | run => exact .inl (State.set_of_ne _ hu ..)
  | @wake woken _ hwakes =>
    rw [State.set_of_ne _ hu]
    by_cases hmem : u ∈ woken
    · exact .inr ⟨hwakes.sleeping u hmem, if_pos hmem⟩
    · exact .inl (if_neg hmem)
  | interrupt => exact .inl (State.set_of_ne _ hu ..)

theorem Move.outside_of_ne (h : Move pthreadSelf t σ σ') (hu : u ≠ t)
    (hplace : (σ.thread u).place = .outside) : σ'.thread u = σ.thread u := by
  rcases h.of_ne hu with heq | ⟨hasleep, -⟩
  · exact heq
  · exact nomatch hplace.symm.trans hasleep

omit [DecidableEq ι] in
theorem locking_goto {th : Thread} {place : Place} (hp : place.InLock = true) (hth : th.Locking)
    (hthere : th.place.InLock = true) : (th.goto place).Locking := by
  refine .inl ⟨hp, ?_⟩
  rcases hth with hth | ⟨hplace | hplace, -⟩
  · exact hth.2
  · rw [hplace] at hthere
    exact Bool.noConfusion hthere
  · rw [hplace] at hthere
    exact Bool.noConfusion hthere

theorem Move.not_outside (h : Move pthreadSelf t σ σ') : (σ.thread t).place ≠ .outside := by
  intro hplace
  cases h with
  | run hstep =>
    rw [Thread.step, hplace] at hstep
    exact nomatch hstep
  | wake hwake => exact nomatch hplace.symm.trans hwake
  | interrupt hasleep => exact nomatch hplace.symm.trans hasleep

theorem Move.locking (h : Move pthreadSelf t σ σ') (hu : (σ.thread u).Locking) :
    (σ'.thread u).Locking := by
  by_cases hut : u = t
  swap
  · rcases h.of_ne hut with heq | ⟨hasleep, heq⟩ <;> rw [heq]
    · exact hu
    · exact locking_goto rfl hu (by rw [show (σ.thread u).place = .lockAsleep from hasleep]; rfl)
  subst hut
  cases h with
  | wake hplace =>
    rcases hu with ⟨hin, -⟩ | ⟨hplace' | hplace', -⟩
    · rw [hplace] at hin
      exact Bool.noConfusion hin
    · exact nomatch hplace.symm.trans hplace'
    · exact nomatch hplace.symm.trans hplace'
  | interrupt hasleep =>
    rw [State.set_self]
    exact locking_goto rfl hu (by rw [show (σ.thread u).place = .lockAsleep from hasleep]; rfl)
  | run hstep =>
    rw [State.set_self]
    have hlock {place : Place} (hplace : (σ.thread u).place = place) (hp : place.InLock = true) :
        (σ.thread u).place.InLock = true := hplace ▸ hp
    rw [Thread.step] at hstep
    rcases hu' : hu with ⟨hin, -⟩ | ⟨hplace | hplace, hholds⟩
    · cases hplace : (σ.thread u).place with
      | lockFast | lockTake expected =>
        rw [hplace] at hstep
        replace hstep := Option.some.inj hstep
        split at hstep
        · cases hstep
          exact .inr ⟨.inl rfl, rfl⟩
        · cases hstep
          exact locking_goto rfl hu (hlock hplace rfl)
      | lockMark =>
        rw [hplace] at hstep
        replace hstep := Option.some.inj hstep
        split at hstep
        · cases hstep
          exact locking_goto rfl hu (hlock hplace rfl)
        · cases hstep
          exact locking_goto rfl hu (hlock hplace rfl)
      | lockAdd expected | lockSub =>
        rw [hplace] at hstep
        cases hstep
        exact locking_goto rfl hu (hlock hplace rfl)
      | lockWait expected =>
        rw [hplace] at hstep
        cases hstep
        exact locking_goto (by split <;> rfl) hu (hlock hplace rfl)
      | lockAsleep =>
        rw [hplace] at hstep
        exact nomatch hstep
      | outside | own | tryFast | unlockCheck | unlockClear | unlockXchg | unlockWake =>
        rw [hplace] at hin
        exact Bool.noConfusion hin
    · rw [hplace] at hstep
      cases hstep
      exact .inr ⟨.inr rfl, hholds⟩
    · rw [hplace] at hstep
      exact nomatch hstep

theorem Move.unlocking (h : Move pthreadSelf t σ σ') (ho : HeldBy pthreadSelf σ o)
    (hu : (σ.thread u).Unlocking) : (σ'.thread u).Unlocking := by
  by_cases hut : u = t
  swap
  · rcases h.of_ne hut with heq | ⟨hasleep, -⟩
    · rwa [heq]
    · rcases hu with ⟨hplace | hplace | hplace, -⟩ | ⟨hplace | hplace, -⟩ <;>
        exact nomatch hplace.symm.trans hasleep
  subst hut
  rcases hu with ⟨hplace | hplace | hplace, hholds⟩ | ⟨hplace | hplace, hholds⟩
  · cases h with
    | run hstep =>
      have howner : σ.mutex.owner = pthreadSelf u := by
        rw [ho.owner, (ho.holds u).mp hholds, Option.elim, hplace]
        rfl
      rw [Thread.step, hplace] at hstep
      cases hstep
      rw [State.set_self, if_neg (not_not.mpr howner)]
      exact .inl ⟨.inr (.inl rfl), hholds⟩
    | wake hwake => exact nomatch hplace.symm.trans hwake
    | interrupt hasleep => exact nomatch hplace.symm.trans hasleep
  · cases h with
    | run hstep =>
      rw [Thread.step, hplace] at hstep
      cases hstep
      rw [State.set_self]
      exact .inl ⟨.inr (.inr rfl), hholds⟩
    | wake hwake => exact nomatch hplace.symm.trans hwake
    | interrupt hasleep => exact nomatch hplace.symm.trans hasleep
  · cases h with
    | run hstep =>
      rw [Thread.step, hplace] at hstep
      cases hstep
      rw [State.set_self]
      split
      · exact .inr ⟨.inr rfl, rfl⟩
      · exact .inr ⟨.inl rfl, rfl⟩
    | wake hwake => exact nomatch hplace.symm.trans hwake
    | interrupt hasleep => exact nomatch hplace.symm.trans hasleep
  · cases h with
    | run hstep =>
      rw [Thread.step, hplace] at hstep
      exact nomatch hstep
    | wake hwake =>
      rw [State.set_self]
      exact .inr ⟨.inr rfl, hholds⟩
    | interrupt hasleep => exact nomatch hplace.symm.trans hasleep
  · exact absurd hplace h.not_outside

end TocinOS.Pthread

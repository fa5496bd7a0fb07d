import TocinOS.SchedulerLists

/-! The invariant of the scheduler and what `scheduler_schedule` does to it. -/

namespace TocinOS.Scheduler

open Function (update)
open IntrusiveList (Bank)

/-! ### The invariant -/

def Task.Bounded (t : Task) : Prop :=
  t.priority ≤ maxNormalPriority ∧ t.staticPriority ≤ maxNormalPriority ∧
    t.effectivePriority ≤ maxNormalPriority

/-- `current` may be blocked, asleep or even exited when there was nothing else to run,
but it is never ready. -/
structure Inv (s : State) : Prop where
  lists : ∃ L, Lists s L
  current : ∀ c, s.current = some c → (s.taskPool c).state ≠ .ready
  exited : ∀ c, s.current = some c → s.taskBitmap c = false → (s.taskPool c).state ≠ .running
  bounded : ∀ t, s.taskBitmap t = true → (s.taskPool t).Bounded
  noIdle : s.idleTask = none

theorem schedulerInit_inv : Inv schedulerInit where
  lists := by
    refine ⟨fun _ => [], ⟨Bank.rep_empty, ?_, ?_, ?_⟩, ?_, ?_⟩
    · simp
    · simp
    · simp [schedulerInit, Bank.onLists]
    · simp [schedulerInit]
    · simp [schedulerInit]
  current := by simp [schedulerInit]
  exited := by simp [schedulerInit]
  bounded := by simp [schedulerInit]
  noIdle := rfl

variable {s : State} {f : Task → Task} {t : Nat}

theorem Inv.modify (h : Inv s) (t : Nat) (hstate : (f (s.taskPool t)).state = (s.taskPool t).state)
    (hpriority : (s.taskPool t).state = .ready →
      (f (s.taskPool t)).priority = (s.taskPool t).priority)
    (hbound : s.taskBitmap t = true → (f (s.taskPool t)).Bounded) : Inv (s.modify t f) := by
  have hpool : ∀ u, ((s.modify t f).taskPool u).state = (s.taskPool u).state := by
    intro u
    by_cases hu : u = t
    · subst hu
      simpa using hstate
    · simp [hu]
  obtain ⟨L, hL⟩ := h.lists
  constructor
  · refine ⟨L, hL.congr rfl rfl ?_ hL.live⟩
    intro u p
    by_cases hu : u = t
    · subst hu
      simp only [modify_taskBitmap, hpool]
      refine and_congr_right fun _ => and_congr_right fun hready => ?_
      rw [modify_taskPool, Function.update_self, hpriority hready]
    · simp [hu]
  · intro c hc
    rw [hpool]
    exact h.current c hc
  · intro c hc
    rw [hpool]
    exact h.exited c hc
  · intro u hu
    by_cases hut : u = t
    · subst hut
      simpa using hbound hu
    · simpa [hut] using h.bounded u hu
  · exact h.noIdle

theorem Inv.suspend (h : Inv s) {c : Nat} (hc : s.current = some c) (bitmap : Nat → Bool)
    (hbitmap : ∀ u, u ≠ c → bitmap u = s.taskBitmap u)
    (hkeep : bitmap c = true → s.taskBitmap c = true) (hready : (f (s.taskPool c)).state ≠ .ready)
    (hrunning : (f (s.taskPool c)).state ≠ .running)
    (hbound : (s.taskPool c).Bounded → (f (s.taskPool c)).Bounded) :
    Inv { s.modify c f with taskBitmap := bitmap } := by
  obtain ⟨L, hL⟩ := h.lists
  constructor
  · refine ⟨L, hL.congr rfl rfl ?_ ?_⟩
    · intro u p
      by_cases hu : u = c
      · subst hu
        simp [hready, h.current u hc]
      · simp [hu, hbitmap u hu]
    · intro u hu
      by_cases huc : u = c
      · subst huc
        exact hL.live u (hkeep hu)
      · exact hL.live u (hbitmap u huc ▸ hu)
  · intro c' hc'
    obtain rfl : c = c' := Option.some_inj.mp (hc.symm.trans hc')
    simpa using hready
  · intro c' hc' _
    obtain rfl : c = c' := Option.some_inj.mp (hc.symm.trans hc')
    simpa using hrunning
  · intro u hu
    by_cases huc : u = c
    · subst huc
      simpa using hbound (h.bounded u (hkeep hu))
    · simpa [huc] using h.bounded u (hbitmap u huc ▸ hu)
  · exact h.noIdle

theorem Inv.wake (h : Inv s) (hlive : s.taskBitmap t = true) (hcurrent : s.current ≠ some t)
    (hoff : (s.taskPool t).state ≠ .ready) (hready : (f (s.taskPool t)).state = .ready)
    (hp : 0 ≤ (f (s.taskPool t)).priority) (hbound : (f (s.taskPool t)).Bounded) :
    Inv (enqueueTask (s.modify t f) t) := by
  obtain ⟨L, hL⟩ := h.lists
  have hne : ∀ c, s.current = some c → c ≠ t := fun c hc e => hcurrent (e ▸ hc)
  constructor
  · exact hL.enqueue hlive hoff hready ⟨hp, hbound.1⟩
  · intro c hc
    have hc' : s.current = some c := by simpa using hc
    simpa [hne c hc'] using h.current c hc'
  · intro c hc
    have hc' : s.current = some c := by simpa using hc
    simpa [hne c hc'] using h.exited c hc'
  · intro u hu
    by_cases hut : u = t
    · subst hut
      simpa using hbound
    · have hu' : s.taskBitmap u = true := by simpa using hu
      simpa [hut] using h.bounded u hu'
  · simpa using h.noIdle

theorem Inv.requeue (h : Inv s) (hlive : s.taskBitmap t = true)
    (hready : (s.taskPool t).state = .ready) (hf : (f (s.taskPool t)).state = .ready)
    (hp : 0 ≤ (f (s.taskPool t)).priority) (hbound : (f (s.taskPool t)).Bounded) :
    Inv (requeueWith s t f) := by
  obtain ⟨L, hL⟩ := h.lists
  have hmem := (hL.mem_iff t _).mpr ⟨hlive, hready, rfl⟩
  have hne : ∀ c, s.current = some c → c ≠ t := fun c hc e => h.current c hc (e ▸ hready)
  constructor
  · exact hL.requeue hmem hf ⟨hp, hbound.1⟩
  · intro c hc
    have hc' : s.current = some c := by simpa [requeueWith] using hc
    simpa [requeueWith, hne c hc'] using h.current c hc'
  · intro c hc
    have hc' : s.current = some c := by simpa [requeueWith] using hc
    simpa [requeueWith, hne c hc'] using h.exited c hc'
  · intro u hu
    by_cases hut : u = t
    · subst hut
      simpa [requeueWith] using hbound
    · have hu' : s.taskBitmap u = true := by simpa [requeueWith] using hu
      simpa [requeueWith, hut] using h.bounded u hu'
  · simpa [requeueWith] using h.noIdle

/-! ### Scheduling -/

def ScheduleAllowed (s : State) : Prop :=
  s.schedulerEnabled = true → s.preemptionEnabled = true → ∀ c, s.current = some c →
    (s.taskPool c).state = .running → 0 ≤ (s.taskPool c).priority

/-- Between the two halves of `scheduler_schedule` the current task may be on a list. -/
structure Requeued (s s' : State) : Prop where
  lists : ∃ L, Lists s' L
  bounded : ∀ t, s'.taskBitmap t = true → (s'.taskPool t).Bounded
  noIdle : s'.idleTask = none
  /-- A task that is not ready now was left alone. -/
  same : ∀ t, (s'.taskPool t).state ≠ .ready → s'.taskPool t = s.taskPool t
  /-- With nothing to run the current task was not running, and nothing changed. -/
  nothing : firstReady s' = none → s' = s

theorem Inv.requeueCurrent (h : Inv s)
    (hallowed : ∀ c, s.current = some c → (s.taskPool c).state = .running →
      0 ≤ (s.taskPool c).priority) : Requeued s (requeueCurrent s) := by
  have hsame : Requeued s s := ⟨h.lists, h.bounded, h.noIdle, fun _ _ => rfl, fun _ => rfl⟩
  cases hc : s.current with
  | none =>
    rw [Scheduler.requeueCurrent, hc]
    exact hsame
  | some c =>
    by_cases hrun : (s.taskPool c).state = .running
    · have hlive : s.taskBitmap c = true := by
        by_contra hdead
        exact h.exited c hc (by simpa using hdead) hrun
      have hcall : Scheduler.requeueCurrent s = enqueueTask (s.setState c .ready) c := by
        simp [Scheduler.requeueCurrent, hc, hrun]
      obtain ⟨L, hL⟩ := h.lists
      obtain ⟨L', hL'⟩ := hL.enqueue (f := fun t => { t with state := .ready }) hlive
        (by simp [hrun]) rfl ⟨hallowed c hc hrun, (h.bounded c hlive).1⟩
      rw [hcall]
      refine ⟨⟨L', hL'⟩, ?_, ?_, ?_, ?_⟩
      · intro t ht
        by_cases htc : t = c
        · subst htc
          simpa [State.setState, Task.Bounded] using h.bounded t hlive
        · have ht' : s.taskBitmap t = true := by simpa [State.setState] using ht
          simpa [State.setState, htc] using h.bounded t ht'
      · simpa [State.setState] using h.noIdle
      · intro t ht
        have htc : t ≠ c := by
          rintro rfl
          simp [State.setState] at ht
        simp [State.setState, htc]
      · intro hnone
        refine absurd ?_ (firstReady_eq_none hL' hnone c (s.taskPool c).priority)
        exact (hL'.mem_iff c _).mpr (by simp [hlive])
    · have hcall : Scheduler.requeueCurrent s = s := by
        simp [Scheduler.requeueCurrent, hc, hrun]
      rw [hcall]
      exact hsame

theorem switchTo_inv {L : Int → List Nat} (hL : Lists s L)
    (hbound : ∀ t, s.taskBitmap t = true → (s.taskPool t).Bounded) (hidle : s.idleTask = none)
    {next : Nat} {p : Int} (hnext : next ∈ L p) : Inv (switchTo s next) := by
  obtain ⟨hlive, hready, -⟩ := (hL.mem_iff next p).mp hnext
  have hcall : switchTo s next = { (dequeueTask s next).modify next fun t =>
      { t with state := .running, timeSlice := calculateTimeSlice t } with
        current := some next } := by
    simp [switchTo, hready]
  rw [hcall]
  obtain ⟨L', hL'⟩ := hL.dequeue (f := fun t =>
    { t with state := .running, timeSlice := calculateTimeSlice t }) hnext (by simp)
  constructor
  · exact ⟨L', hL'.congr rfl rfl (fun _ _ => Iff.rfl) hL'.live⟩
  · intro c hc
    obtain rfl : next = c := Option.some_inj.mp hc
    simp
  · intro c hc hdead
    obtain rfl : next = c := Option.some_inj.mp hc
    simp [hlive] at hdead
  · intro t ht
    by_cases htn : t = next
    · subst htn
      simpa [Task.Bounded] using hbound t hlive
    · have ht' : s.taskBitmap t = true := by simpa using ht
      simpa [htn] using hbound t ht'
  · simpa using hidle

theorem schedulerSchedule_of_off (h : ¬ (s.schedulerEnabled = true ∧ s.preemptionEnabled = true)) :
    schedulerSchedule s = s := by
  apply if_pos
  cases he : s.schedulerEnabled <;> cases hp : s.preemptionEnabled <;> simp_all

theorem schedulerSchedule_of_on (he : s.schedulerEnabled = true) (hp : s.preemptionEnabled = true)
    (hidle : (requeueCurrent s).idleTask = none) :
    schedulerSchedule s = match firstReady (requeueCurrent s) with
      | none => requeueCurrent s
      | some next => switchTo (requeueCurrent s) next := by
  simp only [schedulerSchedule, he, hp, pickNextTask, hidle, Option.or_none]
  rfl

theorem Inv.schedule (h : Inv s) (hallowed : ScheduleAllowed s) : Inv (schedulerSchedule s) := by
  by_cases hon : s.schedulerEnabled = true ∧ s.preemptionEnabled = true
  · have hre := h.requeueCurrent (hallowed hon.1 hon.2)
    rw [schedulerSchedule_of_on hon.1 hon.2 hre.noIdle]
    cases hnext : firstReady (Scheduler.requeueCurrent s) with
    | none =>
      dsimp only
      rw [hre.nothing hnext]
      exact h
    | some next =>
      obtain ⟨L, hL⟩ := hre.lists
      obtain ⟨p, hp⟩ := firstReady_mem hL hnext
      exact switchTo_inv hL hre.bounded hre.noIdle hp
  · rw [schedulerSchedule_of_off hon]
    exact h

theorem switchTo_of_ne (s : State) {next : Nat} (h : t ≠ next) :
    (switchTo s next).taskPool t = s.taskPool t := by
  simp only [switchTo]
  split <;> simp [h]

@[simp] theorem schedulerSchedule_taskBitmap (s : State) :
    (schedulerSchedule s).taskBitmap = s.taskBitmap := by
  have hre : (requeueCurrent s).taskBitmap = s.taskBitmap := by
    unfold requeueCurrent
    split
    · split <;> simp [State.setState]
    · rfl
  have hswitch : ∀ next, (switchTo (requeueCurrent s) next).taskBitmap = s.taskBitmap := by
    intro next
    simp only [switchTo]
    split <;> simp [hre]
  unfold schedulerSchedule
  split
  · rfl
  · dsimp only
    split
    · exact hre
    · exact hswitch _

/-- A task found asleep after scheduling was not touched, and it is current only if there
was nothing to switch to. -/
theorem Inv.schedule_sleeping (h : Inv s) (hallowed : ScheduleAllowed s)
    (ht : ((schedulerSchedule s).taskPool t).state = .sleeping) :
    (schedulerSchedule s).taskPool t = s.taskPool t ∧
      ((schedulerSchedule s).current = some t → s.current = some t ∧
        (s.schedulerEnabled = true → s.preemptionEnabled = true → firstReady s = none)) := by
  by_cases hon : s.schedulerEnabled = true ∧ s.preemptionEnabled = true
  · have hre := h.requeueCurrent (hallowed hon.1 hon.2)
    rw [schedulerSchedule_of_on hon.1 hon.2 hre.noIdle] at ht ⊢
    cases hnext : firstReady (Scheduler.requeueCurrent s) with
    | none =>
      dsimp only
      have hs := hre.nothing hnext
      rw [hs] at hnext ⊢
      exact ⟨rfl, fun hc => ⟨hc, fun _ _ => hnext⟩⟩
    | some next =>
      rw [hnext] at ht
      dsimp only at ht ⊢
      have hne : t ≠ next := by
        rintro rfl
        simp [switchTo] at ht
      rw [switchTo_of_ne _ hne] at ht ⊢
      refine ⟨hre.same t (by simp [ht]), fun hc => ?_⟩
      exact absurd (Option.some_inj.mp hc) (Ne.symm hne)
  · rw [schedulerSchedule_of_off hon]
    exact ⟨rfl, fun hc => ⟨hc, fun he hp => absurd ⟨he, hp⟩ hon⟩⟩

end TocinOS.Scheduler

import TocinOS.SchedulerCalls

/-! Sleeping and blocked tasks over one timer tick. The scan for sleepers comes after the
handling of the time slice and is reached on some of its paths only. -/

namespace TocinOS.Scheduler

open Function

def Overdue (s : State) (now t : Nat) : Prop :=
  t < maxTasks ∧ s.taskBitmap t = true ∧ (s.taskPool t).state = .sleeping ∧
    (s.taskPool t).sleepUntil ≤ now

instance (s : State) (now t : Nat) : Decidable (Overdue s now t) :=
  inferInstanceAs (Decidable (_ ∧ _))

structure WakesDue (s s' : State) (now : Nat) : Prop where
  due : ∀ t, ¬Overdue s' now t
  early : ∀ t, (s.taskPool t).state = .sleeping → now < (s.taskPool t).sleepUntil →
    (s'.taskPool t).state = .sleeping ∧ (s'.taskPool t).sleepUntil = (s.taskPool t).sleepUntil

structure NoSleeperQueued (s : State) : Prop where
  heads : ∀ p t, s.links.head p = some t → (s.taskPool t).state ≠ .sleeping
  idle : ∀ t, s.idleTask = some t → (s.taskPool t).state ≠ .sleeping

/-- The ready lists hold ready tasks, and there is no idle task. -/
theorem Inv.noSleeperQueued {s : State} (h : Inv s) : NoSleeperQueued s := by
  obtain ⟨L, hL⟩ := h.lists
  constructor
  · intro p t hhead
    rw [hL.queues.rep.head p] at hhead
    have hready := ((hL.mem_iff t p).mp (List.mem_of_mem_head? hhead)).2.1
    simp [hready]
  · intro t ht
    rw [h.noIdle] at ht
    cases ht

/-! ### The scan for sleepers -/

def Task.woken (t : Task) : Task := { t with state := .ready, sleepUntil := 0 }

variable {s : State}

theorem wakeIfDue_taskPool {now : Nat → Nat} {task : Nat} (htask : task < maxTasks) (t : Nat) :
    (wakeIfDue now s task).taskPool t =
      if t = task ∧ Overdue s (now t) t then (s.taskPool t).woken else s.taskPool t := by
  unfold wakeIfDue
  by_cases hdue : s.taskBitmap task = true ∧ (s.taskPool task).state = .sleeping ∧
      (s.taskPool task).sleepUntil ≤ now task
  · rw [if_pos hdue, taskWakeup, getTask_of_live htask hdue.1]
    simp only [hdue.2.1, ne_eq, not_true_eq_false, if_false, enqueueTask_taskPool, modify_taskPool]
    by_cases ht : t = task
    · subst ht
      rw [update_self, if_pos ⟨rfl, htask, hdue⟩]
      rfl
    · rw [update_of_ne ht, if_neg fun h => ht h.1]
  · rw [if_neg hdue, if_neg]
    rintro ⟨rfl, -, hover⟩
    exact hdue hover

theorem wakeIfDue_taskBitmap (now : Nat → Nat) (s : State) (task : Nat) :
    (wakeIfDue now s task).taskBitmap = s.taskBitmap := by
  unfold wakeIfDue taskWakeup
  split_ifs
  · split
    · rfl
    · split_ifs <;> simp
  · rfl

theorem foldl_wakeIfDue {now : Nat → Nat} {l : List Nat} (hlt : ∀ t ∈ l, t < maxTasks) (s : State) :
    (l.foldl (wakeIfDue now) s).taskBitmap = s.taskBitmap ∧
      ∀ t, ((t ∈ l ∧ Overdue s (now t) t) → (l.foldl (wakeIfDue now) s).taskPool t = (s.taskPool t).woken) ∧
        (¬(t ∈ l ∧ Overdue s (now t) t) → (l.foldl (wakeIfDue now) s).taskPool t = s.taskPool t) := by
  induction l generalizing s with
  | nil => simp
  | cons task l ih =>
    obtain ⟨hbitmap, hpool⟩ := ih (fun t ht => hlt t (List.mem_cons_of_mem _ ht)) (wakeIfDue now s task)
    have hstep := @wakeIfDue_taskPool s now task (hlt task List.mem_cons_self)
    refine ⟨hbitmap.trans (wakeIfDue_taskBitmap now s task), fun t => ?_⟩
    obtain ⟨hwoken, hsame⟩ := hpool t
    simp only [List.foldl_cons, List.mem_cons]
    by_cases hnow : t = task ∧ Overdue s (now t) t
    · -- The task is awake once its own round is over.
      have hself : (wakeIfDue now s task).taskPool t = (s.taskPool t).woken := (hstep t).trans (if_pos hnow)
      have hnot : ¬Overdue (wakeIfDue now s task) (now t) t := fun h => by
        have hstate := h.2.2.1
        rw [hself] at hstate
        exact TaskState.noConfusion hstate
      rw [hsame fun h => hnot h.2, hself]
      exact ⟨fun _ => rfl, fun h => absurd ⟨.inl hnow.1, hnow.2⟩ h⟩
    · have hself : (wakeIfDue now s task).taskPool t = s.taskPool t := (hstep t).trans (if_neg hnow)
      have hover : Overdue (wakeIfDue now s task) (now t) t ↔ Overdue s (now t) t := by
        rw [Overdue, Overdue, hself, wakeIfDue_taskBitmap]
      rw [hover, hself] at hwoken
      rw [hover, hself] at hsame
      refine ⟨fun ⟨hmem, hdue⟩ => ?_, fun h => ?_⟩
      · exact hwoken ⟨hmem.resolve_left fun heq => hnow ⟨heq, hdue⟩, hdue⟩
      · exact hsame fun ⟨hmem, hdue⟩ => h ⟨.inr hmem, hdue⟩

theorem wakeSleepers_wakes (s : State) (now : Nat) : WakesDue s (wakeSleepers (fun _ => now) s) now := by
  obtain ⟨hbitmap, hpool⟩ := @foldl_wakeIfDue (fun _ => now) (List.range maxTasks)
    (fun t ht => List.mem_range.mp ht) s
  refine ⟨fun t hover => ?_, fun t hsleep hlater => ?_⟩
  · obtain ⟨hwoken, hsame⟩ := hpool t
    by_cases hdue : Overdue s now t
    · have hstate := hover.2.2.1
      rw [wakeSleepers, hwoken ⟨List.mem_range.mpr hover.1, hdue⟩] at hstate
      exact TaskState.noConfusion hstate
    · rw [Overdue, wakeSleepers, hbitmap, hsame fun h => hdue h.2] at hover
      exact hdue hover
  · rw [wakeSleepers, (hpool t).2 fun h => by have := h.2.2.2.2; omega]
    exact ⟨hsleep, rfl⟩

/-! ### The slice of the current task -/

theorem requeueCurrent_head (s : State) (p : Int) {t : Nat}
    (ht : (requeueCurrent s).links.head p = some t) :
    s.links.head p = some t ∨ s.current = some t ∧ (s.taskPool t).state = .running := by
  unfold requeueCurrent at ht
  split at ht
  · rename_i prev hprev
    split_ifs at ht with hrun
    · simp only [enqueueTask] at ht
      split_ifs at ht
      · exact .inl ht
      · simp only [IntrusiveList.Bank.pushFront_eq] at ht
        by_cases hp : p = ((s.setState prev .ready).taskPool prev).priority
        · subst hp
          rw [update_self] at ht
          obtain rfl := Option.some_inj.mp ht
          exact .inr ⟨hprev, hrun⟩
        · rw [update_of_ne hp] at ht
          exact .inl ht
    · exact .inl ht
  · exact .inl ht

theorem requeueCurrent_taskPool (s : State) (t : Nat) :
    (requeueCurrent s).taskPool t = s.taskPool t ∨
      (s.taskPool t).state = .running ∧ ((requeueCurrent s).taskPool t).state = .ready := by
  unfold requeueCurrent
  split
  · rename_i prev hprev
    split_ifs with hrun
    · by_cases ht : t = prev
      · subst ht
        exact .inr ⟨hrun, by simp [State.setState]⟩
      · exact .inl (by simp [State.setState, ht])
    · exact .inl rfl
  · exact .inl rfl

@[simp] theorem requeueCurrent_idleTask (s : State) : (requeueCurrent s).idleTask = s.idleTask := by
  unfold requeueCurrent
  split
  · split_ifs
    · simp [State.setState]
    · rfl
  · rfl

theorem schedulerSchedule_taskPool (s : State) (t : Nat) :
    (schedulerSchedule s).taskPool t = s.taskPool t ∨
      (s.taskPool t).state = .running ∧ ((schedulerSchedule s).taskPool t).state = .ready ∨
      ((schedulerSchedule s).taskPool t).state = .running ∧
        ((∃ p, (requeueCurrent s).links.head p = some t) ∨ s.idleTask = some t) := by
  unfold schedulerSchedule
  split_ifs
  · exact .inl rfl
  · cases hpick : pickNextTask (requeueCurrent s) with
    | none =>
      dsimp only
      rw [hpick]
      exact (requeueCurrent_taskPool s t).imp_right .inl
    | some next =>
      dsimp only
      rw [hpick]
      by_cases ht : t = next
      · subst ht
        refine .inr (.inr ⟨by simp [switchTo], ?_⟩)
        rw [pickNextTask, requeueCurrent_idleTask, Option.or_eq_some_iff] at hpick
        rcases hpick with hfirst | ⟨-, hidle⟩
        · obtain ⟨i, -, hi⟩ := List.exists_of_findSome?_eq_some hfirst
          exact .inl ⟨i, hi⟩
        · exact .inr hidle
      · simp only [switchTo_of_ne _ ht]
        exact (requeueCurrent_taskPool s t).imp_right .inl

theorem NoSleeperQueued.schedule (h : NoSleeperQueued s) {t : Nat}
    (ht : (s.taskPool t).state = .sleeping ∨ ((schedulerSchedule s).taskPool t).state = .sleeping) :
    (schedulerSchedule s).taskPool t = s.taskPool t := by
  rcases schedulerSchedule_taskPool s t with hsame | ⟨hbefore, hafter⟩ | ⟨hafter, hpicked⟩
  · exact hsame
  · simp [hbefore, hafter] at ht
  · have hsleep : (s.taskPool t).state = .sleeping := ht.resolve_right (by simp [hafter])
    rcases hpicked with ⟨p, hhead⟩ | hidle
    · rcases requeueCurrent_head s p hhead with hhead | ⟨-, hrun⟩
      · exact absurd hsleep (h.heads p t hhead)
      · simp [hsleep] at hrun
    · exact absurd hsleep (h.idle t hidle)

theorem WakesDue.of_sleepers {s₀ s' : State} {now : Nat} (h : WakesDue s s' now)
    (hsleep : ∀ t, (s₀.taskPool t).state = .sleeping →
      (s.taskPool t).state = .sleeping ∧ (s.taskPool t).sleepUntil = (s₀.taskPool t).sleepUntil) :
    WakesDue s₀ s' now := by
  refine ⟨h.due, fun t ht hlater => ?_⟩
  obtain ⟨hstate, huntil⟩ := hsleep t ht
  obtain ⟨hstate', huntil'⟩ := h.early t hstate (huntil ▸ hlater)
  exact ⟨hstate', huntil'.trans huntil⟩

/-- The tick runs the scan: there is a current task, and it is no FIFO task at the end of its
slice. -/
def ReachesScan (s : State) : Prop :=
  ∃ c, s.current = some c ∧ ¬((s.taskPool c).policy = .fifo ∧ (s.taskPool c).timeSlice ≤ 1)

def countDown (s : State) (c : Nat) : State := s.modify c fun t => { t with timeSlice := t.timeSlice - 1 }

theorem modify_timeSlice (s : State) (c : Nat) (f : Task → Nat) (t : Nat) :
    ∃ n, (s.modify c fun t => { t with timeSlice := f t }).taskPool t =
      { s.taskPool t with timeSlice := n } := by
  by_cases ht : t = c
  · subst ht
    exact ⟨f (s.taskPool t), by simp⟩
  · exact ⟨(s.taskPool t).timeSlice, by simp [ht]⟩

theorem countDown_taskPool (s : State) (c t : Nat) :
    ∃ n, (countDown s c).taskPool t = { s.taskPool t with timeSlice := n } :=
  modify_timeSlice s c (fun t => t.timeSlice - 1) t

theorem NoSleeperQueued.countDown (h : NoSleeperQueued s) (c : Nat) :
    NoSleeperQueued (countDown s c) := by
  refine ⟨fun p t ht => ?_, fun t ht => ?_⟩
  · obtain ⟨n, hn⟩ := countDown_taskPool s c t
    rw [hn]
    exact h.heads p t ht
  · obtain ⟨n, hn⟩ := countDown_taskPool s c t
    rw [hn]
    exact h.idle t ht

theorem schedulerTick_of_scan (henabled : s.schedulerEnabled = true) {c : Nat}
    (hc : s.current = some c)
    (hscan : ¬((s.taskPool c).policy = .fifo ∧ (s.taskPool c).timeSlice ≤ 1)) (now : Nat → Nat) :
    schedulerTick s now = wakeSleepers now (schedulerSchedule (countDown s c)) ∨
      schedulerTick s now = wakeSleepers now (countDown s c) := by
  have hpolicy : ((countDown s c).taskPool c).policy = (s.taskPool c).policy := by simp [countDown]
  have hslice : ((countDown s c).taskPool c).timeSlice = (s.taskPool c).timeSlice - 1 := by
    simp [countDown]
  simp only [schedulerTick, henabled, hc]
  rw [if_neg (by simp)]
  change (if ((Scheduler.countDown s c).taskPool c).timeSlice = 0 then _ else _) = _ ∨
    (if ((Scheduler.countDown s c).taskPool c).timeSlice = 0 then _ else _) = _
  rw [hslice]
  split_ifs with hend hfifo
  · exact absurd ⟨hpolicy.symm.trans hfifo, by omega⟩ hscan
  · exact .inl rfl
  · exact .inr rfl

theorem schedulerTick_of_not_scan (henabled : s.schedulerEnabled = true) (hscan : ¬ReachesScan s)
    (now : Nat → Nat) (t : Nat) : (schedulerTick s now).taskBitmap = s.taskBitmap ∧
      ∃ n, (schedulerTick s now).taskPool t = { s.taskPool t with timeSlice := n } := by
  cases hc : s.current with
  | none =>
    simp only [schedulerTick, henabled, hc]
    exact ⟨rfl, _, rfl⟩
  | some c =>
    have hfifo : (s.taskPool c).policy = .fifo ∧ (s.taskPool c).timeSlice ≤ 1 := by
      by_contra hnot
      exact hscan ⟨c, hc, hnot⟩
    have htick : schedulerTick s now =
        (countDown s c).modify c fun t => { t with timeSlice := calculateTimeSlice t } := by
      simp only [schedulerTick, henabled, hc]
      rw [if_neg (by simp), if_pos, if_pos]
      · rfl
      · simpa using hfifo.1
      · have := hfifo.2
        simp only [modify_taskPool, update_self]
        omega
    obtain ⟨n, hn⟩ := modify_timeSlice (countDown s c) c calculateTimeSlice t
    obtain ⟨m, hm⟩ := countDown_taskPool s c t
    rw [htick, hn, hm]
    exact ⟨rfl, n, rfl⟩

/-- A tick wakes exactly the tasks that are due, unless it ends before the scan while a task is
overdue. -/
theorem tick_wakes_due_iff {s : State} (hqueued : NoSleeperQueued s)
    (henabled : s.schedulerEnabled = true) (now : Nat) :
    WakesDue s (schedulerTick s fun _ => now) now ↔ ReachesScan s ∨ ∀ t, ¬Overdue s now t := by
  constructor
  · intro hwakes
    by_contra hnot
    obtain ⟨hscan, hdue⟩ := not_or.mp hnot
    obtain ⟨t, hover⟩ := not_forall_not.mp hdue
    obtain ⟨hbitmap, n, hpool⟩ := schedulerTick_of_not_scan henabled hscan (fun _ => now) t
    apply hwakes.due t
    rw [Overdue, hbitmap, hpool]
    exact hover
  · intro hor
    by_cases hscan : ReachesScan s
    · obtain ⟨c, hc, hnot⟩ := hscan
      have hcount (t : Nat) (ht : (s.taskPool t).state = .sleeping) :
          ((countDown s c).taskPool t).state = .sleeping ∧
            ((countDown s c).taskPool t).sleepUntil = (s.taskPool t).sleepUntil := by
        obtain ⟨n, hn⟩ := countDown_taskPool s c t
        rw [hn]
        exact ⟨ht, rfl⟩
      rcases schedulerTick_of_scan henabled hc hnot fun _ => now with htick | htick
      · rw [htick]
        refine (wakeSleepers_wakes _ now).of_sleepers fun t ht => ?_
        rw [(hqueued.countDown c).schedule (.inl (hcount t ht).1)]
        exact hcount t ht
      · rw [htick]
        exact (wakeSleepers_wakes _ now).of_sleepers hcount
    · have hdue := hor.resolve_left hscan
      refine ⟨fun t => ?_, fun t ht hlater => ?_⟩
      · obtain ⟨hbitmap, n, hpool⟩ := schedulerTick_of_not_scan henabled hscan (fun _ => now) t
        rw [Overdue, hbitmap, hpool]
        exact hdue t
      · obtain ⟨-, n, hpool⟩ := schedulerTick_of_not_scan henabled hscan (fun _ => now) t
        rw [hpool]
        exact ⟨ht, rfl⟩

def oneSleeper (policy : SchedPolicy) : State where
  taskPool t :=
    if t = 0 then { policy, state := .running, priority := 50, timeSlice := 1 }
    else if t = 1 then { state := .sleeping, priority := 10, sleepUntil := 1000 }
    else {}
  taskBitmap t := t < 2
  current := some 0
  schedulerEnabled := true

theorem oneSleeper_noSleeperQueued (policy : SchedPolicy) : NoSleeperQueued (oneSleeper policy) :=
  ⟨nofun, nofun⟩

theorem round_robin_tick_wakes : WakesDue (oneSleeper .rr) (schedulerTick (oneSleeper .rr) fun _ => 1000) 1000 :=
  (tick_wakes_due_iff (oneSleeper_noSleeperQueued .rr) rfl 1000).mpr (.inl ⟨0, rfl, by decide⟩)

/-- The tick at which the sleeper is due renews the slice of a FIFO task and returns. -/
theorem fifo_tick_misses_sleeper : NoSleeperQueued (oneSleeper .fifo) ∧
    (oneSleeper .fifo).schedulerEnabled = true ∧
    ¬WakesDue (oneSleeper .fifo) (schedulerTick (oneSleeper .fifo) fun _ => 1000) 1000 := by
  refine ⟨oneSleeper_noSleeperQueued .fifo, rfl, fun h => h.due 1 ?_⟩
  decide

end TocinOS.Scheduler

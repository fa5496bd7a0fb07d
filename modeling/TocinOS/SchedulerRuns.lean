import TocinOS.SchedulerCalls

/-! Runs of the scheduler. The lists agree with the task states as long as no call
queues the current task or a task whose priority is no index of the array, and no
ready task changes its priority behind the back of its list. -/

namespace TocinOS.Scheduler

open IntrusiveList (Bank)
open IntrusiveList.Bank (onLists)

inductive Call where
  | create (policy : SchedPolicy) (priority : Int) (page : Nat)
  | start
  | schedule
  | tick (now : Nat → Nat)
  | block (resource : Int)
  | unblock (taskId : Int)
  | sleep (ticks now : Nat)
  | wakeup (taskId : Int)
  | exit
  | setPriority (taskId priority : Int)
  | piBoost (taskId priority : Int)
  | piDeboost (taskId : Int)
  | enablePreemption
  | disablePreemption

def exec (s : State) : Call → State
  | .create policy priority page => (taskCreateEx s policy priority page).2
  | .start => schedulerStart s
  | .schedule => schedulerSchedule s
  | .tick now => schedulerTick s now
  | .block resource => taskBlock s resource
  | .unblock taskId => taskUnblock s taskId
  | .sleep ticks now => taskSleep s ticks now
  | .wakeup taskId => taskWakeup s taskId
  | .exit => taskExit s
  | .setPriority taskId priority => (taskSetPriority s taskId priority).2
  | .piBoost taskId priority => taskPiBoost s taskId priority
  | .piDeboost taskId => taskPiDeboost s taskId
  | .enablePreemption => schedulerEnablePreemption s
  | .disablePreemption => schedulerDisablePreemption s

def Allowed (s : State) : Call → Prop
  | .create _ priority page => ∀ t, allocTaskId s = some t → page ≠ 0 →
      s.current ≠ some t ∧ 0 ≤ priority ∧ priority ≤ maxNormalPriority
  | .start => s.schedulerEnabled = false → ScheduleAllowed { s with schedulerEnabled := true }
  | .schedule => ScheduleAllowed s
  | .tick now => TickAllowed s now
  | .unblock taskId => ∀ t, getTask s taskId = some t → (s.taskPool t).state = .blocked →
      s.current ≠ some t ∧ 0 ≤ (s.taskPool t).priority
  | .wakeup taskId => ∀ t, getTask s taskId = some t → (s.taskPool t).state = .sleeping →
      s.current ≠ some t ∧ 0 ≤ (s.taskPool t).priority
  | .setPriority taskId priority => ∀ t, getTask s taskId = some t →
      priority ≤ maxNormalPriority → (s.taskPool t).state = .ready → 0 ≤ priority
  | .piBoost taskId priority => ∀ t, getTask s taskId = some t →
      priority < (s.taskPool t).effectivePriority → (s.taskPool t).state = .ready → 0 ≤ priority
  | .piDeboost taskId => ∀ t, getTask s taskId = some t → (s.taskPool t).state = .ready →
      (s.taskPool t).staticPriority = (s.taskPool t).priority
  | .block _ | .sleep _ _ | .exit | .enablePreemption | .disablePreemption => True

variable {s : State}

theorem Inv.switches {s' : State} (h : Inv s) (hpool : s'.taskPool = s.taskPool)
    (hbitmap : s'.taskBitmap = s.taskBitmap) (hlinks : s'.links = s.links)
    (hnr : s'.nrRunning = s.nrRunning) (hcurrent : s'.current = s.current)
    (hidle : s'.idleTask = s.idleTask) : Inv s' := by
  obtain ⟨L, hL⟩ := h.lists
  constructor
  · refine ⟨L, hL.congr hlinks hnr (fun t p => ?_) fun t ht => hL.live t (hbitmap ▸ ht)⟩
    rw [hpool, hbitmap]
  · rw [hpool, hcurrent]
    exact h.current
  · rw [hpool, hcurrent, hbitmap]
    exact h.exited
  · rw [hpool, hbitmap]
    exact h.bounded
  · rw [hidle]
    exact h.noIdle

theorem Inv.exec (h : Inv s) {call : Call} (hallowed : Allowed s call) : Inv (exec s call) := by
  cases call with
  | create policy priority page => exact h.taskCreateEx hallowed
  | start =>
    cases he : s.schedulerEnabled with
    | true => simpa [Scheduler.exec, schedulerStart, he] using h
    | false =>
      have hon : Inv { s with schedulerEnabled := true } := h.switches rfl rfl rfl rfl rfl rfl
      simpa [Scheduler.exec, schedulerStart, he] using hon.schedule (hallowed he)
  | schedule => exact h.schedule hallowed
  | tick now => exact h.schedulerTick hallowed
  | block resource => exact h.taskBlock resource
  | unblock taskId => exact h.taskUnblock hallowed
  | sleep ticks now => exact h.taskSleep ticks now
  | wakeup taskId => exact h.taskWakeup hallowed
  | exit => exact h.taskExit
  | setPriority taskId priority => exact h.taskSetPriority hallowed
  | piBoost taskId priority => exact h.taskPiBoost hallowed
  | piDeboost taskId => exact h.taskPiDeboost hallowed
  | enablePreemption => exact h.switches rfl rfl rfl rfl rfl rfl
  | disablePreemption => exact h.switches rfl rfl rfl rfl rfl rfl

def Step (ok : State → Call → Prop) (s s' : State) : Prop :=
  ∃ call, ok s call ∧ s' = exec s call

theorem Inv.run (h : Relation.ReflTransGen (Step Allowed) schedulerInit s) : Inv s := by
  induction h with
  | refl => exact schedulerInit_inv
  | tail _ hstep ih =>
    obtain ⟨call, hallowed, rfl⟩ := hstep
    exact ih.exec hallowed

/-- The ready lists are well formed, hold exactly the live ready tasks, each once and at
its own priority, are counted by `nr_running` and do not hold the current task. -/
structure Consistent (s : State) (L : Int → List Nat) : Prop where
  linked : s.links.Rep L
  range : ∀ t p, t ∈ L p → 0 ≤ p ∧ p ≤ maxNormalPriority
  ready_iff : ∀ t, s.taskBitmap t = true →
    ((s.taskPool t).state = .ready ↔ t ∈ L (s.taskPool t).priority)
  own : ∀ t p, t ∈ L p → s.taskBitmap t = true ∧ p = (s.taskPool t).priority
  count : s.nrRunning.toNat = (onLists L).ncard
  current : ∀ c, s.current = some c → ∀ p, c ∉ L p

theorem Inv.consistent (h : Inv s) {L : Int → List Nat} (hL : Lists s L) : Consistent s L := by
  refine ⟨hL.queues.rep, hL.queues.range, ?_, ?_, hL.queues.count, ?_⟩
  · intro t hlive
    rw [hL.mem_iff]
    simp [hlive]
  · intro t p ht
    obtain ⟨hlive, -, hp⟩ := (hL.mem_iff t p).mp ht
    exact ⟨hlive, hp.symm⟩
  · exact fun c hc p => hL.notMem (h.current c hc) p

theorem allowed_runs_consistent {s : State}
    (h : Relation.ReflTransGen (Step Allowed) schedulerInit s) : ∃ L, Consistent s L := by
  obtain ⟨L, hL⟩ := (Inv.run h).lists
  exact ⟨L, (Inv.run h).consistent hL⟩

def runCalls (calls : List Call) : State := calls.foldl exec schedulerInit

theorem two_tasks_consistent :
    (runCalls [.create .normal 120 4096, .create .rr 50 8192, .start, .block 3]).current =
        some 0 ∧
      ∃ L, Consistent
        (runCalls [.create .normal 120 4096, .create .rr 50 8192, .start, .block 3]) L := by
  refine ⟨by decide, allowed_runs_consistent ?_⟩
  have hfirst : Step Allowed schedulerInit (runCalls [.create .normal 120 4096]) :=
    ⟨.create .normal 120 4096, fun t _ _ => ⟨nofun, by decide, by decide⟩, rfl⟩
  have hsecond : Step Allowed (runCalls [.create .normal 120 4096])
      (runCalls [.create .normal 120 4096, .create .rr 50 8192]) :=
    ⟨.create .rr 50 8192, fun t _ _ => ⟨nofun, by decide, by decide⟩, rfl⟩
  have hnone : (runCalls [.create .normal 120 4096, .create .rr 50 8192]).current = none := by
    decide
  have hstart : Step Allowed (runCalls [.create .normal 120 4096, .create .rr 50 8192])
      (runCalls [.create .normal 120 4096, .create .rr 50 8192, .start]) :=
    ⟨.start, fun _ _ _ c hc => absurd (hnone.symm.trans hc) nofun, rfl⟩
  have hblock : Step Allowed (runCalls [.create .normal 120 4096, .create .rr 50 8192, .start])
      (runCalls [.create .normal 120 4096, .create .rr 50 8192, .start, .block 3]) :=
    ⟨.block 3, trivial, rfl⟩
  exact (((Relation.ReflTransGen.single hfirst).tail hsecond).tail hstart).tail hblock

/-- A task is created, boosted and deboosted: its priority is 120 again, but it is still
linked in the list of priority 50. -/
theorem deboost_misplaces_task :
    Relation.ReflTransGen (Step fun _ _ => True) schedulerInit
        (runCalls [.create .normal 120 4096, .piBoost 0 50, .piDeboost 0]) ∧
      ¬ ∃ L, Consistent (runCalls [.create .normal 120 4096, .piBoost 0 50, .piDeboost 0]) L := by
  constructor
  · have hcreate : Step (fun _ _ => True) schedulerInit (runCalls [.create .normal 120 4096]) :=
      ⟨.create .normal 120 4096, trivial, rfl⟩
    have hboost : Step (fun _ _ => True) (runCalls [.create .normal 120 4096])
        (runCalls [.create .normal 120 4096, .piBoost 0 50]) := ⟨.piBoost 0 50, trivial, rfl⟩
    have hdeboost : Step (fun _ _ => True) (runCalls [.create .normal 120 4096, .piBoost 0 50])
        (runCalls [.create .normal 120 4096, .piBoost 0 50, .piDeboost 0]) :=
      ⟨.piDeboost 0, trivial, rfl⟩
    exact ((Relation.ReflTransGen.single hcreate).tail hboost).tail hdeboost
  · rintro ⟨L, hL⟩
    have hhead : (runCalls [.create .normal 120 4096, .piBoost 0 50, .piDeboost 0]).links.head 50
        = some 0 := by decide
    rw [hL.linked.head] at hhead
    have hown := (hL.own 0 50 (List.mem_of_mem_head? hhead)).2
    revert hown
    decide

end TocinOS.Scheduler

import TocinOS.SchedulerRuns

/-! Priority inheritance. A task has three priority fields and a place on a list; the runs
here also keep the strongest boost that each task was given since its last deboost. -/

namespace TocinOS.Scheduler

open Function

def inherited (staticPriority : Int) : Option Int → Int
  | none => staticPriority
  | some boost => min staticPriority boost

def strongest (priority : Int) : Option Int → Int
  | none => priority
  | some boost => min boost priority

structure BoostConfig where
  state : State
  boost : Nat → Option Int

def boostAfter (c : BoostConfig) : Call → Nat → Option Int
  | .create _ _ _ => match allocTaskId c.state with
    | some t => update c.boost t none
    | none => c.boost
  | .piBoost taskId priority => match getTask c.state taskId with
    | some t => update c.boost t (some (strongest priority (c.boost t)))
    | none => c.boost
  | .piDeboost taskId => match getTask c.state taskId with
    | some t => update c.boost t none
    | none => c.boost
  | _ => c.boost

def BoostConfig.exec (c : BoostConfig) (call : Call) : BoostConfig := ⟨Scheduler.exec c.state call, boostAfter c call⟩

/-- A boost of a ready task is at least as urgent as what it has, and one that changes nothing, by
the task's state or by its effective priority, is no more urgent. A static priority is at least as
urgent as the boost. -/
def BoostAllowed (c : BoostConfig) : Call → Prop
  | .setPriority taskId priority => ∀ t, getTask c.state taskId = some t →
      priority ≤ maxNormalPriority → ∀ boost, c.boost t = some boost → priority ≤ boost
  | .piBoost taskId priority => ∀ t, getTask c.state taskId = some t →
      if (c.state.taskPool t).state = .ready ∧ priority < (c.state.taskPool t).effectivePriority then
        priority ≤ (c.state.taskPool t).priority
      else (c.state.taskPool t).priority ≤ priority
  | _ => True

def BoostStep (ok : BoostConfig → Call → Prop) (c c' : BoostConfig) : Prop :=
  ∃ call, ok c call ∧ c' = c.exec call

structure Inherits (c : BoostConfig) (L : Int → List Nat) : Prop where
  consistent : Consistent c.state L
  priority : ∀ t, c.state.taskBitmap t = true →
    (c.state.taskPool t).priority = inherited (c.state.taskPool t).staticPriority (c.boost t)
  linked : ∀ t, c.state.taskBitmap t = true → (c.state.taskPool t).state = .ready →
    t ∈ L (inherited (c.state.taskPool t).staticPriority (c.boost t))
  deboosted : ∀ t, c.state.taskBitmap t = true → (c.state.taskPool t).state = .ready → c.boost t = none →
    t ∈ L (c.state.taskPool t).staticPriority

/-! ### Calls that set no priority -/

structure SamePriorities (s s' : State) : Prop where
  live : ∀ t, s'.taskBitmap t = true → s.taskBitmap t = true
  priority : ∀ t, (s'.taskPool t).priority = (s.taskPool t).priority
  static : ∀ t, (s'.taskPool t).staticPriority = (s.taskPool t).staticPriority

namespace SamePriorities

variable {s s' s'' : State} {f : Task → Task}

theorem of_pool (hpool : s'.taskPool = s.taskPool) (hbitmap : s'.taskBitmap = s.taskBitmap) :
    SamePriorities s s' :=
  ⟨fun t ht => hbitmap ▸ ht, fun t => by rw [hpool], fun t => by rw [hpool]⟩

theorem refl (s : State) : SamePriorities s s := of_pool rfl rfl

theorem trans (h : SamePriorities s s') (h' : SamePriorities s' s'') : SamePriorities s s'' :=
  ⟨fun t ht => h.live t (h'.live t ht), fun t => (h'.priority t).trans (h.priority t),
    fun t => (h'.static t).trans (h.static t)⟩

theorem modify (s : State) (task : Nat) (hpriority : ∀ x, (f x).priority = x.priority)
    (hstatic : ∀ x, (f x).staticPriority = x.staticPriority) : SamePriorities s (s.modify task f) := by
  refine ⟨fun t ht => ht, fun t => ?_, fun t => ?_⟩
  · by_cases ht : t = task <;> simp [ht, hpriority]
  · by_cases ht : t = task <;> simp [ht, hstatic]

theorem ready (s : State) (task : Nat) (hpriority : ∀ x, (f x).priority = x.priority)
    (hstatic : ∀ x, (f x).staticPriority = x.staticPriority) :
    SamePriorities s (enqueueTask (s.modify task f) task) :=
  (modify s task hpriority hstatic).trans (of_pool (by simp) (by simp))

theorem requeueCurrent (s : State) : SamePriorities s (requeueCurrent s) := by
  unfold Scheduler.requeueCurrent
  split
  · split_ifs
    · exact ready s _ (fun _ => rfl) fun _ => rfl
    · exact refl s
  · exact refl s

theorem switchTo (s : State) (next : Nat) : SamePriorities s (switchTo s next) := by
  have hdequeued : SamePriorities s (if (s.taskPool next).state = .ready then dequeueTask s next else s) := by
    split_ifs
    · exact of_pool (by simp) (by simp)
    · exact refl s
  have hran := hdequeued.trans (modify (f := fun t =>
    { t with state := .running, timeSlice := calculateTimeSlice t }) _ next (fun _ => rfl) fun _ => rfl)
  exact hran.trans (of_pool rfl rfl)

theorem schedule (s : State) : SamePriorities s (schedulerSchedule s) := by
  unfold schedulerSchedule
  split_ifs
  · exact refl s
  · dsimp only
    split
    · exact requeueCurrent s
    · exact (requeueCurrent s).trans (switchTo _ _)

theorem leave (s : State) (task : Nat) (hpriority : ∀ x, (f x).priority = x.priority)
    (hstatic : ∀ x, (f x).staticPriority = x.staticPriority) :
    SamePriorities s (schedulerSchedule (s.modify task f)) :=
  (modify s task hpriority hstatic).trans (schedule _)

theorem wakeup (s : State) (taskId : Int) : SamePriorities s (taskWakeup s taskId) := by
  unfold taskWakeup
  split
  · exact refl s
  · split_ifs
    · exact refl s
    · exact ready s _ (fun _ => rfl) fun _ => rfl

theorem wakeSleepers (s : State) (now : Nat → Nat) : SamePriorities s (wakeSleepers now s) := by
  unfold Scheduler.wakeSleepers
  induction List.range maxTasks generalizing s with
  | nil => exact refl s
  | cons t l ih =>
    refine trans ?_ (ih (wakeIfDue now s t))
    unfold wakeIfDue
    split_ifs
    · exact wakeup s t
    · exact refl s

theorem tick (s : State) (now : Nat → Nat) : SamePriorities s (schedulerTick s now) := by
  unfold schedulerTick
  split_ifs
  · exact refl s
  · split
    · exact refl s
    · rename_i c _
      have hcount : SamePriorities s (s.modify c fun t => { t with timeSlice := t.timeSlice - 1 }) :=
        modify s c (fun _ => rfl) fun _ => rfl
      dsimp only
      refine hcount.trans ?_
      split_ifs
      · exact modify _ c (fun _ => rfl) fun _ => rfl
      · exact (schedule _).trans (wakeSleepers _ now)
      · exact wakeSleepers _ now

end SamePriorities

def Call.SetsPriority : Call → Prop
  | .create _ _ _ | .setPriority _ _ | .piBoost _ _ | .piDeboost _ => True
  | _ => False

theorem SamePriorities.exec (s : State) {call : Call} (h : ¬call.SetsPriority) :
    SamePriorities s (exec s call) := by
  cases call with
  | create | setPriority | piBoost | piDeboost => exact absurd trivial h
  | start =>
    dsimp only [Scheduler.exec, schedulerStart]
    split_ifs
    · exact .refl s
    · have hon : SamePriorities s { s with schedulerEnabled := true } := .of_pool rfl rfl
      exact hon.trans (.schedule _)
  | schedule => exact .schedule s
  | tick now => exact .tick s now
  | block resource =>
    dsimp only [Scheduler.exec, taskBlock]
    split
    · exact .refl s
    · exact .leave s _ (fun _ => rfl) fun _ => rfl
  | unblock taskId =>
    dsimp only [Scheduler.exec, taskUnblock]
    split
    · exact .refl s
    · split_ifs
      · exact .refl s
      · exact .ready s _ (fun _ => rfl) fun _ => rfl
  | sleep ticks now =>
    dsimp only [Scheduler.exec, taskSleep]
    split
    · exact .refl s
    · exact .leave s _ (fun _ => rfl) fun _ => rfl
  | wakeup taskId => exact .wakeup s taskId
  | exit =>
    dsimp only [Scheduler.exec, taskExit]
    split
    · exact .refl s
    · rename_i c _
      have hzombie : SamePriorities s (s.setState c .zombie) := .modify s c (fun _ => rfl) fun _ => rfl
      have hfreed : SamePriorities (s.setState c .zombie)
          { s.setState c .zombie with taskBitmap := update (s.setState c .zombie).taskBitmap c false } := by
        refine ⟨fun t ht => ?_, fun _ => rfl, fun _ => rfl⟩
        by_cases htc : t = c
        · simp [htc] at ht
        · simpa [htc] using ht
      exact (hzombie.trans hfreed).trans (.schedule _)
  | enablePreemption => exact .of_pool rfl rfl
  | disablePreemption => exact .of_pool rfl rfl

/-! ### Calls that do -/

structure BoostInv (c : BoostConfig) : Prop where
  inv : Inv c.state
  priority : ∀ t, c.state.taskBitmap t = true →
    (c.state.taskPool t).priority = inherited (c.state.taskPool t).staticPriority (c.boost t)

variable {c c' : BoostConfig} {priority taskId : Int}

theorem BoostInv.same (h : BoostInv c) (hinv : Inv c'.state)
    (hsame : SamePriorities c.state c'.state) (hboost : c'.boost = c.boost) : BoostInv c' := by
  refine ⟨hinv, fun t ht => ?_⟩
  rw [hsame.priority, hsame.static, hboost]
  exact h.priority t (hsame.live t ht)

theorem BoostInv.one (h : BoostInv c) (hinv : Inv c'.state) (task : Nat)
    (hlive : ∀ t, t ≠ task → c'.state.taskBitmap t = c.state.taskBitmap t)
    (hpool : ∀ t, t ≠ task → c'.state.taskPool t = c.state.taskPool t)
    (hboost : ∀ t, t ≠ task → c'.boost t = c.boost t)
    (htask : c'.state.taskBitmap task = true → (c'.state.taskPool task).priority =
      inherited (c'.state.taskPool task).staticPriority (c'.boost task)) : BoostInv c' := by
  refine ⟨hinv, fun t ht => ?_⟩
  by_cases heq : t = task
  · subst heq
    exact htask ht
  · rw [hpool t heq, hboost t heq]
    exact h.priority t (hlive t heq ▸ ht)

theorem requeueWith_taskPool (s : State) (task : Nat) (f : Task → Task) :
    (requeueWith s task f).taskPool = (s.modify task f).taskPool := by
  simp [requeueWith, State.modify]

theorem requeueWith_taskBitmap (s : State) (task : Nat) (f : Task → Task) :
    (requeueWith s task f).taskBitmap = s.taskBitmap := by
  simp [requeueWith]

theorem inherited_strongest (static priority : Int) (boost : Option Int) :
    inherited static (some (strongest priority boost)) = min (inherited static boost) priority := by
  cases boost with
  | none => rfl
  | some b => simp only [inherited, strongest, min_assoc]

theorem BoostInv.create (h : BoostInv c) {policy : SchedPolicy} {page : Nat}
    (hallowed : Allowed c.state (.create policy priority page)) :
    BoostInv (c.exec (.create policy priority page)) := by
  have hinv := h.inv.exec hallowed
  cases halloc : allocTaskId c.state with
  | none =>
    refine h.same hinv ?_ ?_
    · simp only [BoostConfig.exec, Scheduler.exec, taskCreateEx, halloc]
      exact .refl _
    · simp only [BoostConfig.exec, boostAfter, halloc]
  | some task =>
    refine h.one hinv task ?_ ?_ ?_ ?_
    · intro t ht
      simp only [BoostConfig.exec, Scheduler.exec, taskCreateEx, halloc]
      split_ifs <;> simp [State.setState, ht]
    · intro t ht
      simp only [BoostConfig.exec, Scheduler.exec, taskCreateEx, halloc]
      split_ifs <;> simp [State.setState, ht]
    · intro t ht
      simp [BoostConfig.exec, boostAfter, halloc, ht]
    · intro _
      simp only [BoostConfig.exec, boostAfter, halloc, update_self, inherited, Scheduler.exec,
        taskCreateEx]
      split_ifs <;> simp [State.setState]

theorem BoostInv.setPriority (h : BoostInv c)
    (hallowed : Allowed c.state (.setPriority taskId priority))
    (hboost : BoostAllowed c (.setPriority taskId priority)) :
    BoostInv (c.exec (.setPriority taskId priority)) := by
  have hinv := h.inv.exec hallowed
  cases htask : getTask c.state taskId with
  | none =>
    refine h.same hinv ?_ rfl
    simp only [BoostConfig.exec, Scheduler.exec, taskSetPriority, htask]
    exact .refl _
  | some task =>
    by_cases hhigh : priority > maxNormalPriority
    · refine h.same hinv ?_ rfl
      simp only [BoostConfig.exec, Scheduler.exec, taskSetPriority, htask, hhigh, if_true]
      exact .refl _
    · have hpool : (c.exec (.setPriority taskId priority)).state.taskPool =
          (c.state.modify task fun t => { t with priority, staticPriority := priority }).taskPool := by
        simp only [BoostConfig.exec, Scheduler.exec, taskSetPriority, htask, hhigh, if_false]
        split_ifs
        · exact requeueWith_taskPool ..
        · rfl
      have hbitmap : (c.exec (.setPriority taskId priority)).state.taskBitmap = c.state.taskBitmap := by
        simp only [BoostConfig.exec, Scheduler.exec, taskSetPriority, htask, hhigh, if_false]
        split_ifs
        · exact requeueWith_taskBitmap ..
        · rfl
      refine h.one hinv task (fun t _ => by rw [hbitmap]) ?_ (fun _ _ => rfl) fun _ => ?_
      · intro t ht
        simp [hpool, ht]
      · have hle := hboost task htask (Int.not_lt.mp hhigh)
        rw [hpool]
        simp only [modify_taskPool, update_self]
        change priority = inherited priority (c.boost task)
        cases hb : c.boost task with
        | none => rfl
        | some boost => exact (min_eq_left (hle boost hb)).symm

theorem taskPiBoost_spec {s : State} {task : Nat} (htask : getTask s taskId = some task)
    (priority : Int) : (taskPiBoost s taskId priority).taskBitmap = s.taskBitmap ∧
      ∃ effective, (taskPiBoost s taskId priority).taskPool = update s.taskPool task
        { s.taskPool task with
          effectivePriority := effective
          priority := if (s.taskPool task).state = .ready ∧ priority < (s.taskPool task).effectivePriority
            then priority else (s.taskPool task).priority } := by
  simp only [taskPiBoost, htask]
  by_cases hlower : priority < (s.taskPool task).effectivePriority
  · rw [if_pos hlower]
    by_cases hready : (s.taskPool task).state = .ready
    · rw [if_pos (by simpa using hready), requeueWith_taskBitmap, requeueWith_taskPool]
      refine ⟨rfl, priority, ?_⟩
      simp [State.modify, hlower, hready]
    · rw [if_neg (by simpa using hready)]
      refine ⟨rfl, priority, ?_⟩
      simp [State.modify, hready]
  · rw [if_neg hlower]
    refine ⟨rfl, (s.taskPool task).effectivePriority, ?_⟩
    simp [hlower]

theorem BoostInv.piBoost (h : BoostInv c) (hallowed : Allowed c.state (.piBoost taskId priority))
    (hboost : BoostAllowed c (.piBoost taskId priority)) :
    BoostInv (c.exec (.piBoost taskId priority)) := by
  have hinv := h.inv.exec hallowed
  cases htask : getTask c.state taskId with
  | none =>
    refine h.same hinv ?_ ?_
    · simp only [BoostConfig.exec, Scheduler.exec, taskPiBoost, htask]
      exact .refl _
    · simp only [BoostConfig.exec, boostAfter, htask]
  | some task =>
    obtain ⟨hbitmap, effective, hpool⟩ := taskPiBoost_spec htask priority
    have hafter : (c.exec (.piBoost taskId priority)).boost =
        update c.boost task (some (strongest priority (c.boost task))) := by
      simp only [BoostConfig.exec, boostAfter, htask]
    refine h.one hinv task (fun t _ => congrFun hbitmap t) ?_ ?_ fun _ => ?_
    · exact fun t ht => (congrFun hpool t).trans (update_of_ne ht _ _)
    · intro t ht
      rw [hafter, update_of_ne ht]
    · have hold := h.priority task (getTask_spec htask).2
      have hcondition := hboost task htask
      rw [hafter, update_self, inherited_strongest]
      change ((taskPiBoost c.state taskId priority).taskPool task).priority =
        min (inherited ((taskPiBoost c.state taskId priority).taskPool task).staticPriority _) priority
      rw [hpool, update_self]
      dsimp only
      rw [← hold]
      split_ifs at hcondition ⊢
      · exact (min_eq_right hcondition).symm
      · exact (min_eq_left hcondition).symm

theorem BoostInv.piDeboost (h : BoostInv c) (hallowed : Allowed c.state (.piDeboost taskId)) :
    BoostInv (c.exec (.piDeboost taskId)) := by
  have hinv := h.inv.exec hallowed
  cases htask : getTask c.state taskId with
  | none =>
    refine h.same hinv ?_ ?_
    · simp only [BoostConfig.exec, Scheduler.exec, taskPiDeboost, htask]
      exact .refl _
    · simp only [BoostConfig.exec, boostAfter, htask]
  | some task =>
    have hstate : (c.exec (.piDeboost taskId)).state = c.state.modify task fun t =>
        { t with effectivePriority := t.staticPriority, priority := t.staticPriority } := by
      simp only [BoostConfig.exec, Scheduler.exec, taskPiDeboost, htask]
    have hafter : (c.exec (.piDeboost taskId)).boost = update c.boost task none := by
      simp only [BoostConfig.exec, boostAfter, htask]
    refine h.one hinv task (fun t _ => by rw [hstate]; rfl) ?_ ?_ fun _ => ?_
    · intro t ht
      simp [hstate, ht]
    · intro t ht
      rw [hafter, update_of_ne ht]
    · simp [hstate, hafter, inherited]

/-! ### Runs -/

theorem BoostInv.step (h : BoostInv c)
    (hstep : BoostStep (fun c call => Allowed c.state call ∧ BoostAllowed c call) c c') :
    BoostInv c' := by
  obtain ⟨call, ⟨hallowed, hboost⟩, rfl⟩ := hstep
  by_cases hsets : call.SetsPriority
  · cases call with
    | create policy priority page => exact h.create hallowed
    | setPriority taskId priority => exact h.setPriority hallowed hboost
    | piBoost taskId priority => exact h.piBoost hallowed hboost
    | piDeboost taskId => exact h.piDeboost hallowed
    | _ => exact absurd hsets id
  · refine h.same (h.inv.exec hallowed) (.exec c.state hsets) ?_
    cases call with
    | create | piBoost | piDeboost => exact absurd trivial hsets
    | _ => rfl

theorem BoostInv.run
    (hrun : Relation.ReflTransGen (BoostStep fun c call => Allowed c.state call ∧ BoostAllowed c call)
      ⟨schedulerInit, fun _ => none⟩ c) : BoostInv c := by
  induction hrun with
  | refl => exact ⟨schedulerInit_inv, fun t ht => absurd ht (by simp [schedulerInit])⟩
  | tail _ hstep ih => exact ih.step hstep

/-- In every run whose boosts reach the task they are for, tasks are queued with the smaller number
of their static priority and the strongest boost since their last deboost. -/
theorem boosts_inherited {c : BoostConfig}
    (hrun : Relation.ReflTransGen (BoostStep fun c call => Allowed c.state call ∧ BoostAllowed c call)
      ⟨schedulerInit, fun _ => none⟩ c) : ∃ L, Inherits c L := by
  have h := BoostInv.run hrun
  obtain ⟨L, hL⟩ := h.inv.lists
  have hlinked (t : Nat) (hlive : c.state.taskBitmap t = true) (hready : (c.state.taskPool t).state = .ready) :
      t ∈ L (inherited (c.state.taskPool t).staticPriority (c.boost t)) :=
    (hL.mem_iff t _).mpr ⟨hlive, hready, h.priority t hlive⟩
  refine ⟨L, h.inv.consistent hL, h.priority, hlinked, fun t hlive hready hnone => ?_⟩
  have := hlinked t hlive hready
  rwa [hnone] at this

def runBoosts (calls : List Call) : BoostConfig := calls.foldl BoostConfig.exec ⟨schedulerInit, fun _ => none⟩

theorem ready_task_boosted : (runBoosts [.create .normal 120 4096, .piBoost 0 50]).boost 0 = some 50 ∧
    ∃ L, Inherits (runBoosts [.create .normal 120 4096, .piBoost 0 50]) L := by
  refine ⟨by decide, boosts_inherited ?_⟩
  have hcreate : BoostStep (fun c call => Allowed c.state call ∧ BoostAllowed c call)
      ⟨schedulerInit, fun _ => none⟩ (runBoosts [.create .normal 120 4096]) :=
    ⟨.create .normal 120 4096, ⟨fun t _ _ => ⟨nofun, by decide, by decide⟩, trivial⟩, rfl⟩
  have htask (t : Nat) (ht : getTask (runBoosts [.create .normal 120 4096]).state 0 = some t) : t = 0 := by
    have := (getTask_spec ht).1
    omega
  have hboost : BoostStep (fun c call => Allowed c.state call ∧ BoostAllowed c call)
      (runBoosts [.create .normal 120 4096]) (runBoosts [.create .normal 120 4096, .piBoost 0 50]) := by
    refine ⟨.piBoost 0 50, ⟨fun t _ _ _ => by decide, fun t ht => ?_⟩, rfl⟩
    obtain rfl := htask t ht
    decide
  exact (Relation.ReflTransGen.single hcreate).tail hboost

def boostedWhileBlocked : List Call :=
  [.create .normal 120 4096, .create .normal 130 8192, .start, .block 3, .piBoost 0 50, .unblock 0]

def setAfterBoost : List Call := [.create .normal 120 4096, .piBoost 0 50, .setPriority 0 100]

theorem boosts_lost :
    Relation.ReflTransGen (BoostStep fun c call => Allowed c.state call) ⟨schedulerInit, fun _ => none⟩
        (runBoosts boostedWhileBlocked) ∧
      (¬∃ L, Inherits (runBoosts boostedWhileBlocked) L) ∧ ¬∃ L, Inherits (runBoosts setAfterBoost) L := by
  refine ⟨?_, ?_, ?_⟩
  · have hfirst : BoostStep (fun c call => Allowed c.state call) ⟨schedulerInit, fun _ => none⟩
        (runBoosts (boostedWhileBlocked.take 1)) :=
      ⟨.create .normal 120 4096, fun t _ _ => ⟨nofun, by decide, by decide⟩, rfl⟩
    have hsecond : BoostStep (fun c call => Allowed c.state call)
        (runBoosts (boostedWhileBlocked.take 1)) (runBoosts (boostedWhileBlocked.take 2)) :=
      ⟨.create .normal 130 8192, fun t _ _ => ⟨nofun, by decide, by decide⟩, rfl⟩
    have hnone : (runBoosts (boostedWhileBlocked.take 2)).state.current = none := by decide
    have hstart : BoostStep (fun c call => Allowed c.state call)
        (runBoosts (boostedWhileBlocked.take 2)) (runBoosts (boostedWhileBlocked.take 3)) :=
      ⟨.start, fun _ _ _ c hc => absurd (hnone.symm.trans hc) nofun, rfl⟩
    have hblock : BoostStep (fun c call => Allowed c.state call)
        (runBoosts (boostedWhileBlocked.take 3)) (runBoosts (boostedWhileBlocked.take 4)) :=
      ⟨.block 3, trivial, rfl⟩
    have hboost : BoostStep (fun c call => Allowed c.state call)
        (runBoosts (boostedWhileBlocked.take 4)) (runBoosts (boostedWhileBlocked.take 5)) :=
      ⟨.piBoost 0 50, fun _ _ _ _ => by decide, rfl⟩
    have hunblock : BoostStep (fun c call => Allowed c.state call)
        (runBoosts (boostedWhileBlocked.take 5)) (runBoosts boostedWhileBlocked) := by
      refine ⟨.unblock 0, fun t ht _ => ?_, rfl⟩
      obtain rfl : t = 0 := by
        have := (getTask_spec ht).1
        omega
      decide
    exact (((((Relation.ReflTransGen.single hfirst).tail hsecond).tail hstart).tail hblock).tail
      hboost).tail hunblock
  · rintro ⟨L, h⟩
    exact absurd (h.priority 0 (by decide)) (by decide)
  · rintro ⟨L, h⟩
    exact absurd (h.priority 0 (by decide)) (by decide)

end TocinOS.Scheduler

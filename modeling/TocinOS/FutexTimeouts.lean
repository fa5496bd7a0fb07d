import TocinOS.FutexWake
import TocinOS.SchedulerTicks

/-! A wait with a timeout. `futex_wait` writes the deadline into `sleep_until` and blocks; the
scan of the timer tick only looks at sleeping tasks. -/

namespace TocinOS.Scheduler

structure Stuck (s : State) (t deadline : Nat) : Prop where
  live : s.taskBitmap t = true
  blocked : (s.taskPool t).state = .blocked
  deadline : (s.taskPool t).sleepUntil = deadline
  unlinked : s.links.Unreferenced t
  notIdle : s.idleTask ≠ some t

section Pieces

variable {s s' : State} {t u deadline : Nat} {f : Task → Task} (h : Stuck s t deadline)

include h

theorem Stuck.of_fields (hbitmap : s'.taskBitmap t = s.taskBitmap t)
    (hpool : s'.taskPool t = s.taskPool t) (hlinks : s'.links = s.links)
    (hidle : s'.idleTask = s.idleTask) : Stuck s' t deadline := by
  refine ⟨hbitmap.trans h.live, ?_, ?_, ?_, ?_⟩
  · rw [hpool]
    exact h.blocked
  · rw [hpool]
    exact h.deadline
  · rw [hlinks]
    exact h.unlinked
  · rw [hidle]
    exact h.notIdle

theorem Stuck.modify_of_ne (hne : u ≠ t) (f : Task → Task) :
    Stuck (s.modify u f) t deadline :=
  h.of_fields rfl (Function.update_of_ne hne.symm _ _) rfl rfl

theorem Stuck.modify (hstate : ∀ x, (f x).state = x.state)
    (hsleep : ∀ x, (f x).sleepUntil = x.sleepUntil) (u : Nat) : Stuck (s.modify u f) t deadline := by
  by_cases hu : u = t
  · subst hu
    refine ⟨h.live, ?_, ?_, h.unlinked, h.notIdle⟩
    · simpa [hstate] using h.blocked
    · simpa [hsleep] using h.deadline
  · exact h.modify_of_ne hu f

theorem Stuck.enqueueTask (hne : u ≠ t) : Stuck (enqueueTask s u) t deadline := by
  unfold Scheduler.enqueueTask
  dsimp only
  split_ifs
  · exact h
  · exact ⟨h.live, h.blocked, h.deadline, h.unlinked.pushFront _ hne, h.notIdle⟩

theorem Stuck.dequeueTask (u : Nat) : Stuck (dequeueTask s u) t deadline := by
  unfold Scheduler.dequeueTask
  dsimp only
  split_ifs
  · exact h
  · exact ⟨h.live, h.blocked, h.deadline, h.unlinked.remove _ u, h.notIdle⟩

theorem Stuck.ne_of_state (hu : (s.taskPool u).state ≠ .blocked) : u ≠ t :=
  fun heq => hu (heq ▸ h.blocked)

theorem Stuck.requeueWith (hu : (s.taskPool u).state = .ready) (f : Task → Task) :
    Stuck (requeueWith s u f) t deadline := by
  have hne := h.ne_of_state (u := u) (by simp [hu])
  exact ((h.dequeueTask u).modify_of_ne hne f).enqueueTask hne

theorem Stuck.requeueCurrent : Stuck (requeueCurrent s) t deadline := by
  unfold Scheduler.requeueCurrent
  split
  · rename_i prev _
    split_ifs with hrun
    · have hne := h.ne_of_state (u := prev) (by simp [hrun])
      exact (h.modify_of_ne hne _).enqueueTask hne
    · exact h
  · exact h

theorem Stuck.pick_ne (hpick : pickNextTask s = some u) : u ≠ t := by
  rintro rfl
  rw [pickNextTask, Option.or_eq_some_iff] at hpick
  rcases hpick with hfirst | ⟨-, hidle⟩
  · obtain ⟨i, -, hi⟩ := List.exists_of_findSome?_eq_some hfirst
    exact h.unlinked.head i hi
  · exact h.notIdle hidle

theorem Stuck.switchTo (hne : u ≠ t) : Stuck (switchTo s u) t deadline := by
  have hdequeued : Stuck (if (s.taskPool u).state = .ready then Scheduler.dequeueTask s u else s)
      t deadline := by
    split_ifs
    · exact h.dequeueTask u
    · exact h
  have hran := hdequeued.modify_of_ne hne fun t =>
    { t with state := .running, timeSlice := calculateTimeSlice t }
  exact hran.of_fields rfl rfl rfl rfl

theorem Stuck.schedule : Stuck (schedulerSchedule s) t deadline := by
  unfold schedulerSchedule
  split_ifs
  · exact h
  · cases hpick : pickNextTask (Scheduler.requeueCurrent s) with
    | none =>
      dsimp only
      rw [hpick]
      exact h.requeueCurrent
    | some next =>
      dsimp only
      rw [hpick]
      exact h.requeueCurrent.switchTo (h.requeueCurrent.pick_ne hpick)

theorem Stuck.wakeIfDue (now : Nat → Nat) (u : Nat) :
    Stuck (wakeIfDue now s u) t deadline := by
  unfold Scheduler.wakeIfDue taskWakeup
  split_ifs
  · split
    · exact h
    · rename_i x _
      split_ifs with hstate
      · exact h
      · have hne := h.ne_of_state (u := x) (by simp [not_ne_iff.mp hstate])
        exact (h.modify_of_ne hne _).enqueueTask hne
  · exact h

theorem Stuck.wakeSleepers (now : Nat → Nat) :
    Stuck (wakeSleepers now s) t deadline := by
  unfold Scheduler.wakeSleepers
  induction List.range maxTasks generalizing s with
  | nil => exact h
  | cons u l ih => exact ih (h.wakeIfDue now u)

theorem Stuck.tick (now : Nat → Nat) : Stuck (schedulerTick s now) t deadline := by
  unfold schedulerTick
  split_ifs
  · exact h
  · split
    · exact h
    · rename_i c _
      have hcount : Stuck (s.modify c fun t => { t with timeSlice := t.timeSlice - 1 }) t deadline := by
        apply h.modify <;> exact fun _ => rfl
      dsimp only
      split_ifs
      · apply hcount.modify <;> exact fun _ => rfl
      · exact hcount.schedule.wakeSleepers now
      · exact hcount.wakeSleepers now

end Pieces

def Call.Own : Call → Prop
  | .block _ | .sleep _ _ | .exit => True
  | _ => False

theorem Stuck.taskCreateEx {s : State} {t deadline : Nat} (h : Stuck s t deadline) (policy : SchedPolicy)
    (priority : Int) (page : Nat) : Stuck (taskCreateEx s policy priority page).2 t deadline := by
  unfold Scheduler.taskCreateEx
  split
  · exact h
  · rename_i task htask
    have hne : task ≠ t := by
      rintro rfl
      exact absurd (h.live.symm.trans (allocTaskId_spec htask).2) nofun
    dsimp only
    generalize hfilled : s.modify task _ = s₁
    have h₁ : Stuck s₁ t deadline := hfilled ▸ h.modify_of_ne hne _
    split_ifs
    · exact h₁
    · have hclaimed : Stuck { s₁ with
          taskBitmap := Function.update s₁.taskBitmap task true
          links := (s₁.links.setNext task none).setPrev task none } t deadline :=
        ⟨(Function.update_of_ne hne.symm _ _).trans h₁.live, h₁.blocked, h₁.deadline,
          h₁.unlinked.clear task, h₁.notIdle⟩
      exact (hclaimed.modify_of_ne hne _).enqueueTask hne

theorem Stuck.exec {s : State} {t deadline : Nat} (h : Stuck s t deadline) {call : Call}
    (hunblock : call ≠ .unblock t) (hown : call.Own → s.current ≠ some t) :
    Stuck (exec s call) t deadline := by
  cases call with
  | create policy priority page => exact h.taskCreateEx policy priority page
  | start =>
    dsimp only [Scheduler.exec, schedulerStart]
    split_ifs
    · exact h
    · have hon : Stuck { s with schedulerEnabled := true } t deadline := h.of_fields rfl rfl rfl rfl
      exact hon.schedule
  | schedule => exact h.schedule
  | tick now => exact h.tick now
  | block resource =>
    dsimp only [Scheduler.exec, taskBlock]
    split
    · exact h
    · rename_i c hc
      exact (h.modify_of_ne (fun heq => hown trivial (heq ▸ hc)) _).schedule
  | unblock taskId =>
    dsimp only [Scheduler.exec, taskUnblock]
    split
    · exact h
    · rename_i u hu
      have hne : u ≠ t := by
        rintro rfl
        exact hunblock (congrArg Call.unblock (getTask_spec hu).1)
      split_ifs
      · exact h
      · exact (h.modify_of_ne hne _).enqueueTask hne
  | sleep ticks now =>
    dsimp only [Scheduler.exec, taskSleep]
    split
    · exact h
    · rename_i c hc
      exact (h.modify_of_ne (fun heq => hown trivial (heq ▸ hc)) _).schedule
  | wakeup taskId =>
    dsimp only [Scheduler.exec, taskWakeup]
    split
    · exact h
    · rename_i u _
      split_ifs with hstate
      · exact h
      · have hne : u ≠ t := h.ne_of_state (by simp [not_ne_iff.mp hstate])
        exact (h.modify_of_ne hne _).enqueueTask hne
  | exit =>
    dsimp only [Scheduler.exec, taskExit]
    split
    · exact h
    · rename_i c hc
      have hne : c ≠ t := fun heq => hown trivial (heq ▸ hc)
      have hleft : Stuck { s.setState c .zombie with taskBitmap := Function.update s.taskBitmap c false }
          t deadline :=
        h.of_fields (Function.update_of_ne hne.symm _ _) (Function.update_of_ne hne.symm _ _) rfl rfl
      exact hleft.schedule
  | setPriority taskId priority =>
    dsimp only [Scheduler.exec, taskSetPriority]
    split
    · exact h
    · split_ifs with _ hready
      · exact h
      · exact h.requeueWith hready _
      · dsimp only
        apply h.modify <;> exact fun _ => rfl
  | piBoost taskId priority =>
    dsimp only [Scheduler.exec, taskPiBoost]
    split
    · exact h
    · rename_i u _
      have hboosted : Stuck (s.modify u fun t => { t with effectivePriority := priority }) t deadline := by
        apply h.modify <;> exact fun _ => rfl
      split_ifs with _ hready
      · exact hboosted.requeueWith hready _
      · exact hboosted
      · exact h
  | piDeboost taskId =>
    dsimp only [Scheduler.exec, taskPiDeboost]
    split
    · exact h
    · apply h.modify <;> exact fun _ => rfl
  | enablePreemption => exact h.of_fields rfl rfl rfl rfl
  | disablePreemption => exact h.of_fields rfl rfl rfl rfl

end TocinOS.Scheduler

namespace TocinOS.FutexQueues

open Scheduler (Stuck schedulerTick)

/-- What happens while a task waits: calls of the scheduler that are not its own and do not
unblock it, waits of other tasks, and wakes that do not reach it. -/
inductive Elsewhere (t : Nat) (s : State) : State → Prop
  | call {call : Scheduler.Call} (hunblock : call ≠ .unblock t)
      (hown : call.Own → s.sched.current ≠ some t) :
      Elsewhere t s { s with sched := Scheduler.exec s.sched call }
  | wait {s' : State} {uaddr word val timeout : BitVec 32} {now : Nat}
      (hother : s.sched.current ≠ some t)
      (hs : futexWaitEnter s uaddr word val timeout now = some s') : Elsewhere t s s'
  | resume {x : Nat} (uaddr : BitVec 32) (hother : x ≠ t) : Elsewhere t s (futexWaitResume s x uaddr)
  | wake {uaddr count : BitVec 32} (hleft : (futexWake s uaddr count).2.futexAddr t ≠ 0) :
      Elsewhere t s (futexWake s uaddr count).2

theorem wakeTask_futexAddr_self (s : State) (bucket t : Nat) : (wakeTask s bucket t).futexAddr t = 0 :=
  Function.update_self ..

variable {uaddr : BitVec 32}

theorem wakeLoop_futexAddr_zero {limit : Int} {bucket t : Nat} {rounds : Nat} {waiter : Option Nat}
    {woken : Int} {s : State} (h : s.futexAddr t = 0) :
    (wakeLoop uaddr limit bucket rounds waiter woken s).2.futexAddr t = 0 := by
  induction rounds generalizing waiter woken s with
  | zero => exact h
  | succ rounds ih =>
    cases waiter with
    | none => exact h
    | some w =>
      rw [wakeLoop]
      dsimp only
      split_ifs
      · apply ih
        by_cases hw : t = w
        · rw [hw, wakeTask_futexAddr_self]
        · rw [wakeTask_futexAddr_of_ne s bucket hw, h]
      · exact ih h
      · exact h

theorem wakeLoop_stuck {limit : Int} {bucket t deadline : Nat} {rounds : Nat} {waiter : Option Nat}
    {woken : Int} {s : State} (h : Stuck s.sched t deadline)
    (hleft : (wakeLoop uaddr limit bucket rounds waiter woken s).2.futexAddr t ≠ 0) :
    Stuck (wakeLoop uaddr limit bucket rounds waiter woken s).2.sched t deadline := by
  induction rounds generalizing waiter woken s with
  | zero => exact h
  | succ rounds ih =>
    cases waiter with
    | none => exact h
    | some w =>
      rw [wakeLoop] at hleft ⊢
      dsimp only at hleft ⊢
      split_ifs at hleft ⊢
      · have hne : w ≠ t := by
          rintro rfl
          exact hleft (wakeLoop_futexAddr_zero (wakeTask_futexAddr_self s bucket w))
        have hwoken : Stuck (wakeTask s bucket w).sched t deadline :=
          h.modify_of_ne hne fun x => { x with state := .ready, blockedOn := 0 }
        exact ih hwoken hleft
      · exact ih h hleft
      · exact h

theorem futexWaitEnter_sched {s s' : State} {c : Nat} {word val timeout : BitVec 32} {now : Nat}
    (hcurrent : s.sched.current = some c)
    (hs : futexWaitEnter s uaddr word val timeout now = some s') :
    ∃ f, s'.sched = Scheduler.schedulerSchedule (s.sched.modify c f) ∧ (∀ x, (f x).state = .blocked) ∧
      (timeout ≠ 0 → ∀ x, (f x).sleepUntil = (now + timeout.toNat) % 2 ^ 32) := by
  simp only [futexWaitEnter, hcurrent] at hs
  split_ifs at hs with hnull htimeout
  · obtain rfl := Option.some_inj.mp hs
    refine ⟨fun x => { x with
      state := .blocked, blockedOn := uaddr.toInt, sleepUntil := (now + timeout.toNat) % 2 ^ 32 },
      ?_, fun _ => rfl, fun _ _ => rfl⟩
    simp [Scheduler.State.modify]
  · obtain rfl := Option.some_inj.mp hs
    refine ⟨fun x => { x with state := .blocked, blockedOn := uaddr.toInt }, rfl, fun _ => rfl, ?_⟩
    intro hne
    exact absurd (BitVec.eq_of_toNat_eq (by simpa using htimeout)) hne

theorem Elsewhere.stuck {s s' : State} {t deadline : Nat} (hstep : Elsewhere t s s')
    (h : Stuck s.sched t deadline) : Stuck s'.sched t deadline := by
  cases hstep with
  | call hunblock hown => exact h.exec hunblock hown
  | wait hother hs =>
    cases hc : s.sched.current with
    | none => simp [futexWaitEnter, hc] at hs
    | some c =>
      obtain ⟨f, hsched, -⟩ := futexWaitEnter_sched hc hs
      rw [hsched]
      exact (h.modify_of_ne (fun heq => hother (heq ▸ hc)) f).schedule
  | resume uaddr hother =>
    unfold futexWaitResume
    split_ifs
    · exact h
    · exact h
  | @wake uaddr count hleft =>
    unfold futexWake at hleft ⊢
    split_ifs at hleft ⊢
    · exact h
    · exact wakeLoop_stuck h hleft

theorem Elsewhere.run {s s' : State} {t deadline : Nat} (h : Stuck s.sched t deadline)
    (hrun : Relation.ReflTransGen (Elsewhere t) s s') : Stuck s'.sched t deadline := by
  induction hrun with
  | refl => exact h
  | tail _ hstep ih => exact hstep.stuck ih

/-- A task in `futex_wait` that nobody wakes is blocked and on no ready list after every tick,
however much its deadline lies behind. -/
theorem timed_wait_outlasts_deadline {s₀ s₁ s : State} {t : Nat} {uaddr word val timeout : BitVec 32}
    {now : Nat} (hcurrent : s₀.sched.current = some t) (hlive : s₀.sched.taskBitmap t = true)
    (hunlinked : s₀.sched.links.Unreferenced t) (hidle : s₀.sched.idleTask ≠ some t)
    (htimeout : timeout ≠ 0) (henter : futexWaitEnter s₀ uaddr word val timeout now = some s₁)
    (hrun : Relation.ReflTransGen (Elsewhere t) s₁ s) (clock : Nat → Nat) :
    (s.sched.taskPool t).sleepUntil = (now + timeout.toNat) % 2 ^ 32 ∧
      ((schedulerTick s.sched clock).taskPool t).state = .blocked ∧
      ¬ReadyLinked (schedulerTick s.sched clock) t := by
  obtain ⟨f, hsched, hblocked, hdeadline⟩ := futexWaitEnter_sched hcurrent henter
  have hentered : Stuck (s₀.sched.modify t f) t ((now + timeout.toNat) % 2 ^ 32) := by
    refine ⟨hlive, ?_, ?_, hunlinked, hidle⟩
    · simp [hblocked]
    · simp [hdeadline htimeout]
  have hstart : Stuck s₁.sched t ((now + timeout.toNat) % 2 ^ 32) := hsched ▸ hentered.schedule
  have hstuck := Elsewhere.run hstart hrun
  have hticked := hstuck.tick clock
  refine ⟨hstuck.deadline, hticked.blocked, fun ⟨n, hn⟩ => ?_⟩
  exact hticked.unlinked.notMem_nodes n (hticked.unlinked.head _) hn

def timedWaiter : State where
  sched := Scheduler.schedulerSchedule ((twoTasks.modify 1 fun t =>
    { t with state := .blocked, blockedOn := 4 }).modify 1 fun t => { t with sleepUntil := 5 })
  queue := IntrusiveList.Bank.empty.insertBetween 1 none 1 none
  tail := Function.update (fun _ => none) 1 (some 1)
  futexAddr := Function.update (fun _ => 0) 1 4

theorem timedWaiter_entered : futexWaitEnter { sched := twoTasks } 4 0 0 5 0 = some timedWaiter := rfl

theorem twoTasks_unreferenced : twoTasks.links.Unreferenced 1 := by
  open Function in
  have hhead : twoTasks.links.head =
      update (update (update (fun _ => none) 120 (some 0)) 50 (some 1)) 50 none := rfl
  have hnext : twoTasks.links.next = update (update (update (update (update (fun _ => none)
      0 none) 0 none) 1 none) 1 none) 1 none := rfl
  have hprev : twoTasks.links.prev = update (update (update (update (update (fun _ => none)
      0 none) 0 none) 1 none) 1 none) 1 none := rfl
  constructor
  · intro k
    rw [hhead, update_idem, update_apply, update_apply]
    split_ifs <;> decide
  · simp [hnext]
  · simp [hprev]

theorem timed_waiter_blocked : (timedWaiter.sched.taskPool 1).sleepUntil = 5 ∧
    ((schedulerTick timedWaiter.sched fun _ => 5).taskPool 1).state = .blocked ∧
    ¬ReadyLinked (schedulerTick timedWaiter.sched fun _ => 5) 1 :=
  timed_wait_outlasts_deadline twoTasks_current (by decide) twoTasks_unreferenced (by decide) (by decide)
    timedWaiter_entered .refl _

/-- The tick at the deadline, with the other task running, does not make the task ready. -/
theorem timeout_missed : futexWaitEnter { sched := twoTasks } 4 0 0 5 0 = some timedWaiter ∧
    timedWaiter.sched.current = some 0 ∧ (timedWaiter.sched.taskPool 1).sleepUntil = 5 ∧
    ((schedulerTick timedWaiter.sched fun _ => 5).taskPool 1).state ≠ .ready := by
  exact ⟨timedWaiter_entered, by decide, by decide, by decide +kernel⟩

end TocinOS.FutexQueues

import TocinOS.IntrusiveList

/-! The task scheduler of `kernel/task/scheduler.c` on its one CPU: the task pool,
the ready lists, and the calls that move tasks between states. A task pointer is
the index of the task in `task_pool`, which is also its id; `none` is the null
pointer. The physical memory manager and the timer answer through arguments. -/

namespace TocinOS.Scheduler

open Function (update)

abbrev maxTasks : Nat := 256
abbrev maxNormalPriority : Int := 139
abbrev defaultTimeSlice : Int := 10
abbrev rtTimeSlice : Nat := 100

inductive SchedPolicy where
  | normal
  | fifo
  | rr
  | batch
  | idle
deriving DecidableEq

inductive TaskState where
  | new
  | ready
  | running
  | blocked
  | sleeping
  | zombie
  | terminated
deriving DecidableEq

structure Task where
  policy : SchedPolicy := .normal
  priority : Int := 0
  staticPriority : Int := 0
  effectivePriority : Int := 0
  state : TaskState := .terminated
  timeSlice : Nat := 0
  sleepUntil : Nat := 0
  blockedOn : Int := 0
  stackBase : Nat := 0

/-- The static data. `links` holds `ready_lists[]` and the `next` and `prev` fields of the
tasks. The array starts at index 0; a list below it stands for memory outside. -/
structure State where
  taskPool : Nat → Task := fun _ => {}
  taskBitmap : Nat → Bool := fun _ => false
  links : IntrusiveList.Bank Int Nat := .empty
  nrRunning : BitVec 32 := 0
  current : Option Nat := none
  idleTask : Option Nat := none
  schedulerEnabled : Bool := false
  preemptionEnabled : Bool := true
  preemptionCount : Nat := 0

def State.modify (s : State) (task : Nat) (f : Task → Task) : State :=
  { s with taskPool := update s.taskPool task (f (s.taskPool task)) }

def State.setState (s : State) (task : Nat) (state : TaskState) : State :=
  s.modify task fun t => { t with state }

def allocTaskId (s : State) : Option Nat :=
  (List.range maxTasks).find? fun i => !s.taskBitmap i

def getTask (s : State) (taskId : Int) : Option Nat :=
  if 0 ≤ taskId ∧ taskId < maxTasks ∧ s.taskBitmap taskId.toNat = true then some taskId.toNat
  else none

def enqueueTask (s : State) (task : Nat) : State :=
  let priority := (s.taskPool task).priority
  if priority > maxNormalPriority then s
  else { s with links := s.links.pushFront priority task, nrRunning := s.nrRunning + 1 }

def dequeueTask (s : State) (task : Nat) : State :=
  let priority := (s.taskPool task).priority
  if priority > maxNormalPriority then s
  else { s with links := s.links.remove priority task, nrRunning := s.nrRunning - 1 }

def firstReady (s : State) : Option Nat :=
  (List.range 140).findSome? fun i : Nat => s.links.head (i : Int)

def pickNextTask (s : State) : Option Nat :=
  (firstReady s).or s.idleTask

/-- The last case is an `int` expression converted to `uint64_t`. -/
def calculateTimeSlice (t : Task) : Nat :=
  match t.policy with
  | .fifo => rtTimeSlice * 10
  | .rr => rtTimeSlice
  | .batch => 50
  | .idle => 5
  | .normal => ((defaultTimeSlice * (20 - (t.priority - 120))).tdiv 20 % 2 ^ 64).toNat

def schedulerInit : State := {}

/-- The id of the new task, or -1. `page` is what `pmm_alloc_page` returns. -/
def taskCreateEx (s : State) (policy : SchedPolicy) (priority : Int) (page : Nat) : Int × State :=
  match allocTaskId s with
  | none => (-1, s)
  | some task =>
    let s := s.modify task fun t =>
      { t with
        policy, priority, staticPriority := priority, effectivePriority := priority
        state := .new, timeSlice := calculateTimeSlice { t with policy, priority }
        sleepUntil := 0, blockedOn := -1, stackBase := page }
    if page = 0 then (-1, s)
    else
      let s := { s with
        taskBitmap := update s.taskBitmap task true
        links := (s.links.setNext task none).setPrev task none }
      (task, enqueueTask (s.setState task .ready) task)

def requeueCurrent (s : State) : State :=
  match s.current with
  | some prev =>
    if (s.taskPool prev).state = .running then enqueueTask (s.setState prev .ready) prev else s
  | none => s

def switchTo (s : State) (next : Nat) : State :=
  let s := if (s.taskPool next).state = .ready then dequeueTask s next else s
  { s.modify next fun t => { t with state := .running, timeSlice := calculateTimeSlice t } with
    current := some next }

def schedulerSchedule (s : State) : State :=
  if !s.schedulerEnabled || !s.preemptionEnabled then s
  else
    let s := requeueCurrent s
    match pickNextTask s with
    | none => s
    | some next => switchTo s next

def schedulerStart (s : State) : State :=
  if s.schedulerEnabled then s
  else schedulerSchedule { s with schedulerEnabled := true }

def taskBlock (s : State) (resource : Int) : State :=
  match s.current with
  | none => s
  | some task =>
    schedulerSchedule (s.modify task fun t => { t with state := .blocked, blockedOn := resource })

def taskUnblock (s : State) (taskId : Int) : State :=
  match getTask s taskId with
  | none => s
  | some task =>
    if (s.taskPool task).state ≠ .blocked then s
    else enqueueTask (s.modify task fun t => { t with state := .ready, blockedOn := -1 }) task

def taskSleep (s : State) (ticks now : Nat) : State :=
  match s.current with
  | none => s
  | some task =>
    schedulerSchedule (s.modify task fun t =>
      { t with state := .sleeping, sleepUntil := (now + ticks) % 2 ^ 64 })

def taskWakeup (s : State) (taskId : Int) : State :=
  match getTask s taskId with
  | none => s
  | some task =>
    if (s.taskPool task).state ≠ .sleeping then s
    else enqueueTask (s.modify task fun t => { t with state := .ready, sleepUntil := 0 }) task

def taskExit (s : State) : State :=
  match s.current with
  | none => s
  | some task =>
    let s := s.setState task .zombie
    schedulerSchedule { s with taskBitmap := update s.taskBitmap task false }

def wakeIfDue (now : Nat → Nat) (s : State) (task : Nat) : State :=
  if s.taskBitmap task = true ∧ (s.taskPool task).state = .sleeping
      ∧ (s.taskPool task).sleepUntil ≤ now task then taskWakeup s task
  else s

def wakeSleepers (now : Nat → Nat) (s : State) : State :=
  (List.range maxTasks).foldl (wakeIfDue now) s

def schedulerTick (s : State) (now : Nat → Nat) : State :=
  if !s.schedulerEnabled then s
  else
    match s.current with
    | none => s
    | some task =>
      let s := s.modify task fun t => { t with timeSlice := t.timeSlice - 1 }
      if (s.taskPool task).timeSlice = 0 then
        if (s.taskPool task).policy = .fifo then
          s.modify task fun t => { t with timeSlice := calculateTimeSlice t }
        else wakeSleepers now (schedulerSchedule s)
      else wakeSleepers now s

def requeueWith (s : State) (task : Nat) (f : Task → Task) : State :=
  enqueueTask ((dequeueTask s task).modify task f) task

def taskSetPriority (s : State) (taskId priority : Int) : Int × State :=
  match getTask s taskId with
  | none => (-1, s)
  | some task =>
    if priority > maxNormalPriority then (-1, s)
    else
      let f := fun t : Task => { t with priority, staticPriority := priority }
      if (s.taskPool task).state = .ready then (0, requeueWith s task f)
      else (0, s.modify task f)

def taskPiBoost (s : State) (taskId priority : Int) : State :=
  match getTask s taskId with
  | none => s
  | some task =>
    if priority < (s.taskPool task).effectivePriority then
      let s := s.modify task fun t => { t with effectivePriority := priority }
      if (s.taskPool task).state = .ready then requeueWith s task fun t => { t with priority }
      else s
    else s

/-- Unlike the boost, this does not touch the ready lists. -/
def taskPiDeboost (s : State) (taskId : Int) : State :=
  match getTask s taskId with
  | none => s
  | some task => s.modify task fun t =>
    { t with effectivePriority := t.staticPriority, priority := t.staticPriority }

def schedulerEnablePreemption (s : State) : State :=
  let count := s.preemptionCount - 1
  { s with
    preemptionCount := count
    preemptionEnabled := if count = 0 then true else s.preemptionEnabled }

def schedulerDisablePreemption (s : State) : State :=
  { s with preemptionEnabled := false, preemptionCount := s.preemptionCount + 1 }

end TocinOS.Scheduler

import TocinOS.FutexQueues
import TocinOS.SchedulerRuns

/-! `futex_wake` over runs in which tasks begin to wait, resume at any time and are woken,
while the scheduler does anything else. -/

namespace TocinOS.FutexQueues

open Function (update)
open Scheduler (maxTasks)

/-! ### Waking several tasks -/

theorem wakeAll_futexAddr (k : Nat) (tasks : List Nat) (s : State) (x : Nat) :
    (wakeAll k tasks s).futexAddr x = if x ∈ tasks then 0 else s.futexAddr x := by
  induction tasks generalizing s with
  | nil => rfl
  | cons t rest ih =>
    rw [wakeAll, List.foldl_cons, ← wakeAll, ih]
    by_cases hx : x = t
    · subst hx
      simp [wakeTask, unlink]
    · simp [hx, wakeTask_futexAddr_of_ne s k hx]

theorem wakeAll_links (k : Nat) (tasks : List Nat) (s : State) :
    (wakeAll k tasks s).sched.links = s.sched.links := by
  induction tasks generalizing s with
  | nil => rfl
  | cons t rest ih =>
    rw [wakeAll, List.foldl_cons, ← wakeAll, ih]
    rfl

theorem wakeAll_taskPool (k : Nat) (tasks : List Nat) (s : State) (x : Nat) :
    (wakeAll k tasks s).sched.taskPool x =
      if x ∈ tasks then { s.sched.taskPool x with state := .ready, blockedOn := 0 }
      else s.sched.taskPool x := by
  induction tasks generalizing s with
  | nil => rfl
  | cons t rest ih =>
    rw [wakeAll, List.foldl_cons, ← wakeAll, ih]
    by_cases hx : x = t
    · subst hx
      simp [wakeTask, unlink, Scheduler.State.modify]
    · simp [hx, wakeTask, unlink, Scheduler.State.modify]

variable {s : State} {order : List Nat} {uaddr : BitVec 32}

theorem Queued.wakeAll {tasks : List Nat} {k : Nat} (h : Queued s order) (hnodup : tasks.Nodup)
    (htasks : ∀ t ∈ tasks, t ∈ order ∧ futexHash (s.futexAddr t) = k) :
    Queued (wakeAll k tasks s) (order.filter fun t => t ∉ tasks) := by
  induction tasks generalizing s order with
  | nil => simpa [FutexQueues.wakeAll] using h
  | cons t rest ih =>
    obtain ⟨ht, hrest⟩ := List.nodup_cons.mp hnodup
    obtain ⟨hmem, hk⟩ := htasks t (by simp)
    have hqueued := h.wakeTask hmem
    rw [hk] at hqueued
    have hrec := ih hqueued hrest fun x hx => by
      have hne : x ≠ t := fun e => ht (e ▸ hx)
      obtain ⟨hx', hxk⟩ := htasks x (by simp [hx])
      rw [wakeTask_futexAddr_of_ne s k hne]
      exact ⟨h.nodup.mem_erase_iff.mpr ⟨hne, hx'⟩, hxk⟩
    have horder : ((order.erase t).filter fun x => x ∉ rest) =
        order.filter fun x => x ∉ t :: rest := by
      rw [h.nodup.erase_eq_filter, List.filter_filter]
      apply List.filter_congr
      intro x _
      by_cases hx : x = t <;> simp [hx]
    rw [horder] at hrec
    exact hrec

/-! ### One call -/

def ReadyLinked (sched : Scheduler.State) (t : Nat) : Prop :=
  ∃ n, t ∈ sched.links.nodes n (sched.links.head (sched.taskPool t).priority)

/-- What a wake is for: the first waiters on the address, as many as asked for, are taken off
the queues and made ready, and nothing happens to anyone else. -/
structure WakesFirst (s : State) (order : List Nat) (uaddr : BitVec 32) (count : Nat)
    (r : Int × State) : Prop where
  number : r.1 = (min count (order.filter fun t => s.futexAddr t = uaddr).length : Nat)
  woken : ∀ t ∈ firstWaiters s uaddr count order, r.2.futexAddr t = 0 ∧
    (r.2.sched.taskPool t).state = .ready ∧ ReadyLinked r.2.sched t
  others : ∀ t ∉ firstWaiters s uaddr count order, r.2.futexAddr t = s.futexAddr t ∧
    r.2.sched.taskPool t = s.sched.taskPool t
  queues : Queued r.2 (order.filter fun t => t ∉ firstWaiters s uaddr count order)

theorem firstWaiters_bucketOf (s : State) (uaddr : BitVec 32) (n : Nat) (order : List Nat) :
    firstWaiters s uaddr n (bucketOf s order (futexHash uaddr)) = firstWaiters s uaddr n order := by
  unfold firstWaiters bucketOf
  congr 1
  rw [List.filter_filter]
  apply List.filter_congr
  intro t _
  by_cases ht : s.futexAddr t = uaddr
  · simp [ht]
  · simp [ht]

theorem mem_firstWaiters {n t : Nat} (h : t ∈ firstWaiters s uaddr n order) :
    t ∈ order ∧ s.futexAddr t = uaddr := by
  simpa using List.mem_of_mem_take h

theorem futexWake_eq (h : Queued s order) {count : BitVec 32} (haddr : uaddr ≠ 0)
    (hcount : count.toNat < 2 ^ 31) : futexWake s uaddr count =
      (((firstWaiters s uaddr count.toNat order).length : Int),
        wakeAll (futexHash uaddr) (firstWaiters s uaddr count.toNat order) s) := by
  by_cases hzero : count = 0
  · subst hzero
    simp [futexWake, firstWaiters, wakeAll]
  · have hint : count.toInt = (count.toNat : Int) := by
      rw [BitVec.toInt_eq_toNat_of_lt]
      omega
    have hlen : (bucketOf s order (futexHash uaddr)).length ≤ maxTasks :=
      (List.length_filter_le _ _).trans h.length_le
    have hloop : wakeLoop uaddr count.toNat (futexHash uaddr) maxTasks
        (bucketOf s order (futexHash uaddr)).head? ((0 : Nat) : Int) s = _ :=
      wakeLoop_eq h (List.nil_append _).symm hlen
    rw [futexWake, if_neg (not_or.mpr ⟨haddr, hzero⟩)]
    dsimp only
    rw [hint, h.rep.head]
    rw [firstWaiters_bucketOf, Nat.zero_add, Nat.sub_zero] at hloop
    exact hloop

theorem futexWake_large (s : State) (uaddr : BitVec 32) {count : BitVec 32}
    (hcount : 2 ^ 31 ≤ count.toNat) :
    futexWake s uaddr count = (0, s) := by
  have hneg : count.toInt ≤ 0 := by
    have := count.isLt
    rw [BitVec.toInt_eq_toNat_cond]
    split_ifs <;> omega
  unfold futexWake
  split_ifs
  · rfl
  · show wakeLoop uaddr count.toInt _ 256 _ 0 s = _
    cases s.queue.head (futexHash uaddr) with
    | none => rfl
    | some w => rw [wakeLoop, if_neg (by omega)]

theorem Queued.firstWaiters_nodup (h : Queued s order) (uaddr : BitVec 32) (n : Nat) :
    (firstWaiters s uaddr n order).Nodup :=
  (h.nodup.filter _).sublist (List.take_sublist _ _)

theorem Queued.firstWaiters_null (h : Queued s order) (n : Nat) :
    firstWaiters s 0 n order = [] := by
  have hnone : (order.filter fun t => s.futexAddr t = 0) = [] :=
    List.filter_eq_nil_iff.mpr fun t ht => by simpa using (h.waiting t).mp ht
  rw [firstWaiters, hnone, List.take_nil]

theorem Queued.wakes_none (h : Queued s order) {count : Nat}
    (hnone : firstWaiters s uaddr count order = []) : WakesFirst s order uaddr count (0, s) where
  number := by
    have hlen := congrArg List.length hnone
    rw [firstWaiters, List.length_take, List.length_nil] at hlen
    rw [hlen]
    rfl
  woken t ht := by
    rw [hnone] at ht
    cases ht
  others t _ := ⟨rfl, rfl⟩
  queues := by
    rw [hnone]
    simpa using h

/-- One call of `futex_wake` wakes the right tasks, and leaves each of them linked in its
ready list, exactly when there is nobody to wake or the count is positive as an `int` and the
tasks to wake are linked already. -/
theorem futexWake_wakesFirst_iff (h : Queued s order) (uaddr count : BitVec 32) :
    WakesFirst s order uaddr count.toNat (futexWake s uaddr count) ↔
      count = 0 ∨ (∀ t ∈ order, s.futexAddr t ≠ uaddr) ∨ count.toNat < 2 ^ 31 ∧
        ∀ t ∈ firstWaiters s uaddr count.toNat order, ReadyLinked s.sched t := by
  have hempty : firstWaiters s uaddr count.toNat order = [] ↔
      count = 0 ∨ ∀ t ∈ order, s.futexAddr t ≠ uaddr := by
    rw [firstWaiters, List.take_eq_nil_iff, List.filter_eq_nil_iff, ← BitVec.toNat_inj]
    simp
  rw [← or_assoc, ← hempty]
  have hlinked : ∀ t, ReadyLinked (wakeAll (futexHash uaddr)
      (firstWaiters s uaddr count.toNat order) s).sched t ↔ ReadyLinked s.sched t := by
    intro t
    simp only [ReadyLinked, wakeAll_links, wakeAll_taskPool]
    split_ifs <;> rfl
  by_cases hnull : uaddr = 0
  · have hnone : firstWaiters s uaddr count.toNat order = [] := by
      rw [hnull]
      exact h.firstWaiters_null _
    have hcall : futexWake s uaddr count = (0, s) := by simp [futexWake, hnull]
    rw [hcall]
    exact iff_of_true (h.wakes_none hnone) (.inl hnone)
  by_cases hlarge : 2 ^ 31 ≤ count.toNat
  · rw [futexWake_large s uaddr hlarge]
    constructor
    · intro hw
      have hlen : (firstWaiters s uaddr count.toNat order).length = 0 := by
        have hnumber : (0 : Int) = _ := hw.number
        rw [firstWaiters, List.length_take]
        exact_mod_cast hnumber.symm
      exact .inl (List.eq_nil_of_length_eq_zero hlen)
    · rintro (hnone | ⟨hlt, -⟩)
      · exact h.wakes_none hnone
      · omega
  · rw [futexWake_eq h hnull (by omega)]
    constructor
    · intro hw
      exact .inr ⟨by omega, fun t ht => (hlinked t).mp (hw.woken t ht).2.2⟩
    · intro hcond
      have hall : ∀ t ∈ firstWaiters s uaddr count.toNat order, ReadyLinked s.sched t := by
        rcases hcond with hnone | ⟨-, hall⟩
        · simp [hnone]
        · exact hall
      constructor
      · rw [firstWaiters, List.length_take]
      · intro t ht
        rw [wakeAll_futexAddr, if_pos ht, wakeAll_taskPool, if_pos ht]
        exact ⟨rfl, rfl, (hlinked t).mpr (hall t ht)⟩
      · intro t ht
        rw [wakeAll_futexAddr, if_neg ht, wakeAll_taskPool, if_neg ht]
        exact ⟨rfl, rfl⟩
      · refine h.wakeAll (h.firstWaiters_nodup _ _) fun t ht => ?_
        obtain ⟨hmem, haddr⟩ := mem_firstWaiters ht
        exact ⟨hmem, by rw [haddr]⟩

/-! ### Runs -/

/-- The state, the address of every suspended `futex_wait`, and the tasks whose `futex_addr`
is set, in the order in which they began to wait. -/
structure Config where
  state : State
  calls : Nat → Option (BitVec 32)
  order : List Nat

def stillWaiting (s : State) (order : List Nat) : List Nat :=
  order.filter fun t => s.futexAddr t ≠ 0

inductive Step (c : Config) : Config → Prop
  | wait {t : Nat} {s : State} (uaddr word val timeout : BitVec 32) (now : Nat)
      (hcurrent : c.state.sched.current = some t) (hpool : t < maxTasks)
      (hidle : c.calls t = none)
      (hs : futexWaitEnter c.state uaddr word val timeout now = some s) :
      Step c ⟨s, update c.calls t (some uaddr), stillWaiting s (c.order ++ [t])⟩
  | resume {t : Nat} {uaddr : BitVec 32} (hcall : c.calls t = some uaddr) :
      Step c ⟨futexWaitResume c.state t uaddr, update c.calls t none,
        stillWaiting (futexWaitResume c.state t uaddr) c.order⟩
  | wake (uaddr count : BitVec 32) :
      Step c ⟨(futexWake c.state uaddr count).2, c.calls,
        stillWaiting (futexWake c.state uaddr count).2 c.order⟩
  | other (sched : Scheduler.State) : Step c { c with state := { c.state with sched } }

def Config.init (sched : Scheduler.State) : Config := ⟨{ sched }, fun _ => none, []⟩

structure Inv (c : Config) : Prop where
  queued : Queued c.state c.order
  suspended : ∀ t ∈ c.order, c.calls t = some (c.state.futexAddr t)

theorem Inv.init (sched : Scheduler.State) : Inv (.init sched) where
  queued := ⟨IntrusiveList.Bank.rep_empty, fun _ => rfl, List.nodup_nil, by simp [Config.init],
    by simp [Config.init]⟩
  suspended := by simp [Config.init]

theorem Queued.stillWaiting_eq {p : Nat → Bool} (h : Queued s (order.filter p)) :
    stillWaiting s order = order.filter p := by
  apply List.filter_congr
  intro t ht
  have hiff := h.waiting t
  rw [List.mem_filter, and_iff_right ht] at hiff
  rw [Bool.eq_iff_iff, decide_eq_true_iff, hiff]

theorem Queued.stillWaiting_self (h : Queued s order) : stillWaiting s order = order :=
  List.filter_eq_self.mpr fun t ht => by simpa using (h.waiting t).mp ht

theorem Queued.futexWake (h : Queued s order) (uaddr count : BitVec 32) : ∃ taken : List Nat,
      Queued (futexWake s uaddr count).2 (order.filter fun t => t ∉ taken) ∧
        ∀ t ∉ taken, (futexWake s uaddr count).2.futexAddr t = s.futexAddr t := by
  by_cases hnull : uaddr = 0
  · have hcall : FutexQueues.futexWake s uaddr count = (0, s) := by
      simp [FutexQueues.futexWake, hnull]
    exact ⟨[], by rw [hcall]; simpa using h, fun t _ => by rw [hcall]⟩
  by_cases hlarge : 2 ^ 31 ≤ count.toNat
  · have hcall := futexWake_large s uaddr hlarge
    exact ⟨[], by rw [hcall]; simpa using h, fun t _ => by rw [hcall]⟩
  · rw [futexWake_eq h hnull (by omega)]
    refine ⟨firstWaiters s uaddr count.toNat order, ?_, fun t ht => ?_⟩
    · refine h.wakeAll (h.firstWaiters_nodup _ _) fun t ht => ?_
      obtain ⟨hmem, haddr⟩ := mem_firstWaiters ht
      exact ⟨hmem, by rw [haddr]⟩
    · rw [wakeAll_futexAddr, if_neg ht]

variable {c : Config}

theorem Inv.resume (h : Inv c) {t : Nat} (hcall : c.calls t = some uaddr) :
    Inv ⟨futexWaitResume c.state t uaddr, update c.calls t none,
      stillWaiting (futexWaitResume c.state t uaddr) c.order⟩ := by
  have hq := h.queued
  by_cases ht : t ∈ c.order
  · have haddr : c.state.futexAddr t = uaddr :=
      Option.some.inj ((h.suspended t ht).symm.trans hcall)
    have hcall' : futexWaitResume c.state t uaddr = unlink c.state (futexHash uaddr) t :=
      if_pos ((hq.waiting t).mp ht)
    have hunlink := hq.unlink ht
    rw [haddr, hq.nodup.erase_eq_filter] at hunlink
    rw [hcall', hunlink.stillWaiting_eq]
    refine ⟨hunlink, fun x hx => ?_⟩
    rw [List.mem_filter, bne_iff_ne] at hx
    simp [hx.2, unlink, h.suspended x hx.1]
  · have hcall' : futexWaitResume c.state t uaddr = c.state :=
      if_neg fun hne => ht ((hq.waiting t).mpr hne)
    rw [hcall', hq.stillWaiting_self]
    refine ⟨hq, fun x hx => ?_⟩
    have hne : x ≠ t := fun e => ht (e ▸ hx)
    simp [hne, h.suspended x hx]

theorem Inv.step {c' : Config} (h : Inv c) (hs : Step c c') : Inv c' := by
  have hq := h.queued
  cases hs with
  | wait uaddr word val timeout now hcurrent hpool hidle hs =>
    rename_i t s
    have ht : t ∉ c.order := fun ht => by
      have := (h.suspended t ht).symm.trans hidle
      cases this
    have hqueued := hq.enter ht hpool hcurrent hs
    have haddr := (futexWaitEnter_fields hcurrent hs).2.2.2
    rw [hqueued.stillWaiting_self]
    refine ⟨hqueued, fun x hx => ?_⟩
    by_cases hxt : x = t
    · subst hxt
      simp [haddr]
    · have hx' : x ∈ c.order := by simpa [hxt] using hx
      simp [haddr, hxt, h.suspended x hx']
  | resume hcall => exact h.resume hcall
  | wake uaddr count =>
    obtain ⟨taken, hqueued, hsame⟩ := hq.futexWake uaddr count
    rw [hqueued.stillWaiting_eq]
    refine ⟨hqueued, fun x hx => ?_⟩
    rw [List.mem_filter, decide_eq_true_iff] at hx
    rw [hsame x hx.2]
    exact h.suspended x hx.1
  | other sched => exact ⟨hq.of_fields rfl rfl rfl, h.suspended⟩

theorem Inv.run {sched : Scheduler.State} (h : Relation.ReflTransGen Step (.init sched) c) :
    Inv c := by
  induction h with
  | refl => exact .init sched
  | tail _ hs ih => exact ih.step hs

/-- In every state that waiting, resuming and waking tasks can reach, `futex_wake` wakes the
first waiters on its address in the order they began to wait and links them in their ready
lists exactly when there is nobody to wake, or the count is below 2^31 and those to wake are
linked already. -/
theorem futex_wake_correct_iff {sched : Scheduler.State} {c : Config}
    (h : Relation.ReflTransGen Step (.init sched) c) (uaddr count : BitVec 32) :
    WakesFirst c.state c.order uaddr count.toNat (futexWake c.state uaddr count) ↔
      count = 0 ∨ (∀ t ∈ c.order, c.state.futexAddr t ≠ uaddr) ∨ count.toNat < 2 ^ 31 ∧
        ∀ t ∈ firstWaiters c.state uaddr count.toNat c.order, ReadyLinked c.state.sched t :=
  futexWake_wakesFirst_iff (Inv.run h).queued uaddr count

/-- The second of two new tasks has the better priority and runs. -/
def twoTasks : Scheduler.State :=
  Scheduler.runCalls [.create .normal 120 0x1000, .create .normal 50 0x2000, .start]

theorem twoTasks_current : twoTasks.current = some 1 := by decide

def oneWaiter : State where
  sched := Scheduler.schedulerSchedule (twoTasks.modify 1 fun t =>
    { t with state := .blocked, blockedOn := 4 })
  queue := IntrusiveList.Bank.empty.insertBetween 1 none 1 none
  tail := update (fun _ => none) 1 (some 1)
  futexAddr := update (fun _ => 0) 1 4

theorem oneWaiter_reached :
    Relation.ReflTransGen Step (.init twoTasks) ⟨oneWaiter, update (fun _ => none) 1 (some 4), [1]⟩ :=
  .single (.wait 4 0 0 0 0 twoTasks_current (by decide) rfl rfl)

def unblocked : Scheduler.State := Scheduler.taskUnblock oneWaiter.sched 1

theorem unblocked_waiter_woken : WakesFirst { oneWaiter with sched := unblocked } [1] 4 1
    (futexWake { oneWaiter with sched := unblocked } 4 1) := by
  have hreached := oneWaiter_reached.tail (.other unblocked)
  apply (futex_wake_correct_iff hreached 4 1).mpr
  refine .inr (.inr ⟨by decide, fun t ht => ?_⟩)
  obtain rfl : t = 1 := List.mem_singleton.mp (mem_firstWaiters ht).1
  exact ⟨1, (by decide : 1 ∈ unblocked.links.nodes 1
    (unblocked.links.head (unblocked.taskPool 1).priority))⟩

/-- The woken task is READY but in no ready list, so the scheduler cannot select it. -/
theorem woken_task_lost : futexWaitEnter { sched := twoTasks } 4 0 0 0 0 = some oneWaiter ∧
    oneWaiter.sched.current = some 0 ∧ (futexWake oneWaiter 4 1).1 = 1 ∧
    ((futexWake oneWaiter 4 1).2.sched.taskPool 1).state = .ready ∧
    ¬ ReadyLinked (futexWake oneWaiter 4 1).2.sched 1 := by
  refine ⟨rfl, by decide, by decide, by decide, ?_⟩
  rintro ⟨n, hn⟩
  have hhead : (futexWake oneWaiter 4 1).2.sched.links.head
      ((futexWake oneWaiter 4 1).2.sched.taskPool 1).priority = none := by decide
  rw [hhead] at hn
  cases n <;> cases hn

end TocinOS.FutexQueues

import TocinOS.Scheduler

/-! The futex wait queues of `kernel/task/thread.c`: 256 buckets of waiting tasks, linked
through fields of the tasks. `futex_wait` is cut where it gives up the CPU. -/

namespace TocinOS.FutexQueues

open Function
open IntrusiveList
open Scheduler (maxTasks)

/-- The scheduler's data, `futex_hash[].head` with the `futex_next` and `futex_prev` fields,
`futex_hash[].tail`, and the `futex_addr` fields. -/
structure State where
  sched : Scheduler.State
  queue : Bank Nat Nat := .empty
  tail : Nat → Option Nat := fun _ => none
  futexAddr : Nat → BitVec 32 := fun _ => 0

def futexHash (addr : BitVec 32) : Nat := (addr >>> 2 &&& 255).toNat

def unlink (s : State) (bucket task : Nat) : State :=
  { s with
    queue := s.queue.remove bucket task
    tail := match s.queue.next task with
      | some _ => s.tail
      | none => update s.tail bucket (s.queue.prev task)
    futexAddr := update s.futexAddr task 0 }

/-- `futex_wait` up to and including the call of the scheduler, or none where it returns -1.
`word` is what `*uaddr` holds and `now` the reading of the timer, which is added to the timeout
in 32 bits. -/
def futexWaitEnter (s : State) (uaddr word val timeout : BitVec 32) (now : Nat) : Option State :=
  match s.sched.current with
  | none => none
  | some task =>
    if uaddr = 0 ∨ word ≠ val then none
    else
      let bucket := futexHash uaddr
      let sched := s.sched.modify task fun t =>
        { t with state := .blocked, blockedOn := uaddr.toInt }
      let sched := if 0 < timeout.toNat then
          sched.modify task fun t => { t with sleepUntil := (now + timeout.toNat) % 2 ^ 32 }
        else sched
      some { s with
        sched := Scheduler.schedulerSchedule sched
        queue := s.queue.insertBetween bucket (s.tail bucket) task none
        tail := update s.tail bucket (some task)
        futexAddr := update s.futexAddr task uaddr }

def futexWaitResume (s : State) (task : Nat) (uaddr : BitVec 32) : State :=
  if s.futexAddr task ≠ 0 then unlink s (futexHash uaddr) task else s

def wakeTask (s : State) (bucket task : Nat) : State :=
  let s := unlink s bucket task
  { s with sched := s.sched.modify task fun t => { t with state := .ready, blockedOn := 0 } }

/-- The loop of `futex_wake`. A bucket holds every task at most once. -/
def wakeLoop (uaddr : BitVec 32) (limit : Int) (bucket : Nat) :
    Nat → Option Nat → Int → State → Int × State
  | 0, _, woken, s => (woken, s)
  | _, none, woken, s => (woken, s)
  | rounds + 1, some waiter, woken, s =>
    if woken < limit then
      let next := s.queue.next waiter
      if s.futexAddr waiter = uaddr then
        wakeLoop uaddr limit bucket rounds next (woken + 1) (wakeTask s bucket waiter)
      else wakeLoop uaddr limit bucket rounds next woken s
    else (woken, s)

/-- The value returned and the state. `(int)count` is the signed value of the word. -/
def futexWake (s : State) (uaddr count : BitVec 32) : Int × State :=
  if uaddr = 0 ∨ count = 0 then (0, s)
  else
    let bucket := futexHash uaddr
    wakeLoop uaddr count.toInt bucket maxTasks (s.queue.head bucket) 0 s

/-! ### The queues of a set of waiting tasks -/

def bucketOf (s : State) (order : List Nat) (bucket : Nat) : List Nat :=
  order.filter fun t => futexHash (s.futexAddr t) = bucket

/-- The tasks of `order` are queued, and no others; every bucket has its own in that order. -/
structure Queued (s : State) (order : List Nat) : Prop where
  rep : s.queue.Rep (bucketOf s order)
  tail : ∀ k, s.tail k = (bucketOf s order k).getLast?
  nodup : order.Nodup
  waiting : ∀ t, t ∈ order ↔ s.futexAddr t ≠ 0
  pool : ∀ t ∈ order, t < maxTasks

variable {s s' : State} {order rest : List Nat} {t n : Nat} {uaddr : BitVec 32}

theorem mem_bucketOf {k : Nat} :
    t ∈ bucketOf s order k ↔ t ∈ order ∧ futexHash (s.futexAddr t) = k := by
  simp [bucketOf]

theorem Queued.of_fields (h : Queued s order) (hqueue : s'.queue = s.queue)
    (htail : s'.tail = s.tail) (haddr : s'.futexAddr = s.futexAddr) : Queued s' order := by
  have hbucket : bucketOf s' order = bucketOf s order := by
    unfold bucketOf
    rw [haddr]
  exact ⟨by rw [hqueue, hbucket]; exact h.rep, by rw [htail, hbucket]; exact h.tail, h.nodup,
    by rw [haddr]; exact h.waiting, h.pool⟩

theorem bucketOf_unlink (s : State) (hnodup : order.Nodup) (t : Nat) :
    bucketOf (unlink s (futexHash (s.futexAddr t)) t) (order.erase t) =
      update (bucketOf s order) (futexHash (s.futexAddr t))
        ((bucketOf s order (futexHash (s.futexAddr t))).erase t) := by
  funext k
  have hother : ∀ x ∈ order.erase t, (unlink s (futexHash (s.futexAddr t)) t).futexAddr x =
      s.futexAddr x := by
    intro x hx
    have hne : x ≠ t := (hnodup.mem_erase_iff.mp hx).1
    simp [unlink, hne]
  have hcongr : bucketOf (unlink s (futexHash (s.futexAddr t)) t) (order.erase t) k =
      (order.erase t).filter fun x => futexHash (s.futexAddr x) = k := by
    unfold bucketOf
    apply List.filter_congr
    intro x hx
    rw [hother x hx]
  rw [hcongr]
  by_cases hk : k = futexHash (s.futexAddr t)
  · subst hk
    rw [update_self, bucketOf, List.erase_filter]
  · rw [update_of_ne hk, bucketOf, ← List.erase_filter, List.erase_of_not_mem]
    simp [Ne.symm hk]

theorem Queued.unlink (h : Queued s order) (ht : t ∈ order) :
    Queued (unlink s (futexHash (s.futexAddr t)) t) (order.erase t) := by
  have hbucket := bucketOf_unlink s h.nodup t
  have hmem : t ∈ bucketOf s order (futexHash (s.futexAddr t)) := mem_bucketOf.mpr ⟨ht, rfl⟩
  refine ⟨by rw [hbucket]; exact h.rep.remove hmem, fun k => ?_, h.nodup.erase t, fun x => ?_,
    fun x hx => h.pool x (List.mem_of_mem_erase hx)⟩
  · rw [hbucket]
    obtain ⟨l, r, he⟩ := List.append_of_mem hmem
    obtain ⟨hprev, hnext⟩ := h.rep.neighbours he
    have hnd : (l ++ t :: r).Nodup := he ▸ h.rep.nodup _
    have htl : t ∉ l := fun hl => List.disjoint_of_nodup_append hnd hl (by simp)
    have htail := h.tail (futexHash (s.futexAddr t))
    rw [he] at htail
    rw [he, List.erase_append_right _ htl, List.erase_cons_head]
    simp only [FutexQueues.unlink, hnext, hprev]
    by_cases hk : k = futexHash (s.futexAddr t)
    · subst hk
      rw [update_self]
      cases r with
      | nil => simp
      | cons n r => simpa using htail
    · rw [update_of_ne hk, ← h.tail k]
      cases r with
      | nil => simp [hk]
      | cons n r => rfl
  · by_cases hx : x = t
    · subst hx
      simp [FutexQueues.unlink, h.nodup.mem_erase_iff]
    · rw [h.nodup.mem_erase_iff, and_iff_right hx, h.waiting x]
      simp [FutexQueues.unlink, hx]

theorem bucketOf_enter (s : State) (ht : t ∉ order) (uaddr : BitVec 32) (k : Nat) :
    (order ++ [t]).filter (fun x => futexHash (update s.futexAddr t uaddr x) = k) =
      update (bucketOf s order) (futexHash uaddr) (bucketOf s order (futexHash uaddr) ++ [t]) k := by
  have hcongr : order.filter (fun x => futexHash (update s.futexAddr t uaddr x) = k) =
      bucketOf s order k := by
    apply List.filter_congr
    intro x hx
    have hne : x ≠ t := fun e => ht (e ▸ hx)
    rw [update_of_ne hne]
  rw [List.filter_append, hcongr]
  by_cases hk : k = futexHash uaddr
  · subst hk
    simp
  · simp [hk, Ne.symm hk]

theorem futexWaitEnter_fields {word val timeout : BitVec 32} {now : Nat}
    (hcurrent : s.sched.current = some t)
    (hs : futexWaitEnter s uaddr word val timeout now = some s') : uaddr ≠ 0 ∧
      s'.queue = s.queue.insertBetween (futexHash uaddr) (s.tail (futexHash uaddr)) t none ∧
      s'.tail = update s.tail (futexHash uaddr) (some t) ∧
      s'.futexAddr = update s.futexAddr t uaddr := by
  simp only [futexWaitEnter, hcurrent] at hs
  by_cases hnull : uaddr = 0 ∨ word ≠ val
  · rw [if_pos hnull] at hs
    cases hs
  · rw [if_neg hnull] at hs
    cases hs
    exact ⟨fun e => hnull (.inl e), rfl, rfl, rfl⟩

theorem Queued.enter (h : Queued s order) (ht : t ∉ order) (hpool : t < maxTasks)
    {word val timeout : BitVec 32} {now : Nat} (hcurrent : s.sched.current = some t)
    (hs : futexWaitEnter s uaddr word val timeout now = some s') : Queued s' (order ++ [t]) := by
  obtain ⟨hne, hqueue, htail, haddr⟩ := futexWaitEnter_fields hcurrent hs
  have hbucket : bucketOf s' (order ++ [t]) =
      update (bucketOf s order) (futexHash uaddr) (bucketOf s order (futexHash uaddr) ++ [t]) := by
    funext k
    rw [bucketOf, haddr]
    exact bucketOf_enter s ht uaddr k
  constructor
  case rep =>
    have hfree : ∀ j, t ∉ bucketOf s order j := fun j hj => ht (mem_bucketOf.mp hj).1
    have hrep := h.rep.insertBetween (k := futexHash uaddr) (List.append_nil _).symm hfree
    rw [hqueue, hbucket, h.tail]
    exact hrep
  case tail =>
    intro k
    rw [hbucket, htail]
    by_cases hk : k = futexHash uaddr
    · subst hk
      simp
    · simp [hk, h.tail k]
  case nodup =>
    refine List.nodup_append.mpr ⟨h.nodup, by simp, fun a ha b hb => ?_⟩
    rintro rfl
    exact ht ((List.mem_singleton.mp hb) ▸ ha)
  case waiting =>
    intro x
    rw [List.mem_append, List.mem_singleton, h.waiting x, haddr]
    by_cases hx : x = t
    · subst hx
      simpa using hne
    · simp [hx]
  case pool =>
    intro x hx
    rw [List.mem_append, List.mem_singleton] at hx
    rcases hx with hx | rfl
    · exact h.pool x hx
    · exact hpool

theorem Queued.length_le (h : Queued s order) : order.length ≤ maxTasks := by
  have hsub : order.toFinset ⊆ Finset.range maxTasks := fun t ht =>
    Finset.mem_range.mpr (h.pool t (List.mem_toFinset.mp ht))
  simpa [List.toFinset_card_of_nodup h.nodup] using Finset.card_le_card hsub

/-! ### The loop of `futex_wake` -/

def wakeAll (bucket : Nat) (tasks : List Nat) (s : State) : State :=
  tasks.foldl (fun s t => wakeTask s bucket t) s

theorem Queued.wakeTask (h : Queued s order) (ht : t ∈ order) :
    Queued (wakeTask s (futexHash (s.futexAddr t)) t) (order.erase t) :=
  (h.unlink ht).of_fields rfl rfl rfl

def firstWaiters (s : State) (uaddr : BitVec 32) (n : Nat) (tasks : List Nat) : List Nat :=
  (tasks.filter fun t => s.futexAddr t = uaddr).take n

theorem firstWaiters_cons {w : Nat} (hw : s.futexAddr w = uaddr) :
    firstWaiters s uaddr (n + 1) (w :: rest) = w :: firstWaiters s uaddr n rest := by
  simp [firstWaiters, hw]

theorem firstWaiters_skip {w : Nat} (hw : s.futexAddr w ≠ uaddr) :
    firstWaiters s uaddr n (w :: rest) = firstWaiters s uaddr n rest := by
  simp [firstWaiters, hw]

theorem firstWaiters_congr {tasks : List Nat} (h : ∀ t ∈ tasks, s'.futexAddr t = s.futexAddr t) :
    firstWaiters s' uaddr n tasks = firstWaiters s uaddr n tasks := by
  unfold firstWaiters
  congr 1
  apply List.filter_congr
  intro t ht
  rw [h t ht]

theorem wakeTask_futexAddr_of_ne (s : State) (k : Nat) {x : Nat} (h : x ≠ t) :
    (wakeTask s k t).futexAddr x = s.futexAddr x := by
  simp [wakeTask, unlink, h]

/-- The loop takes the waiters on `uaddr` from the front of the rest of the bucket, as many as
the limit still allows. -/
theorem wakeLoop_eq {limit : Nat} {pre : List Nat} {rounds woken : Nat} (h : Queued s order)
    (hsplit : bucketOf s order (futexHash uaddr) = pre ++ rest) (hrounds : rest.length ≤ rounds) :
    wakeLoop uaddr limit (futexHash uaddr) rounds rest.head? woken s =
      (((woken + (firstWaiters s uaddr (limit - woken) rest).length : Nat) : Int),
        wakeAll (futexHash uaddr) (firstWaiters s uaddr (limit - woken) rest) s) := by
  induction rest generalizing pre order s rounds woken with
  | nil =>
    cases rounds <;> simp [wakeLoop, firstWaiters, wakeAll]
  | cons w rest ih =>
    cases rounds with
    | zero => simp at hrounds
    | succ rounds =>
      have hlen : rest.length ≤ rounds := by simpa using hrounds
      have hnext : s.queue.next w = rest.head? := (h.rep.neighbours hsplit).2
      rw [List.head?_cons, wakeLoop, hnext]
      by_cases hlimit : woken < limit
      · rw [if_pos (by exact_mod_cast hlimit)]
        by_cases haddr : s.futexAddr w = uaddr
        · have hnd : (pre ++ w :: rest).Nodup := hsplit ▸ h.rep.nodup _
          have hpre : w ∉ pre := fun hp => List.disjoint_of_nodup_append hnd hp (by simp)
          have hrest : w ∉ rest := (List.nodup_cons.mp (List.nodup_append.mp hnd).2.1).1
          have hmem : w ∈ order := by
            have : w ∈ bucketOf s order (futexHash uaddr) := by simp [hsplit]
            exact (mem_bucketOf.mp this).1
          have hqueued := h.wakeTask hmem
          have hbucket := congrFun (bucketOf_unlink s h.nodup w) (futexHash uaddr)
          rw [haddr] at hqueued hbucket
          rw [update_self, hsplit, List.erase_append_right _ hpre,
            List.erase_cons_head] at hbucket
          have hsame : ∀ t ∈ rest, (wakeTask s (futexHash uaddr) w).futexAddr t = s.futexAddr t :=
            fun t ht => wakeTask_futexAddr_of_ne s _ fun e => hrest (e ▸ ht)
          have hcount : limit - woken = limit - (woken + 1) + 1 := by omega
          have hrec : wakeLoop uaddr limit (futexHash uaddr) rounds rest.head? (woken + 1 : Nat)
              (wakeTask s (futexHash uaddr) w) = _ := ih hqueued hbucket hlen
          rw [if_pos haddr, hcount, firstWaiters_cons haddr]
          rw [firstWaiters_congr hsame] at hrec
          push_cast at hrec ⊢
          rw [hrec]
          simp only [wakeAll, List.length_cons, List.foldl_cons, Prod.mk.injEq, and_true]
          omega
        · rw [if_neg haddr, firstWaiters_skip haddr]
          exact ih h (hsplit.trans (by simp : _ = pre ++ [w] ++ rest)) hlen
      · rw [if_neg (by exact_mod_cast hlimit)]
        have hzero : limit - woken = 0 := by omega
        simp [hzero, firstWaiters, wakeAll]

end TocinOS.FutexQueues

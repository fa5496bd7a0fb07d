import TocinOS.SchedulerInvariant

/-! Every call of the scheduler keeps the invariant, under the conditions the code does
not check itself. -/

namespace TocinOS.Scheduler

open Function (update)

variable {s : State} {taskId priority : Int} {t : Nat} {f : Task → Task} {now : Nat → Nat}

theorem getTask_spec (h : getTask s taskId = some t) : taskId = t ∧ s.taskBitmap t = true := by
  unfold getTask at h
  split at h
  · rename_i hvalid
    obtain rfl := Option.some_inj.mp h
    exact ⟨(Int.toNat_of_nonneg hvalid.1).symm, hvalid.2.2⟩
  · cases h

theorem getTask_of_live (hlt : t < maxTasks) (h : s.taskBitmap t = true) :
    getTask s t = some t := by
  apply if_pos
  exact ⟨by omega, by omega, by simpa using h⟩

theorem Inv.wakeFrom (h : Inv s) {old : TaskState} (hold : old ≠ .ready)
    (hf : ∀ t, (f t).state = .ready) (hpriority : ∀ t, (f t).priority = t.priority)
    (hbound : ∀ t, t.Bounded → (f t).Bounded)
    (hallowed : ∀ t, getTask s taskId = some t → (s.taskPool t).state = old →
      s.current ≠ some t ∧ 0 ≤ (s.taskPool t).priority) : Inv (match getTask s taskId with
      | none => s
      | some t => if (s.taskPool t).state ≠ old then s else enqueueTask (s.modify t f) t) := by
  cases ht : getTask s taskId with
  | none => exact h
  | some t =>
    dsimp only
    obtain ⟨-, hlive⟩ := getTask_spec ht
    split_ifs with hstate
    · exact h
    · obtain ⟨hcurrent, hp⟩ := hallowed t ht (not_ne_iff.mp hstate)
      apply h.wake hlive hcurrent
      · rw [not_ne_iff.mp hstate]
        exact hold
      · exact hf _
      · rw [hpriority]
        exact hp
      · exact hbound _ (h.bounded t hlive)

theorem Inv.taskWakeup (h : Inv s)
    (hallowed : ∀ t, getTask s taskId = some t → (s.taskPool t).state = .sleeping →
      s.current ≠ some t ∧ 0 ≤ (s.taskPool t).priority) : Inv (taskWakeup s taskId) :=
  h.wakeFrom (by simp) (fun _ => rfl) (fun _ => rfl) (fun _ hb => hb) hallowed

theorem Inv.taskUnblock (h : Inv s)
    (hallowed : ∀ t, getTask s taskId = some t → (s.taskPool t).state = .blocked →
      s.current ≠ some t ∧ 0 ≤ (s.taskPool t).priority) : Inv (taskUnblock s taskId) :=
  h.wakeFrom (by simp) (fun _ => rfl) (fun _ => rfl) (fun _ hb => hb) hallowed

theorem Inv.leave (h : Inv s) {c : Nat} (hc : s.current = some c) (bitmap : Nat → Bool)
    (hbitmap : ∀ u, u ≠ c → bitmap u = s.taskBitmap u)
    (hkeep : bitmap c = true → s.taskBitmap c = true) (hready : (f (s.taskPool c)).state ≠ .ready)
    (hrunning : (f (s.taskPool c)).state ≠ .running)
    (hbound : (s.taskPool c).Bounded → (f (s.taskPool c)).Bounded) :
    Inv (schedulerSchedule { s.modify c f with taskBitmap := bitmap }) := by
  apply (h.suspend hc bitmap hbitmap hkeep hready hrunning hbound).schedule
  intro _ _ c' hc' hrun
  obtain rfl : c = c' := Option.some_inj.mp (hc.symm.trans hc')
  exact absurd hrun (by simpa using hrunning)

theorem Inv.taskBlock (h : Inv s) (resource : Int) : Inv (taskBlock s resource) := by
  unfold Scheduler.taskBlock
  split
  · exact h
  · rename_i c hc
    exact h.leave hc (f := fun t => { t with state := .blocked, blockedOn := resource })
      s.taskBitmap (fun _ _ => rfl) id (by simp) (by simp) id

theorem Inv.taskSleep (h : Inv s) (ticks now : Nat) : Inv (taskSleep s ticks now) := by
  unfold Scheduler.taskSleep
  split
  · exact h
  · rename_i c hc
    exact h.leave hc
      (f := fun t => { t with state := .sleeping, sleepUntil := (now + ticks) % 2 ^ 64 })
      s.taskBitmap (fun _ _ => rfl) id (by simp) (by simp) id

theorem Inv.taskExit (h : Inv s) : Inv (taskExit s) := by
  unfold Scheduler.taskExit
  split
  · exact h
  · rename_i c hc
    exact h.leave hc (f := fun t => { t with state := .zombie }) (update s.taskBitmap c false)
      (fun u hu => Function.update_of_ne hu _ _) (by simp) (by simp) (by simp) id

theorem Inv.taskSetPriority (h : Inv s)
    (hallowed : ∀ t, getTask s taskId = some t → priority ≤ maxNormalPriority →
      (s.taskPool t).state = .ready → 0 ≤ priority) :
    Inv (taskSetPriority s taskId priority).2 := by
  cases ht : getTask s taskId with
  | none =>
    rw [Scheduler.taskSetPriority, ht]
    exact h
  | some t =>
    obtain ⟨-, hlive⟩ := getTask_spec ht
    obtain ⟨-, -, heffective⟩ := h.bounded t hlive
    simp only [Scheduler.taskSetPriority, ht]
    split_ifs with hhigh hready
    · exact h
    · have hle := Int.not_lt.mp hhigh
      apply h.requeue hlive hready hready (hallowed t ht hle hready)
      exact ⟨hle, hle, heffective⟩
    · have hle := Int.not_lt.mp hhigh
      dsimp only
      apply h.modify t rfl (fun hr => absurd hr hready)
      exact fun _ => ⟨hle, hle, heffective⟩

theorem Inv.taskPiBoost (h : Inv s)
    (hallowed : ∀ t, getTask s taskId = some t → priority < (s.taskPool t).effectivePriority →
      (s.taskPool t).state = .ready → 0 ≤ priority) : Inv (taskPiBoost s taskId priority) := by
  cases ht : getTask s taskId with
  | none =>
    rw [Scheduler.taskPiBoost, ht]
    exact h
  | some t =>
    obtain ⟨-, hlive⟩ := getTask_spec ht
    obtain ⟨hprio, hstatic, heffective⟩ := h.bounded t hlive
    by_cases hlower : priority < (s.taskPool t).effectivePriority
    · have hle : priority ≤ maxNormalPriority := Int.le_trans (Int.le_of_lt hlower) heffective
      have hboost : Inv (s.modify t fun u => { u with effectivePriority := priority }) :=
        h.modify t rfl (fun _ => rfl) fun _ => ⟨hprio, hstatic, hle⟩
      simp only [Scheduler.taskPiBoost, ht, hlower, if_true]
      split_ifs with hready
      · have hready' : (s.taskPool t).state = .ready := by simpa using hready
        refine hboost.requeue hlive hready hready (hallowed t ht hlower hready') ?_
        simpa [Task.Bounded] using And.intro hle (And.intro hstatic hle)
      · exact hboost
    · simp only [Scheduler.taskPiBoost, ht, hlower, if_false]
      exact h

theorem Inv.taskPiDeboost (h : Inv s)
    (hallowed : ∀ t, getTask s taskId = some t → (s.taskPool t).state = .ready →
      (s.taskPool t).staticPriority = (s.taskPool t).priority) : Inv (taskPiDeboost s taskId) := by
  cases ht : getTask s taskId with
  | none =>
    rw [Scheduler.taskPiDeboost, ht]
    exact h
  | some t =>
    obtain ⟨-, hlive⟩ := getTask_spec ht
    obtain ⟨-, hstatic, -⟩ := h.bounded t hlive
    rw [Scheduler.taskPiDeboost, ht]
    exact h.modify t rfl (hallowed t ht) fun _ => ⟨hstatic, hstatic, hstatic⟩

theorem allocTaskId_spec (h : allocTaskId s = some t) : t < maxTasks ∧ s.taskBitmap t = false :=
  ⟨List.mem_range.mp (List.mem_of_find?_eq_some h), by simpa using List.find?_some h⟩

theorem Inv.modifyFree (h : Inv s) (hfree : s.taskBitmap t = false)
    (hready : (f (s.taskPool t)).state ≠ .ready) (hrunning : (f (s.taskPool t)).state ≠ .running) :
    Inv (s.modify t f) := by
  obtain ⟨L, hL⟩ := h.lists
  constructor
  · refine ⟨L, hL.congr rfl rfl ?_ hL.live⟩
    intro u p
    by_cases hu : u = t
    · subst hu
      simp [hfree]
    · simp [hu]
  · intro c hc
    by_cases hct : c = t
    · subst hct
      simpa using hready
    · simpa [hct] using h.current c hc
  · intro c hc
    by_cases hct : c = t
    · subst hct
      exact fun _ => by simpa using hrunning
    · simpa [hct] using h.exited c hc
  · intro u hu
    have hut : u ≠ t := by
      rintro rfl
      rw [modify_taskBitmap, hfree] at hu
      cases hu
    simpa [hut] using h.bounded u hu
  · exact h.noIdle

theorem Inv.claim (h : Inv s) (hlt : t < maxTasks) (hfree : s.taskBitmap t = false)
    (hready : (s.taskPool t).state ≠ .ready) (hbound : (s.taskPool t).Bounded) : Inv { s with
      taskBitmap := update s.taskBitmap t true
      links := (s.links.setNext t none).setPrev t none } := by
  obtain ⟨L, hL⟩ := h.lists
  have hrep := hL.queues.rep.clear (hL.notMem hready) none none
  constructor
  · refine ⟨L, ⟨hrep, hL.queues.range, hL.queues.below, hL.queues.count⟩, ?_, ?_⟩
    · intro u p
      rw [hL.mem_iff]
      by_cases hu : u = t
      · subst hu
        simp [hready]
      · simp [hu]
    · intro u hu
      by_cases hut : u = t
      · exact hut ▸ hlt
      · exact hL.live u (by simpa [hut] using hu)
  · exact h.current
  · intro c hc hdead
    by_cases hct : c = t
    · subst hct
      simp at hdead
    · exact h.exited c hc (by simpa [hct] using hdead)
  · intro u hu
    by_cases hut : u = t
    · exact hut ▸ hbound
    · exact h.bounded u (by simpa [hut] using hu)
  · exact h.noIdle

theorem Inv.taskCreateEx (h : Inv s) {policy : SchedPolicy} {page : Nat}
    (hallowed : ∀ t, allocTaskId s = some t → page ≠ 0 →
      s.current ≠ some t ∧ 0 ≤ priority ∧ priority ≤ maxNormalPriority) :
    Inv (taskCreateEx s policy priority page).2 := by
  cases ht : allocTaskId s with
  | none =>
    rw [Scheduler.taskCreateEx, ht]
    exact h
  | some t =>
    obtain ⟨hlt, hfree⟩ := allocTaskId_spec ht
    simp only [Scheduler.taskCreateEx, ht]
    have hfilled := h.modifyFree hfree (f := fun t =>
      { t with
        policy, priority, staticPriority := priority, effectivePriority := priority
        state := .new, timeSlice := calculateTimeSlice { t with policy, priority }
        sleepUntil := 0, blockedOn := -1, stackBase := page }) (by simp) (by simp)
    split_ifs with hpage
    · exact hfilled
    · obtain ⟨hcurrent, hlow, hhigh⟩ := hallowed t ht hpage
      have hclaimed := hfilled.claim hlt hfree (by simp) (by simpa [Task.Bounded] using hhigh)
      apply hclaimed.wake
      · simp
      · exact hcurrent
      · simp
      · rfl
      · simpa using hlow
      · simpa [Task.Bounded] using hhigh

/-! ### The timer tick -/

def WakesAllowed (now : Nat → Nat) (s : State) (l : List Nat) : Prop :=
  ∀ t ∈ l, s.taskBitmap t = true → (s.taskPool t).state = .sleeping →
    (s.taskPool t).sleepUntil ≤ now t → s.current ≠ some t ∧ 0 ≤ (s.taskPool t).priority

theorem WakesAllowed.wakeIfDue {l : List Nat} (h : WakesAllowed now s l) (hlt : t < maxTasks) :
    WakesAllowed now (wakeIfDue now s t) l := by
  unfold Scheduler.wakeIfDue
  split_ifs with hdue
  · simp only [taskWakeup, getTask_of_live hlt hdue.1, hdue.2.1, ne_eq, not_true_eq_false,
      if_false]
    intro u hu
    by_cases hut : u = t
    · subst hut
      simp
    · simpa [hut] using h u hu
  · exact h

theorem Inv.wakeSleepers_aux {l : List Nat} (h : Inv s) (hlt : ∀ t ∈ l, t < maxTasks)
    (hallowed : WakesAllowed now s l) : Inv (l.foldl (wakeIfDue now) s) := by
  induction l generalizing s with
  | nil => exact h
  | cons t l ih =>
    have ht := hlt t List.mem_cons_self
    have hstep : Inv (wakeIfDue now s t) := by
      unfold Scheduler.wakeIfDue
      split_ifs with hdue
      · apply h.taskWakeup
        intro u hu _
        obtain rfl : t = u := by
          have := (getTask_spec hu).1
          omega
        exact hallowed t List.mem_cons_self hdue.1 hdue.2.1 hdue.2.2
      · exact h
    apply ih hstep (fun u hu => hlt u (List.mem_cons_of_mem _ hu))
    exact WakesAllowed.wakeIfDue (fun u hu => hallowed u (List.mem_cons_of_mem _ hu)) ht

theorem Inv.wakeSleepers (h : Inv s) (hallowed : WakesAllowed now s (List.range maxTasks)) :
    Inv (wakeSleepers now s) :=
  h.wakeSleepers_aux (fun _ ht => List.mem_range.mp ht) hallowed

/-- The tick may only find the current task asleep and due if it switches away from it
before it looks for sleepers. A FIFO task at the end of its slice ends the tick early. -/
def TickAllowed (s : State) (now : Nat → Nat) : Prop :=
  s.schedulerEnabled = true → ∀ c, s.current = some c →
    ¬ ((s.taskPool c).timeSlice ≤ 1 ∧ (s.taskPool c).policy = .fifo) →
      ((s.taskPool c).timeSlice ≤ 1 → ScheduleAllowed s) ∧
      ∀ t, s.taskBitmap t = true → (s.taskPool t).state = .sleeping →
        (s.taskPool t).sleepUntil ≤ now t → 0 ≤ (s.taskPool t).priority ∧
          (t = c → (s.taskPool c).timeSlice ≤ 1 ∧ s.preemptionEnabled = true ∧
            firstReady s ≠ none)

theorem Inv.schedulerTick (h : Inv s) (hallowed : TickAllowed s now) :
    Inv (schedulerTick s now) := by
  cases he : s.schedulerEnabled with
  | false => simpa [Scheduler.schedulerTick, he] using h
  | true =>
    cases hc : s.current with
    | none => simpa [Scheduler.schedulerTick, he, hc] using h
    | some c =>
      have htick : Inv (s.modify c fun t => { t with timeSlice := t.timeSlice - 1 }) :=
        h.modify c rfl (fun _ => rfl) (h.bounded c)
      have hpool : ∀ t, ∃ n, (s.modify c fun t => { t with timeSlice := t.timeSlice - 1 }).taskPool
          t = { s.taskPool t with timeSlice := n } := by
        intro t
        by_cases htc : t = c
        · subst htc
          exact ⟨(s.taskPool t).timeSlice - 1, by simp⟩
        · exact ⟨(s.taskPool t).timeSlice, by simp [htc]⟩
      simp only [Scheduler.schedulerTick, he, hc, Bool.not_true, Bool.false_eq_true, if_false,
        modify_taskPool, Function.update_self]
      split_ifs with hslice hfifo
      · exact htick.modify c rfl (fun _ => rfl) (htick.bounded c)
      · obtain ⟨hsched, hdue⟩ := hallowed he c hc fun hboth => hfifo hboth.2
        have hle : (s.taskPool c).timeSlice ≤ 1 := by omega
        have hsched' : ScheduleAllowed
            (s.modify c fun t => { t with timeSlice := t.timeSlice - 1 }) := by
          intro he' hp' c' hc' hrun
          obtain ⟨n, hn⟩ := hpool c'
          rw [hn] at hrun ⊢
          exact hsched hle he' hp' c' hc' hrun
        apply (htick.schedule hsched').wakeSleepers
        intro t _ hlive hsleep huntil
        obtain ⟨hsame, hcur⟩ := htick.schedule_sleeping hsched' hsleep
        obtain ⟨n, hn⟩ := hpool t
        rw [schedulerSchedule_taskBitmap] at hlive
        rw [hsame, hn] at hsleep huntil ⊢
        obtain ⟨hp, hswitch⟩ := hdue t hlive hsleep huntil
        refine ⟨fun hct => ?_, hp⟩
        obtain ⟨hold, hnone⟩ := hcur hct
        obtain rfl : c = t := Option.some_inj.mp (hc.symm.trans hold)
        obtain ⟨-, hpre, hready⟩ := hswitch rfl
        exact hready (hnone he hpre)
      · have hgt : ¬ (s.taskPool c).timeSlice ≤ 1 := by omega
        obtain ⟨-, hdue⟩ := hallowed he c hc fun hboth => hgt hboth.1
        apply htick.wakeSleepers
        intro t _ hlive hsleep huntil
        obtain ⟨n, hn⟩ := hpool t
        rw [hn] at hsleep huntil ⊢
        obtain ⟨hp, hswitch⟩ := hdue t hlive hsleep huntil
        refine ⟨fun hct => ?_, hp⟩
        obtain rfl : c = t := Option.some_inj.mp (hc.symm.trans hct)
        exact hgt (hswitch rfl).1

end TocinOS.Scheduler

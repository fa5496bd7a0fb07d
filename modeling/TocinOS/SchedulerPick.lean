import TocinOS.SchedulerLists

/-! What one call of `scheduler_schedule` does: the most urgent of the ready tasks and of
the one that still runs comes next, and no list but theirs is touched. -/

namespace TocinOS.Scheduler

open Function (update)
open IntrusiveList (Bank)

structure Placed (s : State) (L : Int → List Nat) : Prop where
  rep : s.links.Rep L
  mem_iff : ∀ t p, t ∈ L p ↔ (s.taskPool t).state = .ready ∧ (s.taskPool t).priority = p

structure WellPlaced (s : State) (L : Int → List Nat) : Prop extends Placed s L where
  range : ∀ t, (s.taskPool t).state = .ready ∨ s.current = some t →
    0 ≤ (s.taskPool t).priority ∧ (s.taskPool t).priority ≤ maxNormalPriority
  current : ∀ c, s.current = some c → ∀ p, c ∉ L p

def Candidate (s : State) (t : Nat) : Prop :=
  (s.taskPool t).state = .ready ∨ s.current = some t ∧ (s.taskPool t).state = .running

/-- The step from `s` to `s'` makes `next` run. Between them only the previous task changes,
if it was running, and goes back to its list. -/
structure Runs (s s' : State) (L L' : Int → List Nat) (next : Nat) : Prop where
  current : s'.current = some next
  running : (s'.taskPool next).state = .running
  unlinked : ∀ p, next ∉ L' p
  previous : ∀ prev, s.current = some prev → (s.taskPool prev).state = .running → prev ≠ next →
    (s'.taskPool prev).state = .ready ∧ prev ∈ L' (s.taskPool prev).priority
  others : ∀ t, t ≠ next → ¬(s.current = some t ∧ (s.taskPool t).state = .running) →
    s'.taskPool t = s.taskPool t ∧ ∀ p, t ∈ L' p ↔ t ∈ L p

section Selection

variable {s : State} {L : Int → List Nat}

theorem Placed.firstReady_some (h : Placed s L) {t : Nat} (ht : firstReady s = some t) :
    (s.taskPool t).state = .ready ∧
      ∀ u, (s.taskPool u).state = .ready → 0 ≤ (s.taskPool u).priority →
        (s.taskPool t).priority ≤ (s.taskPool u).priority := by
  obtain ⟨l, i, r, hrange, hhead, hnone⟩ := List.findSome?_eq_some_iff.mp ht
  have hmem : t ∈ L i := List.mem_of_mem_head? (h.rep.head i ▸ hhead)
  obtain ⟨hready, hpriority⟩ := (h.mem_iff t i).mp hmem
  refine ⟨hready, fun u hu hlow => ?_⟩
  rw [hpriority]
  by_contra hlt
  have hq : ((s.taskPool u).priority.toNat : Int) = (s.taskPool u).priority := Int.toNat_of_nonneg hlow
  -- The list of an index before `i` would have been found first.
  have hbefore : (s.taskPool u).priority.toNat ∈ l := by
    have hsorted := List.pairwise_lt_range (n := 140)
    rw [hrange] at hsorted
    have hafter := (List.pairwise_cons.mp (List.pairwise_append.mp hsorted).2.1).1
    have hi : i < 140 := List.mem_range.mp (hrange ▸ List.mem_append_right l List.mem_cons_self)
    have hmem : (s.taskPool u).priority.toNat ∈ List.range 140 := List.mem_range.mpr (by omega)
    rw [hrange, List.mem_append, List.mem_cons] at hmem
    rcases hmem with hmem | heq | hmem
    · exact hmem
    · omega
    · have := hafter _ hmem
      omega
  have hempty := hnone _ hbefore
  rw [hq, h.rep.head, List.head?_eq_none_iff] at hempty
  have hlinked := (h.mem_iff u _).mpr ⟨hu, rfl⟩
  simp [hempty] at hlinked

theorem Placed.firstReady_none (h : Placed s L) (hnone : firstReady s = none) (t : Nat)
    (hlow : 0 ≤ (s.taskPool t).priority) (hhigh : (s.taskPool t).priority ≤ maxNormalPriority) :
    (s.taskPool t).state ≠ .ready := by
  intro ht
  have hmem : (s.taskPool t).priority.toNat ∈ List.range 140 := by
    rw [List.mem_range]
    simp only [maxNormalPriority] at hhigh
    omega
  have hempty := List.findSome?_eq_none_iff.mp hnone _ hmem
  rw [Int.toNat_of_nonneg hlow, h.rep.head, List.head?_eq_none_iff] at hempty
  have hlinked := (h.mem_iff t _).mpr ⟨ht, rfl⟩
  simp [hempty] at hlinked

end Selection

/-! ### The two halves of the call -/

structure Offered (s s' : State) (L L' : Int → List Nat) : Prop extends Placed s' L' where
  ready_iff : ∀ t, (s'.taskPool t).state = .ready ↔ Candidate s t
  priority : ∀ t, (s'.taskPool t).priority = (s.taskPool t).priority
  others : ∀ t, ¬(s.current = some t ∧ (s.taskPool t).state = .running) →
    s'.taskPool t = s.taskPool t ∧ ∀ p, t ∈ L' p ↔ t ∈ L p
  idleTask : s'.idleTask = s.idleTask
  same : (∀ t, ¬Candidate s t) → s' = s

theorem WellPlaced.requeueCurrent {s : State} {L : Int → List Nat} (h : WellPlaced s L) :
    ∃ L', Offered s (requeueCurrent s) L L' := by
  by_cases hrun : ∃ prev, s.current = some prev ∧ (s.taskPool prev).state = .running
  · obtain ⟨prev, hprev, hrunning⟩ := hrun
    obtain ⟨hlow, hhigh⟩ := h.range prev (.inr hprev)
    have hcall : Scheduler.requeueCurrent s = enqueueTask (s.setState prev .ready) prev := by
      simp [Scheduler.requeueCurrent, hprev, hrunning]
    have hself : ((s.setState prev .ready).taskPool prev).priority = (s.taskPool prev).priority := by
      simp [State.setState]
    have hlinks : (enqueueTask (s.setState prev .ready) prev).links =
        s.links.pushFront (s.taskPool prev).priority prev := by
      rw [enqueueTask_of_le (by rwa [hself]), hself]
      rfl
    have hpool (t : Nat) (ht : t ≠ prev) :
        (enqueueTask (s.setState prev .ready) prev).taskPool t = s.taskPool t := by
      simp [State.setState, ht]
    rw [hcall]
    refine ⟨update L (s.taskPool prev).priority (prev :: L (s.taskPool prev).priority), ⟨?_, ?_⟩, ?_, ?_, ?_, ?_, ?_⟩
    · rw [hlinks]
      exact h.rep.pushFront (h.current prev hprev)
    · intro t p
      rw [Bank.mem_push_iff, h.mem_iff]
      by_cases ht : t = prev
      · subst ht
        simp [State.setState, hrunning, eq_comm]
      · simp [hpool t ht, ht]
    · intro t
      by_cases ht : t = prev
      · subst ht
        simp [State.setState, Candidate, hprev, hrunning]
      · have hother : s.current ≠ some t := fun hc => ht (Option.some_inj.mp (hc.symm.trans hprev))
        simp [hpool t ht, Candidate, hother]
    · intro t
      by_cases ht : t = prev
      · subst ht
        simp [State.setState]
      · rw [hpool t ht]
    · intro t hnot
      have ht : t ≠ prev := fun heq => hnot (heq ▸ ⟨hprev, hrunning⟩)
      refine ⟨hpool t ht, fun p => ?_⟩
      simp [Bank.mem_push_iff, ht]
    · simp [State.setState]
    · exact fun hnone => absurd (.inr ⟨hprev, hrunning⟩) (hnone prev)
  · have hcall : Scheduler.requeueCurrent s = s := by
      unfold Scheduler.requeueCurrent
      split
      · rename_i prev hprev
        exact if_neg fun hrunning => hrun ⟨prev, hprev, hrunning⟩
      · rfl
    rw [hcall]
    refine ⟨L, h.toPlaced, fun t => ?_, fun _ => rfl, fun _ _ => ⟨rfl, fun _ => Iff.rfl⟩, rfl, fun _ => rfl⟩
    have hnot : ¬(s.current = some t ∧ (s.taskPool t).state = .running) := fun hboth => hrun ⟨t, hboth⟩
    simp [Candidate, hnot]

theorem Offered.switchTo {s s₁ : State} {L L₁ : Int → List Nat} (h : Offered s s₁ L L₁) {next : Nat}
    (hhigh : (s₁.taskPool next).state = .ready → (s₁.taskPool next).priority ≤ maxNormalPriority) :
    ∃ L', Placed (switchTo s₁ next) L' ∧ Runs s (switchTo s₁ next) L L' next := by
  have hpool (t : Nat) (ht : t ≠ next) : (Scheduler.switchTo s₁ next).taskPool t = s₁.taskPool t := by
    simp only [Scheduler.switchTo]
    split <;> simp [ht]
  have hrunning : ((Scheduler.switchTo s₁ next).taskPool next).state = .running := by
    simp [Scheduler.switchTo]
  -- It is enough to know the lists without the next task.
  suffices hlists : ∃ L', (Scheduler.switchTo s₁ next).links.Rep L' ∧
      ∀ t p, t ∈ L' p ↔ t ∈ L₁ p ∧ t ≠ next by
    obtain ⟨L', hrep, hmem⟩ := hlists
    have hplaced : Placed (Scheduler.switchTo s₁ next) L' := by
      refine ⟨hrep, fun t p => ?_⟩
      by_cases ht : t = next
      · subst ht
        simp [hmem, hrunning]
      · simp [hmem, ht, hpool t ht, h.mem_iff]
    refine ⟨L', hplaced, rfl, hrunning, fun p hp => ((hmem next p).mp hp).2 rfl, ?_, ?_⟩
    · intro prev hprev hrun hne
      have hready := (h.ready_iff prev).mpr (.inr ⟨hprev, hrun⟩)
      rw [hpool prev hne, hmem, h.mem_iff]
      exact ⟨hready, ⟨hready, h.priority prev⟩, hne⟩
    · intro t ht hnot
      obtain ⟨hsame, hlist⟩ := h.others t hnot
      refine ⟨(hpool t ht).trans hsame, fun p => ?_⟩
      simp [hmem, ht, hlist]
  by_cases hready : (s₁.taskPool next).state = .ready
  · have hlinked := (h.mem_iff next _).mpr ⟨hready, rfl⟩
    refine ⟨update L₁ (s₁.taskPool next).priority ((L₁ (s₁.taskPool next).priority).erase next), ?_, ?_⟩
    · have hlinks : (Scheduler.switchTo s₁ next).links = s₁.links.remove (s₁.taskPool next).priority next := by
        simp [Scheduler.switchTo, hready, dequeueTask_of_le (hhigh hready)]
      rw [hlinks]
      exact h.rep.remove hlinked
    · exact fun t p => h.rep.mem_erase_iff hlinked
  · refine ⟨L₁, ?_, fun t p => ?_⟩
    · have hlinks : (Scheduler.switchTo s₁ next).links = s₁.links := by
        simp [Scheduler.switchTo, hready]
      rw [hlinks]
      exact h.rep
    · refine ⟨fun ht => ⟨ht, ?_⟩, And.left⟩
      rintro rfl
      exact hready ((h.mem_iff t p).mp ht).1

theorem WellPlaced.candidate_range {s : State} {L : Int → List Nat} (h : WellPlaced s L) {t : Nat}
    (ht : Candidate s t) :
    0 ≤ (s.taskPool t).priority ∧ (s.taskPool t).priority ≤ maxNormalPriority :=
  h.range t (ht.imp_right And.left)

/-- `scheduler_schedule` runs a task of the smallest priority number among the ready ones and the
previous one if it still runs. Without any it runs the idle task, or leaves everything as it is. -/
theorem schedule_runs_most_urgent {s : State} {L : Int → List Nat} (h : WellPlaced s L)
    (henabled : s.schedulerEnabled = true) (hpreemption : s.preemptionEnabled = true) :
    ∃ L', Placed (schedulerSchedule s) L' ∧
      ((∃ t, Candidate s t) → ∃ next, Candidate s next ∧
        (∀ t, Candidate s t → (s.taskPool next).priority ≤ (s.taskPool t).priority) ∧
        Runs s (schedulerSchedule s) L L' next) ∧
      ((∀ t, ¬Candidate s t) →
        (∀ idle, s.idleTask = some idle → Runs s (schedulerSchedule s) L L' idle) ∧
        (s.idleTask = none → schedulerSchedule s = s)) := by
  obtain ⟨L₁, hoffered⟩ := h.requeueCurrent
  have hcall : schedulerSchedule s = ((firstReady (requeueCurrent s)).or s.idleTask).elim
      (requeueCurrent s) (switchTo (requeueCurrent s)) := by
    simp only [schedulerSchedule, henabled, hpreemption, pickNextTask, hoffered.idleTask]
    cases (firstReady (requeueCurrent s)).or s.idleTask <;> rfl
  have hrange (t : Nat) (ht : Candidate s t) := h.candidate_range ht
  have hswitch (next : Nat) : ∃ L', Placed (switchTo (requeueCurrent s) next) L' ∧
      Runs s (switchTo (requeueCurrent s) next) L L' next := by
    refine hoffered.switchTo fun hready => ?_
    rw [hoffered.priority]
    exact (hrange next ((hoffered.ready_iff next).mp hready)).2
  cases hfirst : firstReady (requeueCurrent s) with
  | some next =>
    obtain ⟨hready, hmin⟩ := hoffered.firstReady_some hfirst
    have hcandidate := (hoffered.ready_iff next).mp hready
    obtain ⟨L', hplaced, hruns⟩ := hswitch next
    rw [hcall, hfirst]
    refine ⟨L', hplaced, fun _ => ⟨next, hcandidate, fun t ht => ?_, hruns⟩, fun hnone => ?_⟩
    · have hle := hmin t ((hoffered.ready_iff t).mpr ht)
      simp only [hoffered.priority] at hle
      exact hle (hrange t ht).1
    · exact absurd hcandidate (hnone next)
  | none =>
    have hnone (t : Nat) : ¬Candidate s t := by
      intro ht
      obtain ⟨hlow, hhigh⟩ := hrange t ht
      rw [← hoffered.priority t] at hlow hhigh
      exact hoffered.firstReady_none hfirst t hlow hhigh ((hoffered.ready_iff t).mpr ht)
    cases hidle : s.idleTask with
    | some idle =>
      obtain ⟨L', hplaced, hruns⟩ := hswitch idle
      rw [hcall, hfirst, hidle]
      refine ⟨L', hplaced, fun hsome => hsome.elim fun t ht => absurd ht (hnone t),
        fun _ => ⟨?_, fun hidle => absurd hidle (Option.some_ne_none idle)⟩⟩
      intro i hi
      obtain rfl : idle = i := Option.some_inj.mp hi
      exact hruns
    | none =>
      have hsame : schedulerSchedule s = s := by
        rw [hcall, hfirst, hidle]
        exact hoffered.same hnone
      rw [hsame]
      exact ⟨L, h.toPlaced, fun hsome => hsome.elim fun t ht => absurd ht (hnone t),
        fun _ => ⟨fun idle hidle => absurd hidle.symm (Option.some_ne_none idle), fun _ => rfl⟩⟩

def threeTasks : State where
  taskPool t :=
    if t = 0 then { state := .running, priority := 110 }
    else if t = 1 then { state := .ready, priority := 120 }
    else if t = 2 then { state := .ready, priority := 100 }
    else {}
  links := (Bank.empty.pushFront 120 1).pushFront 100 2
  current := some 0
  schedulerEnabled := true

def threeLists : Int → List Nat := update (update (fun _ => []) 120 [1]) 100 [2]

theorem threeTasks_placed : WellPlaced threeTasks threeLists := by
  have hone : (Bank.empty.pushFront 120 1).Rep (update (fun _ : Int => ([] : List Nat)) 120 [1]) :=
    Bank.rep_empty.pushFront (by simp)
  have htwo : threeTasks.links.Rep threeLists := by
    refine hone.pushFront fun p => ?_
    by_cases hp : p = 120
    · simp [hp]
    · simp [hp]
  have hmem (t : Nat) (p : Int) : t ∈ threeLists p ↔ t = 1 ∧ p = 120 ∨ t = 2 ∧ p = 100 := by
    by_cases hlow : p = 100
    · simp [threeLists, hlow]
    · by_cases hhigh : p = 120
      · simp [threeLists, hhigh]
      · simp [threeLists, hlow, hhigh]
  refine ⟨⟨htwo, fun t p => ?_⟩, fun t ht => ?_, fun c hc p => ?_⟩
  · rw [hmem]
    simp only [threeTasks]
    split_ifs <;> simp_all [eq_comm]
  · simp only [threeTasks] at ht ⊢
    split_ifs at ht ⊢ <;> simp_all [maxNormalPriority]
  · obtain rfl : 0 = c := Option.some_inj.mp hc
    simp [hmem]

theorem urgent_task_runs : (schedulerSchedule threeTasks).current = some 2 ∧
    ∃ L', Placed (schedulerSchedule threeTasks) L' ∧ ∃ next, Candidate threeTasks next ∧
      (∀ t, Candidate threeTasks t →
        (threeTasks.taskPool next).priority ≤ (threeTasks.taskPool t).priority) ∧
      Runs threeTasks (schedulerSchedule threeTasks) threeLists L' next := by
  refine ⟨by decide, ?_⟩
  obtain ⟨L', hplaced, hruns, -⟩ := schedule_runs_most_urgent threeTasks_placed rfl rfl
  exact ⟨L', hplaced, hruns ⟨1, .inl rfl⟩⟩

end TocinOS.Scheduler

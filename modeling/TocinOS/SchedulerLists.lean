import TocinOS.Scheduler

/-! The ready lists and the states of the tasks. `Queues` is about the lists alone,
`Lists` ties them to the pool: the tasks on them are exactly the live ready ones, each
on the list of its priority. -/

namespace TocinOS.Scheduler

open Function (update)
open IntrusiveList (Bank)
open IntrusiveList.Bank (onLists)

section Fields

variable (s : State) (task : Nat) (f : Task → Task)

@[simp] theorem modify_taskPool : (s.modify task f).taskPool =
    update s.taskPool task (f (s.taskPool task)) := rfl

@[simp] theorem modify_taskBitmap : (s.modify task f).taskBitmap = s.taskBitmap := rfl

@[simp] theorem modify_links : (s.modify task f).links = s.links := rfl

@[simp] theorem modify_nrRunning : (s.modify task f).nrRunning = s.nrRunning := rfl

@[simp] theorem modify_current : (s.modify task f).current = s.current := rfl

@[simp] theorem modify_idleTask : (s.modify task f).idleTask = s.idleTask := rfl

@[simp] theorem enqueueTask_taskPool : (enqueueTask s task).taskPool = s.taskPool := by
  simp only [enqueueTask]
  split <;> rfl

@[simp] theorem enqueueTask_taskBitmap : (enqueueTask s task).taskBitmap = s.taskBitmap := by
  simp only [enqueueTask]
  split <;> rfl

@[simp] theorem enqueueTask_current : (enqueueTask s task).current = s.current := by
  simp only [enqueueTask]
  split <;> rfl

@[simp] theorem enqueueTask_idleTask : (enqueueTask s task).idleTask = s.idleTask := by
  simp only [enqueueTask]
  split <;> rfl

@[simp] theorem dequeueTask_taskPool : (dequeueTask s task).taskPool = s.taskPool := by
  simp only [dequeueTask]
  split <;> rfl

@[simp] theorem dequeueTask_taskBitmap : (dequeueTask s task).taskBitmap = s.taskBitmap := by
  simp only [dequeueTask]
  split <;> rfl

@[simp] theorem dequeueTask_current : (dequeueTask s task).current = s.current := by
  simp only [dequeueTask]
  split <;> rfl

@[simp] theorem dequeueTask_idleTask : (dequeueTask s task).idleTask = s.idleTask := by
  simp only [dequeueTask]
  split <;> rfl

end Fields

/-! ### The lists -/

structure Queues (links : Bank Int Nat) (nrRunning : BitVec 32) (L : Int → List Nat) : Prop where
  rep : links.Rep L
  range : ∀ t p, t ∈ L p → 0 ≤ p ∧ p ≤ maxNormalPriority
  below : ∀ t p, t ∈ L p → t < maxTasks
  count : nrRunning.toNat = (onLists L).ncard

variable {links : Bank Int Nat} {n : BitVec 32} {L : Int → List Nat} {t : Nat} {p : Int}

theorem Queues.subset (h : Queues links n L) : onLists L ⊆ (Finset.range maxTasks : Set Nat) :=
  fun t ⟨p, ht⟩ => Finset.mem_coe.mpr (Finset.mem_range.mpr (h.below t p ht))

theorem Queues.finite (h : Queues links n L) : (onLists L).Finite :=
  (Finset.finite_toSet _).subset h.subset

theorem Queues.count_le (h : Queues links n L) : n.toNat ≤ maxTasks := by
  have hle := Set.ncard_le_ncard h.subset (Finset.finite_toSet _)
  rwa [Set.ncard_coe_finset, Finset.card_range, ← h.count] at hle

theorem Queues.push (h : Queues links n L) (ht : t < maxTasks) (hfree : ∀ q, t ∉ L q)
    (hp : 0 ≤ p ∧ p ≤ maxNormalPriority) :
    Queues (links.pushFront p t) (n + 1) (update L p (t :: L p)) where
  rep := h.rep.pushFront hfree
  range := by
    intro u q hu
    rcases Bank.mem_push_iff.mp hu with hu | ⟨-, rfl⟩
    · exact h.range u q hu
    · exact hp
  below := by
    intro u q hu
    rcases Bank.mem_push_iff.mp hu with hu | ⟨rfl, -⟩
    · exact h.below u q hu
    · exact ht
  count := by
    have hle := h.count_le
    have hnot : t ∉ onLists L := fun ⟨q, hq⟩ => hfree q hq
    rw [Bank.onLists_push, Set.ncard_insert_of_notMem hnot h.finite, ← h.count,
      BitVec.toNat_add_of_lt]
    · rfl
    · simp only [maxTasks] at hle
      have hone : BitVec.toNat (1 : BitVec 32) = 1 := rfl
      omega

theorem Queues.remove (h : Queues links n L) (ht : t ∈ L p) :
    Queues (links.remove p t) (n - 1) (update L p ((L p).erase t)) where
  rep := h.rep.remove ht
  range := fun u q hu => h.range u q ((h.rep.mem_erase_iff ht).mp hu).1
  below := fun u q hu => h.below u q ((h.rep.mem_erase_iff ht).mp hu).1
  count := by
    have hmem : t ∈ onLists L := ⟨p, ht⟩
    have hpos : 0 < (onLists L).ncard :=
      (Set.ncard_pos h.finite).mpr ⟨t, hmem⟩
    rw [h.rep.onLists_erase ht, Set.ncard_sdiff_singleton_of_mem hmem, ← h.count,
      BitVec.toNat_sub_of_le]
    · rfl
    · rw [← h.count] at hpos
      exact BitVec.le_def.mpr hpos

/-! ### Lists and task states -/

structure Lists (s : State) (L : Int → List Nat) : Prop where
  queues : Queues s.links s.nrRunning L
  mem_iff : ∀ t p, t ∈ L p ↔
    s.taskBitmap t = true ∧ (s.taskPool t).state = .ready ∧ (s.taskPool t).priority = p
  live : ∀ t, s.taskBitmap t = true → t < maxTasks

theorem Lists.notMem {s : State} (h : Lists s L) (ht : (s.taskPool t).state ≠ .ready) (p : Int) :
    t ∉ L p :=
  fun hmem => ht ((h.mem_iff t p).mp hmem).2.1

theorem Lists.congr {s s' : State} (h : Lists s L) (hlinks : s'.links = s.links)
    (hnr : s'.nrRunning = s.nrRunning)
    (hmem : ∀ t p, (s'.taskBitmap t = true ∧ (s'.taskPool t).state = .ready ∧
      (s'.taskPool t).priority = p) ↔ (s.taskBitmap t = true ∧ (s.taskPool t).state = .ready ∧
      (s.taskPool t).priority = p))
    (hlive : ∀ t, s'.taskBitmap t = true → t < maxTasks) : Lists s' L where
  queues := by
    rw [hlinks, hnr]
    exact h.queues
  mem_iff := fun t p => (h.mem_iff t p).trans (hmem t p).symm
  live := hlive

theorem enqueueTask_of_le {s : State} (h : (s.taskPool t).priority ≤ maxNormalPriority) :
    enqueueTask s t = { s with
      links := s.links.pushFront (s.taskPool t).priority t, nrRunning := s.nrRunning + 1 } :=
  if_neg (Int.not_lt.mpr h)

theorem dequeueTask_of_le {s : State} (h : (s.taskPool t).priority ≤ maxNormalPriority) :
    dequeueTask s t = { s with
      links := s.links.remove (s.taskPool t).priority t, nrRunning := s.nrRunning - 1 } :=
  if_neg (Int.not_lt.mpr h)

theorem Lists.enqueue {s : State} (h : Lists s L) {f : Task → Task} (hlive : s.taskBitmap t = true)
    (hoff : (s.taskPool t).state ≠ .ready) (hready : (f (s.taskPool t)).state = .ready)
    (hp : 0 ≤ (f (s.taskPool t)).priority ∧ (f (s.taskPool t)).priority ≤ maxNormalPriority) :
    ∃ L', Lists (enqueueTask (s.modify t f) t) L' := by
  have hself : (s.modify t f).taskPool t = f (s.taskPool t) := by simp
  have hpush := h.queues.push (h.live t hlive) (h.notMem hoff) hp
  refine ⟨update L (f (s.taskPool t)).priority (t :: L (f (s.taskPool t)).priority), ?_, ?_, ?_⟩
  · rw [enqueueTask_of_le (by rw [hself]; exact hp.2), hself]
    exact hpush
  · intro u p
    rw [Bank.mem_push_iff, h.mem_iff, enqueueTask_taskPool, enqueueTask_taskBitmap]
    by_cases hu : u = t
    · subst hu
      simp [hlive, hoff, hready, eq_comm]
    · simp [hu]
  · simpa using h.live

theorem Lists.dequeue {s : State} (h : Lists s L) {f : Task → Task} (ht : t ∈ L p)
    (hf : (f (s.taskPool t)).state ≠ .ready) : ∃ L', Lists ((dequeueTask s t).modify t f) L' := by
  obtain ⟨hlive, hready, rfl⟩ := (h.mem_iff t p).mp ht
  have hremove := h.queues.remove ht
  refine ⟨update L (s.taskPool t).priority ((L (s.taskPool t).priority).erase t), ?_, ?_, ?_⟩
  · rw [modify_links, modify_nrRunning, dequeueTask_of_le (h.queues.range t _ ht).2]
    exact hremove
  · intro u q
    rw [h.queues.rep.mem_erase_iff ht, h.mem_iff]
    by_cases hu : u = t
    · subst hu
      simp [hf]
    · simp [hu]
  · simpa using h.live

theorem Lists.requeue {s : State} (h : Lists s L) {f : Task → Task} (ht : t ∈ L p)
    (hf : (f (s.taskPool t)).state = .ready)
    (hp : 0 ≤ (f (s.taskPool t)).priority ∧ (f (s.taskPool t)).priority ≤ maxNormalPriority) :
    ∃ L', Lists (requeueWith s t f) L' := by
  obtain ⟨hlive, hready, rfl⟩ := (h.mem_iff t p).mp ht
  have hremove := h.queues.remove ht
  have hoff : ∀ q, t ∉ update L (s.taskPool t).priority ((L (s.taskPool t).priority).erase t) q :=
    fun q hq => ((h.queues.rep.mem_erase_iff ht).mp hq).2 rfl
  have hself : ((dequeueTask s t).modify t f).taskPool t = f (s.taskPool t) := by simp
  have hpush := hremove.push (h.live t hlive) hoff hp
  generalize hL : update L (s.taskPool t).priority ((L (s.taskPool t).priority).erase t) = K at *
  refine ⟨update K (f (s.taskPool t)).priority (t :: K (f (s.taskPool t)).priority), ?_, ?_, ?_⟩
  · rw [requeueWith, enqueueTask_of_le (by rw [hself]; exact hp.2), hself, modify_links,
      modify_nrRunning, dequeueTask_of_le (h.queues.range t _ ht).2]
    exact hpush
  · intro u q
    rw [Bank.mem_push_iff, ← hL, h.queues.rep.mem_erase_iff ht, h.mem_iff]
    by_cases hu : u = t
    · subst hu
      simp [requeueWith, hlive, hf, eq_comm]
    · simp [requeueWith, hu]
  · simpa [requeueWith] using h.live

theorem firstReady_mem {s : State} (h : Lists s L) (ht : firstReady s = some t) : ∃ p, t ∈ L p := by
  obtain ⟨i, -, hi⟩ := List.exists_of_findSome?_eq_some ht
  rw [h.queues.rep.head] at hi
  exact ⟨i, List.mem_of_mem_head? hi⟩

theorem firstReady_eq_none {s : State} (h : Lists s L) (hs : firstReady s = none) (t : Nat)
    (p : Int) : t ∉ L p := by
  intro ht
  obtain ⟨hlow, hhigh⟩ := h.queues.range t p ht
  have hmem : p.toNat ∈ List.range 140 := by
    rw [List.mem_range, Int.toNat_lt hlow]
    exact Int.lt_of_le_of_lt hhigh (by decide)
  have hnone := List.findSome?_eq_none_iff.mp hs p.toNat hmem
  rw [Int.toNat_of_nonneg hlow, h.queues.rep.head, List.head?_eq_none_iff] at hnone
  rw [hnone] at ht
  cases ht

end TocinOS.Scheduler

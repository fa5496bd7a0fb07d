import TocinOS.PmmRuns
import TocinOS.SchedulerCalls

/-! The stacks of kernel tasks (`task_create`, `task_create_ex`) and of user processes
(`usermode_create_process` of `kernel/usermode.c`), with the pages they come from. -/

namespace TocinOS.Stacks

open Function
open Scheduler (SchedPolicy allocTaskId)
open Pmm (pageSize pmmAllocPage pmmFreePage)

abbrev maxProcesses : Nat := 64
abbrev defaultStackSize : BitVec 32 := 16384

inductive ProcessState where
  | ready
  | running
  | blocked
  | terminated
deriving DecidableEq

structure UserProcess where
  pid : BitVec 32 := 0
  esp : BitVec 32 := 0
  kernelStack : BitVec 32 := 0
  state : ProcessState := .ready

structure State where
  sched : Scheduler.State
  pmm : Pmm.State
  stackSize : Nat → BitVec 32 := fun _ => 0
  esp : Nat → BitVec 32 := fun _ => 0
  processTable : Nat → UserProcess := fun _ => {}
  nextPid : BitVec 32 := 1
  usermodeInitialized : Bool

def taskCreateEx (s : State) (policy : SchedPolicy) (priority : Int) (stackSize : BitVec 32) : Int × State :=
  match allocTaskId s.sched with
  | none => (-1, s)
  | some task =>
    let size := if stackSize < 4096 then 4096 else stackSize
    let alloc := pmmAllocPage s.pmm
    let created := Scheduler.taskCreateEx s.sched policy priority alloc.2
    let s := { s with
      sched := created.2, pmm := alloc.1, stackSize := update s.stackSize task size }
    if alloc.2 = 0 then (created.1, s)
    else (created.1, { s with esp := update s.esp task (BitVec.ofNat 32 alloc.2 + size) })

def taskCreate (s : State) (policy : SchedPolicy) (priority : Int) : Int × State :=
  taskCreateEx s policy priority defaultStackSize

def allocateProcess (s : State) : Option Nat :=
  (List.range maxProcesses).find? fun i =>
    (s.processTable i).state = .terminated ∨ (s.processTable i).pid = 0

def State.modifyProcess (s : State) (i : Nat) (f : UserProcess → UserProcess) : State :=
  { s with processTable := update s.processTable i (f (s.processTable i)) }

def usermodeCreateProcess (s : State) (entryPoint : BitVec 32) : Int × State :=
  if s.usermodeInitialized = false ∨ entryPoint = 0 then (-1, s)
  else
    match allocateProcess s with
    | none => (-1, s)
    | some i =>
      let s := { s.modifyProcess i fun p => { p with pid := s.nextPid } with nextPid := s.nextPid + 1 }
      let kernel := pmmAllocPage s.pmm
      let kernelStack := BitVec.ofNat 32 kernel.2 + 0x2000
      let s := { s.modifyProcess i fun p => { p with kernelStack } with pmm := kernel.1 }
      if kernelStack = 0 then (-1, s)
      else
        let user := pmmAllocPage s.pmm
        let userStack := BitVec.ofNat 32 user.2 + 0x2000
        if userStack = 0 then (-1, { s with pmm := pmmFreePage user.1 (kernelStack - 0x2000).toNat })
        else (0, { s.modifyProcess i fun p => { p with esp := userStack, state := .ready } with pmm := user.1 })

/-! ### Whose stacks lie where -/

inductive Owner where
  | task (i : Nat)
  | process (i : Nat)
deriving DecidableEq

/-- A task has one stack; a process has a kernel stack and a user stack of 8 KiB each. -/
inductive Stack where
  | task (i : Nat)
  | kernel (i : Nat)
  | user (i : Nat)
deriving DecidableEq

def Stack.owner : Stack → Owner
  | .task i => .task i
  | .kernel i | .user i => .process i

def State.Live (s : State) : Owner → Prop
  | .task i => s.sched.taskBitmap i = true
  | .process i => (s.processTable i).pid ≠ 0 ∧ (s.processTable i).state ≠ .terminated

def State.base (s : State) : Stack → BitVec 32
  | .task i => BitVec.ofNat 32 (s.sched.taskPool i).stackBase
  | .kernel i => (s.processTable i).kernelStack - 0x2000
  | .user i => (s.processTable i).esp - 0x2000

def State.pointer (s : State) : Stack → BitVec 32
  | .task i => s.esp i
  | .kernel i => (s.processTable i).kernelStack
  | .user i => (s.processTable i).esp

def State.Covers (s : State) (stack : Stack) (a : BitVec 32) : Prop :=
  (a - s.base stack).toNat < (s.pointer stack - s.base stack).toNat

structure Config where
  state : State
  pages : Owner → List Nat

inductive Call where
  | taskCreate (policy : SchedPolicy) (priority : Int)
  | taskCreateEx (policy : SchedPolicy) (priority : Int) (stackSize : BitVec 32)
  | usermodeCreateProcess (entryPoint : BitVec 32)

def pagesOfTask (c : Config) : Owner → List Nat :=
  match allocTaskId c.state.sched with
  | none => c.pages
  | some task => if (pmmAllocPage c.state.pmm).2 = 0 then c.pages
    else update c.pages (.task task) [(pmmAllocPage c.state.pmm).2]

def pagesOfProcess (c : Config) : Owner → List Nat :=
  let kernel := pmmAllocPage c.state.pmm
  let user := pmmAllocPage kernel.1
  match allocateProcess c.state with
  | none => c.pages
  | some i => update c.pages (.process i) ([kernel.2, user.2].filter (· ≠ 0))

def Config.call (c : Config) : Call → Config
  | .taskCreate policy priority => ⟨(taskCreate c.state policy priority).2, pagesOfTask c⟩
  | .taskCreateEx policy priority stackSize =>
    ⟨(taskCreateEx c.state policy priority stackSize).2, pagesOfTask c⟩
  | .usermodeCreateProcess entryPoint =>
    ⟨(usermodeCreateProcess c.state entryPoint).2,
      if c.state.usermodeInitialized = false ∨ entryPoint = 0 then c.pages else pagesOfProcess c⟩

def OnPages (pages : List Nat) (a : BitVec 32) : Prop :=
  ∃ p ∈ pages, p ≤ a.toNat ∧ a.toNat < p + pageSize

structure Sound (c : Config) : Prop where
  inside : ∀ stack, c.state.Live stack.owner → ∀ a, c.state.Covers stack a → OnPages (c.pages stack.owner) a
  allocated : ∀ owner, c.state.Live owner → ∀ p ∈ c.pages owner,
    Bitmap.test c.state.pmm.memoryBitmap (p / pageSize) = true
  disjoint : ∀ stack stack', stack ≠ stack' → c.state.Live stack.owner → c.state.Live stack'.owner →
    ∀ a, c.state.Covers stack a → ¬c.state.Covers stack' a

def NoPage (s : State) : Prop := ∀ p < Pmm.maxPages, Bitmap.test s.pmm.memoryBitmap p = true

def Conforms (c : Config) : Call → Prop
  | .taskCreate _ _ => allocTaskId c.state.sched = none ∨ NoPage c.state
  | .taskCreateEx _ _ stackSize =>
    allocTaskId c.state.sched = none ∨ NoPage c.state ∨ stackSize.toNat ≤ pageSize
  | .usermodeCreateProcess entryPoint => c.state.usermodeInitialized = false ∨ entryPoint = 0

def Step (ok : Config → Call → Prop) (c c' : Config) : Prop := ∃ call, ok c call ∧ c' = c.call call

structure Start (c : Config) : Prop where
  pmm : ∃ reserved out, Pmm.Inv c.state.pmm reserved out
  noTask : ∀ i, c.state.sched.taskBitmap i = false
  noProcess : ∀ i, c.state.processTable i = {}
  nextPid : c.state.nextPid = 1

/-! ### Pages and ranges -/

theorem sub_lt_iff {a n : Nat} {x : BitVec 32} (h : a + n ≤ 2 ^ 32) :
    (x - BitVec.ofNat 32 a).toNat < n ↔ a ≤ x.toNat ∧ x.toNat < a + n := by
  have := x.isLt
  rw [BitVec.toNat_sub, BitVec.toNat_ofNat]
  omega

theorem add_sub_base (base size : BitVec 32) : base + size - base = size := by
  rw [BitVec.add_comm, BitVec.add_sub_cancel]

theorem ofNat_add_sub (a n : Nat) : BitVec.ofNat 32 (a + n) - BitVec.ofNat 32 a = BitVec.ofNat 32 n := by
  rw [BitVec.ofNat_add, add_sub_base]

theorem page_of_mem {pmm : Pmm.State} {reserved : Nat → Prop} {out : List Nat}
    (h : Pmm.Inv pmm reserved out) {a : Nat} (ha : a ∈ out) :
    ∃ p, a = p * 4096 ∧ 512 ≤ p ∧ p < 32768 ∧ Bitmap.test pmm.memoryBitmap p = true := by
  obtain ⟨p, hp, hreserved, rfl⟩ := h.given a ha
  have hlow : ¬p < 512 := fun hlt => hreserved (h.low p hlt)
  exact ⟨p, rfl, by omega, hp, (h.counts.bits p hp).mpr (.inr ha)⟩

theorem noPage_iff {s : State} {reserved : Nat → Prop} {out : List Nat} (h : Pmm.Inv s.pmm reserved out) :
    NoPage s ↔ (pmmAllocPage s.pmm).2 = 0 := by
  rcases h.alloc with ⟨he, hall⟩ | ⟨p, hp, hreserved, hout, hne, -, he, -⟩
  · rw [he]
    exact iff_of_true (fun p hp => (h.counts.bits p hp).mpr (hall p hp)) rfl
  · rw [he]
    refine iff_of_false (fun hall => ?_) hne
    exact ((h.counts.bits p hp).mp (hall p hp)).elim hreserved hout

theorem schedCreate_spec {s : Scheduler.State} {task : Nat} (halloc : allocTaskId s = some task)
    (policy : SchedPolicy) (priority : Int) (page : Nat) :
    (Scheduler.taskCreateEx s policy priority page).2.taskBitmap =
        (if page = 0 then s.taskBitmap else update s.taskBitmap task true) ∧
      (∀ i, i ≠ task → (Scheduler.taskCreateEx s policy priority page).2.taskPool i = s.taskPool i) ∧
      ((Scheduler.taskCreateEx s policy priority page).2.taskPool task).stackBase = page := by
  simp only [Scheduler.taskCreateEx, halloc]
  split_ifs
  · refine ⟨rfl, fun i hi => ?_, ?_⟩ <;> simp [*]
  · refine ⟨by simp [Scheduler.State.setState], fun i hi => ?_, ?_⟩ <;>
      simp [Scheduler.State.setState, *]

/-! ### The tasks of conforming runs -/

structure Inv (c : Config) (reserved : Nat → Prop) (out : List Nat) : Prop where
  pmm : Pmm.Inv c.state.pmm reserved out
  page : ∀ i, c.state.sched.taskBitmap i = true → (c.state.sched.taskPool i).stackBase ∈ out
  pages : ∀ i, c.state.sched.taskBitmap i = true →
    c.pages (.task i) = [(c.state.sched.taskPool i).stackBase]
  pointer : ∀ i, c.state.sched.taskBitmap i = true →
    c.state.esp i = BitVec.ofNat 32 (c.state.sched.taskPool i).stackBase + 4096
  apart : ∀ i j, i ≠ j → c.state.sched.taskBitmap i = true → c.state.sched.taskBitmap j = true →
    (c.state.sched.taskPool i).stackBase ≠ (c.state.sched.taskPool j).stackBase
  noProcess : ∀ i, c.state.processTable i = {}
  nextPid : c.state.nextPid = 1

theorem Start.inv {c : Config} (h : Start c) : ∃ reserved out, Inv c reserved out := by
  obtain ⟨reserved, out, hpmm⟩ := h.pmm
  have hnone (i : Nat) (hi : c.state.sched.taskBitmap i = true) : False :=
    absurd ((h.noTask i).symm.trans hi) nofun
  exact ⟨reserved, out, hpmm, fun i hi => (hnone i hi).elim, fun i hi => (hnone i hi).elim,
    fun i hi => (hnone i hi).elim, fun i _ _ hi => (hnone i hi).elim, h.noProcess, h.nextPid⟩

section Soundness

variable {c : Config} {reserved : Nat → Prop} {out : List Nat}

theorem Inv.live_task (h : Inv c reserved out) {stack : Stack} (hlive : c.state.Live stack.owner) :
    ∃ i, stack = .task i ∧ c.state.sched.taskBitmap i = true := by
  cases stack with
  | task i => exact ⟨i, rfl, hlive⟩
  | kernel i => exact absurd (congrArg UserProcess.pid (h.noProcess i)) hlive.1
  | user i => exact absurd (congrArg UserProcess.pid (h.noProcess i)) hlive.1

theorem Inv.covers_iff (h : Inv c reserved out) {i : Nat} (hi : c.state.sched.taskBitmap i = true)
    (a : BitVec 32) : c.state.Covers (.task i) a ↔
      (c.state.sched.taskPool i).stackBase ≤ a.toNat ∧
        a.toNat < (c.state.sched.taskPool i).stackBase + 4096 := by
  obtain ⟨p, hp, -, hlt, -⟩ := page_of_mem h.pmm (h.page i hi)
  have hsize : (c.state.pointer (.task i) - c.state.base (.task i)).toNat = 4096 := by
    have hpointer := h.pointer i hi
    simp only [State.pointer, State.base, hpointer]
    rw [add_sub_base]
    rfl
  rw [State.Covers, hsize]
  exact sub_lt_iff (by omega)

theorem Inv.sound (h : Inv c reserved out) : Sound c := by
  constructor
  · intro stack hlive a ha
    obtain ⟨i, rfl, hi⟩ := h.live_task hlive
    refine ⟨_, ?_, (h.covers_iff hi a).mp ha⟩
    rw [Stack.owner, h.pages i hi]
    exact List.mem_singleton_self _
  · intro owner hlive p hp
    cases owner with
    | task i =>
      rw [h.pages i hlive, List.mem_singleton] at hp
      obtain ⟨q, hq, -, -, hused⟩ := page_of_mem h.pmm (h.page i hlive)
      rw [hp, hq, Nat.mul_div_cancel q (by decide)]
      exact hused
    | process i => exact absurd (congrArg UserProcess.pid (h.noProcess i)) hlive.1
  · intro stack stack' hne hlive hlive' a ha ha'
    obtain ⟨i, rfl, hi⟩ := h.live_task hlive
    obtain ⟨j, rfl, hj⟩ := h.live_task hlive'
    have hbases := h.apart i j (fun heq => hne (congrArg Stack.task heq)) hi hj
    rw [h.covers_iff hi] at ha
    rw [h.covers_iff hj] at ha'
    obtain ⟨p, hp, -⟩ := page_of_mem h.pmm (h.page i hi)
    obtain ⟨q, hq, -⟩ := page_of_mem h.pmm (h.page j hj)
    omega

end Soundness

/-! ### One call -/

theorem stackSize_eq {stackSize : BitVec 32} (h : stackSize.toNat ≤ pageSize) :
    (if stackSize < 4096 then 4096 else stackSize) = (4096 : BitVec 32) := by
  split_ifs with hsmall
  · rfl
  · have hle : 4096 ≤ stackSize.toNat := Nat.le_of_not_lt hsmall
    exact BitVec.eq_of_toNat_eq (Nat.le_antisymm h hle)

section Create

variable {c : Config} {reserved : Nat → Prop} {out : List Nat} {policy : SchedPolicy} {priority : Int}
  {stackSize : BitVec 32} {task : Nat}

theorem Inv.create_failed (h : Inv c reserved out) (halloc : allocTaskId c.state.sched = some task)
    (hpage : (pmmAllocPage c.state.pmm).2 = 0) :
    Inv (c.call (.taskCreateEx policy priority stackSize)) reserved out := by
  have hpmm : (pmmAllocPage c.state.pmm).1 = c.state.pmm := by
    rcases h.pmm.alloc with ⟨he, -⟩ | ⟨p, -, -, -, hne, -, he, -⟩
    · rw [he]
    · rw [he] at hpage
      exact absurd hpage hne
  obtain ⟨hbitmap, hpool, -⟩ := schedCreate_spec halloc policy priority (pmmAllocPage c.state.pmm).2
  rw [if_pos hpage] at hbitmap
  have hfree := (Scheduler.allocTaskId_spec halloc).2
  have hne (i : Nat) (hi : c.state.sched.taskBitmap i = true) : i ≠ task :=
    fun heq => absurd ((heq ▸ hfree).symm.trans hi) nofun
  have hstate : (c.call (.taskCreateEx policy priority stackSize)).state = { c.state with
      sched := (Scheduler.taskCreateEx c.state.sched policy priority (pmmAllocPage c.state.pmm).2).2
      stackSize := update c.state.stackSize task (if stackSize < 4096 then 4096 else stackSize) } := by
    simp only [Config.call, taskCreateEx, halloc, if_pos hpage]
    rw [hpmm]
  have hpages : (c.call (.taskCreateEx policy priority stackSize)).pages = c.pages := by
    simp only [Config.call, pagesOfTask, halloc, if_pos hpage]
  generalize c.call (.taskCreateEx policy priority stackSize) = c' at hstate hpages
  obtain ⟨s', pages'⟩ := c'
  dsimp only at hstate hpages
  subst hstate hpages
  refine ⟨h.pmm, ?_, ?_, ?_, ?_, h.noProcess, h.nextPid⟩ <;> dsimp only <;> rw [hbitmap]
  · intro i hi
    rw [hpool i (hne i hi)]
    exact h.page i hi
  · intro i hi
    rw [hpool i (hne i hi)]
    exact h.pages i hi
  · intro i hi
    rw [hpool i (hne i hi)]
    exact h.pointer i hi
  · intro i j hij hi hj
    rw [hpool i (hne i hi), hpool j (hne j hj)]
    exact h.apart i j hij hi hj

theorem create_state (halloc : allocTaskId c.state.sched = some task)
    (hpage : (pmmAllocPage c.state.pmm).2 ≠ 0) :
    c.call (.taskCreateEx policy priority stackSize) = ⟨{ c.state with
      sched := (Scheduler.taskCreateEx c.state.sched policy priority (pmmAllocPage c.state.pmm).2).2
      pmm := (pmmAllocPage c.state.pmm).1
      stackSize := update c.state.stackSize task (if stackSize < 4096 then 4096 else stackSize)
      esp := update c.state.esp task (BitVec.ofNat 32 (pmmAllocPage c.state.pmm).2 +
        if stackSize < 4096 then 4096 else stackSize) },
      update c.pages (.task task) [(pmmAllocPage c.state.pmm).2]⟩ := by
  simp only [Config.call, taskCreateEx, pagesOfTask, halloc, if_neg hpage]

theorem Inv.create (h : Inv c reserved out) (halloc : allocTaskId c.state.sched = some task)
    (hpage : (pmmAllocPage c.state.pmm).2 ≠ 0) (hsize : stackSize.toNat ≤ pageSize) :
    Inv (c.call (.taskCreateEx policy priority stackSize)) reserved ((pmmAllocPage c.state.pmm).2 :: out) := by
  obtain ⟨hbitmap, hpool, hbase⟩ := schedCreate_spec halloc policy priority (pmmAllocPage c.state.pmm).2
  rw [if_neg hpage] at hbitmap
  have hnew : Pmm.Inv (pmmAllocPage c.state.pmm).1 reserved ((pmmAllocPage c.state.pmm).2 :: out) ∧
      (pmmAllocPage c.state.pmm).2 ∉ out := by
    rcases h.pmm.alloc with ⟨he, -⟩ | ⟨p, -, -, hout, -, -, he, hinv⟩
    · exact absurd (by rw [he]) hpage
    · rw [he]
      exact ⟨hinv, hout⟩
  rw [create_state halloc hpage, stackSize_eq hsize]
  generalize pmmAllocPage c.state.pmm = alloc at *
  generalize (Scheduler.taskCreateEx c.state.sched policy priority alloc.2).2 = sched at *
  have hold (i : Nat) (hi : sched.taskBitmap i = true) (hne : i ≠ task) :
      c.state.sched.taskBitmap i = true := by
    rw [hbitmap, update_of_ne hne] at hi
    exact hi
  have hother (i : Nat) (hi : sched.taskBitmap i = true) (hne : i ≠ task) :
      (sched.taskPool i).stackBase ≠ alloc.2 := by
    rw [hpool i hne]
    exact fun heq => hnew.2 (heq ▸ h.page i (hold i hi hne))
  refine ⟨hnew.1, ?_, ?_, ?_, ?_, h.noProcess, h.nextPid⟩ <;> dsimp only
  · intro i hi
    by_cases hit : i = task
    · rw [hit, hbase]
      exact List.mem_cons_self
    · rw [hpool i hit]
      exact List.mem_cons_of_mem _ (h.page i (hold i hi hit))
  · intro i hi
    by_cases hit : i = task
    · rw [hit, hbase, update_self]
    · rw [hpool i hit, update_of_ne fun heq => hit (Owner.task.inj heq)]
      exact h.pages i (hold i hi hit)
  · intro i hi
    by_cases hit : i = task
    · rw [hit, hbase, update_self]
    · rw [hpool i hit, update_of_ne hit]
      exact h.pointer i (hold i hi hit)
  · intro i j hij hi hj
    by_cases hit : i = task
    · subst hit
      rw [hbase]
      exact (hother j hj (Ne.symm hij)).symm
    · by_cases hjt : j = task
      · subst hjt
        rw [hbase]
        exact hother i hi hit
      · rw [hpool i hit, hpool j hjt]
        exact h.apart i j hij (hold i hi hit) (hold j hj hjt)

theorem Inv.create_unsound (h : Inv c reserved out) (halloc : allocTaskId c.state.sched = some task)
    (hpage : (pmmAllocPage c.state.pmm).2 ≠ 0) (hsize : pageSize < stackSize.toNat) :
    ¬Sound (c.call (.taskCreateEx policy priority stackSize)) := by
  obtain ⟨hbitmap, -, hbase⟩ := schedCreate_spec halloc policy priority (pmmAllocPage c.state.pmm).2
  rw [if_neg hpage] at hbitmap
  have hlt : (pmmAllocPage c.state.pmm).2 + 4096 < 2 ^ 32 := by
    rcases h.pmm.alloc with ⟨he, -⟩ | ⟨p, hp, -, -, -, -, he, -⟩
    · exact absurd (by rw [he]) hpage
    · rw [he]
      simp only [pageSize]
      have : p < 32768 := hp
      omega
  have hlarge : ¬stackSize < 4096 := fun hlt => absurd hsize (Nat.not_lt.mpr (Nat.le_of_lt hlt))
  rw [create_state halloc hpage, if_neg hlarge]
  generalize pmmAllocPage c.state.pmm = alloc at *
  generalize (Scheduler.taskCreateEx c.state.sched policy priority alloc.2).2 = sched at *
  intro hsound
  -- The first byte behind the page belongs to the stack.
  have hlive : sched.taskBitmap task = true := by
    rw [hbitmap, update_self]
  obtain ⟨p, hp, hle, hend⟩ := hsound.inside (.task task) hlive (BitVec.ofNat 32 (alloc.2 + 4096)) (by
    simp only [State.Covers, State.base, State.pointer, hbase, update_self]
    rw [ofNat_add_sub, add_sub_base]
    exact hsize)
  simp only [Stack.owner, update_self, List.mem_singleton] at hp
  rw [BitVec.toNat_ofNat, Nat.mod_eq_of_lt hlt] at hle hend
  simp only [pageSize] at hend
  omega

end Create

theorem alloc_twice {s : Pmm.State} {reserved : Nat → Prop} {out : List Nat} (h : Pmm.Inv s reserved out) :
    (pmmAllocPage s).2 < 2 ^ 27 ∧ (pmmAllocPage (pmmAllocPage s).1).2 < 2 ^ 27 ∧
      ((pmmAllocPage s).2 ≠ 0 → (pmmAllocPage (pmmAllocPage s).1).2 + 4096 < (pmmAllocPage s).2 ∨
        (pmmAllocPage s).2 ≤ (pmmAllocPage (pmmAllocPage s).1).2) := by
  rcases h.alloc with ⟨he, -⟩ | ⟨p, hp, hreserved, -, -, hfirst, he, hinv⟩
  · simp [he]
  · have hlow : ¬p < 512 := fun hlt => hreserved (h.low p hlt)
    have hp' : p < 32768 := hp
    rw [he]
    dsimp only
    rcases hinv.alloc with ⟨he', -⟩ | ⟨q, hq, hreserved', hout, -, -, he', -⟩
    · rw [he']
      simp only [pageSize]
      omega
    · have hle : p ≤ q := by
        by_contra hlt
        refine (hfirst q (Nat.lt_of_not_le hlt)).elim hreserved' fun hmem => ?_
        exact hout (List.mem_cons_of_mem _ hmem)
      have hq' : q < 32768 := hq
      rw [he']
      simp only [pageSize]
      omega

section Calls

variable {c : Config} {reserved : Nat → Prop} {out : List Nat} (h : Inv c reserved out)

include h

theorem Inv.allocateProcess : allocateProcess c.state = some 0 := by
  have hfree : (fun i => decide ((c.state.processTable i).state = .terminated ∨
      (c.state.processTable i).pid = 0)) = fun _ => true := by
    funext i
    simp [h.noProcess i]
  rw [Stacks.allocateProcess, hfree]
  rfl

theorem Inv.process_unsound {entryPoint : BitVec 32}
    (hok : ¬(c.state.usermodeInitialized = false ∨ entryPoint = 0)) :
    ¬Sound (c.call (.usermodeCreateProcess entryPoint)) := by
  obtain ⟨hkernel, huser, horder⟩ := alloc_twice h.pmm
  have hne {a : Nat} (ha : a < 2 ^ 27) : BitVec.ofNat 32 a + 0x2000 ≠ 0 := by
    intro heq
    have := congrArg BitVec.toNat heq
    rw [BitVec.toNat_add, BitVec.toNat_ofNat] at this
    simp at this
    omega
  have hprocess : (c.call (.usermodeCreateProcess entryPoint)).state.processTable 0 =
      ⟨1, BitVec.ofNat 32 (pmmAllocPage (pmmAllocPage c.state.pmm).1).2 + 0x2000,
        BitVec.ofNat 32 (pmmAllocPage c.state.pmm).2 + 0x2000, .ready⟩ := by
    simp only [Config.call, usermodeCreateProcess, if_neg hok, h.allocateProcess]
    split_ifs with hkernelStack huserStack
    · exact absurd hkernelStack (hne hkernel)
    · exact absurd huserStack (hne huser)
    · simp [State.modifyProcess, h.nextPid]
  have hpages : (c.call (.usermodeCreateProcess entryPoint)).pages (.process 0) =
      [(pmmAllocPage c.state.pmm).2, (pmmAllocPage (pmmAllocPage c.state.pmm).1).2].filter (· ≠ 0) := by
    simp only [Config.call, if_neg hok, pagesOfProcess, h.allocateProcess, update_self]
  generalize (pmmAllocPage (pmmAllocPage c.state.pmm).1).2 = user at *
  generalize (pmmAllocPage c.state.pmm).2 = kernel at *
  intro hsound
  have hlive : (c.call (.usermodeCreateProcess entryPoint)).state.Live (.process 0) := by
    rw [State.Live, hprocess]
    exact ⟨fun hpid : (1 : BitVec 32) = 0 => absurd hpid (by decide), nofun⟩
  obtain ⟨p, hp, hle, hend⟩ := hsound.inside (.user 0) hlive (BitVec.ofNat 32 (user + 4096)) (by
    simp only [State.Covers, State.base, State.pointer, hprocess, BitVec.add_sub_cancel]
    rw [ofNat_add_sub, add_sub_base]
    decide)
  rw [Stack.owner, hpages, List.mem_filter] at hp
  rw [BitVec.toNat_ofNat, Nat.mod_eq_of_lt (by omega)] at hle hend
  simp only [List.mem_cons, List.not_mem_nil, or_false, decide_eq_true_eq] at hp
  simp only [pageSize] at hend
  obtain ⟨rfl | rfl, hpos⟩ := hp
  · have := horder hpos
    omega
  · omega

/-! ### Runs -/

theorem Inv.createEx_iff (policy : SchedPolicy) (priority : Int) (stackSize : BitVec 32) :
    (Conforms c (.taskCreateEx policy priority stackSize) →
      ∃ out', Inv (c.call (.taskCreateEx policy priority stackSize)) reserved out') ∧
    (Sound (c.call (.taskCreateEx policy priority stackSize)) →
      Conforms c (.taskCreateEx policy priority stackSize)) := by
  rw [Conforms, noPage_iff h.pmm]
  cases halloc : allocTaskId c.state.sched with
  | none =>
    have hsame : c.call (.taskCreateEx policy priority stackSize) = c := by
      simp only [Config.call, taskCreateEx, pagesOfTask, halloc]
    rw [hsame]
    exact ⟨fun _ => ⟨out, h⟩, fun _ => .inl rfl⟩
  | some task =>
    by_cases hpage : (pmmAllocPage c.state.pmm).2 = 0
    · exact ⟨fun _ => ⟨out, h.create_failed halloc hpage⟩, fun _ => .inr (.inl hpage)⟩
    · by_cases hsize : stackSize.toNat ≤ pageSize
      · exact ⟨fun _ => ⟨_, h.create halloc hpage hsize⟩, fun _ => .inr (.inr hsize)⟩
      · refine ⟨fun hor => ?_, fun hsound => ?_⟩
        · rcases hor with hnone | hzero | hle
          · cases hnone
          · exact absurd hzero hpage
          · exact absurd hle hsize
        · exact absurd hsound (h.create_unsound halloc hpage (Nat.lt_of_not_le hsize))

theorem Inv.call_iff (call : Call) :
    (Conforms c call → ∃ out', Inv (c.call call) reserved out') ∧
      (Sound (c.call call) → Conforms c call) := by
  cases call with
  | taskCreate policy priority =>
    obtain ⟨hinv, hsound⟩ := h.createEx_iff policy priority defaultStackSize
    have hsize : ¬(defaultStackSize.toNat ≤ pageSize) := by decide
    refine ⟨fun hconforms => hinv (hconforms.imp_right .inl), fun hs => ?_⟩
    exact (hsound hs).imp_right fun hor => hor.resolve_right hsize
  | taskCreateEx policy priority stackSize => exact h.createEx_iff policy priority stackSize
  | usermodeCreateProcess entryPoint =>
    refine ⟨fun hconforms => ⟨out, ?_⟩, fun hsound => ?_⟩
    · have hsame : c.call (.usermodeCreateProcess entryPoint) = c := by
        simp only [Config.call, usermodeCreateProcess, if_pos (show _ ∨ _ from hconforms)]
      rwa [hsame]
    · by_contra hnot
      exact h.process_unsound hnot hsound

end Calls

theorem Inv.run {c c' : Config} (hstart : Start c) (hrun : Relation.ReflTransGen (Step Conforms) c c') :
    ∃ reserved out, Inv c' reserved out := by
  induction hrun with
  | refl => exact hstart.inv
  | tail _ hstep ih =>
    obtain ⟨reserved, out, h⟩ := ih
    obtain ⟨call, hconforms, rfl⟩ := hstep
    exact ⟨reserved, (h.call_iff call).1 hconforms⟩

/-- In runs of conforming calls the stacks lie on pages of their own, and the next call keeps that
exactly if it conforms. -/
theorem stacks_sound_iff {c c' : Config} (hstart : Start c)
    (hrun : Relation.ReflTransGen (Step Conforms) c c') :
    Sound c' ∧ ∀ call, Sound (c'.call call) ↔ Conforms c' call := by
  obtain ⟨reserved, out, h⟩ := Inv.run hstart hrun
  refine ⟨h.sound, fun call => ⟨(h.call_iff call).2, fun hconforms => ?_⟩⟩
  obtain ⟨out', h'⟩ := (h.call_iff call).1 hconforms
  exact h'.sound

@[irreducible] def bootedPmm : Pmm.State := Pmm.pmmInitFromBootinfo (fun _ => 0) none Pmm.zeroState

def booted : Config where
  state := { sched := Scheduler.schedulerInit, pmm := bootedPmm, usermodeInitialized := true }
  pages := fun _ => []

theorem booted_pmm : Pmm.Inv bootedPmm (Pmm.Reserved (fun _ => 0) none) [] := by
  unfold bootedPmm
  exact Pmm.pmmInitFromBootinfo_inv (fun _ => 0) none Pmm.zeroState

theorem booted_start : Start booted := ⟨⟨_, _, booted_pmm⟩, fun _ => rfl, fun _ => rfl, rfl⟩

theorem two_stacks_sound :
    Sound ((booted.call (.taskCreateEx .normal 120 4096)).call (.taskCreateEx .normal 100 4096)) :=
  (stacks_sound_iff booted_start (.tail
    (.single ⟨.taskCreateEx .normal 120 4096, .inr (.inr (by decide)), rfl⟩)
    ⟨.taskCreateEx .normal 100 4096, .inr (.inr (by decide)), rfl⟩)).1

theorem booted_page : (pmmAllocPage bootedPmm).2 ≠ 0 := by
  rcases booted_pmm.alloc with ⟨-, hall⟩ | ⟨p, -, -, -, hne, -, he, -⟩
  · have htaken := hall 512 (by decide)
    simp [Pmm.Reserved, Pmm.lowPages, pageSize] at htaken
  · rw [he]
    exact hne

/-- `task_create` asks for 16 KiB and `usermode_create_process` for 8 KiB; both get one page. -/
theorem stacks_leave_pages : Start booted ∧ ¬Sound (booted.call (.taskCreate .normal 120)) ∧
    ¬Sound (booted.call (.taskCreateEx .normal 120 8192)) ∧
    ¬Sound (booted.call (.usermodeCreateProcess 0x400000)) := by
  obtain ⟨reserved, out, h⟩ := booted_start.inv
  have halloc : allocTaskId booted.state.sched = some 0 := rfl
  have hdefault : ¬Sound (booted.call (.taskCreateEx .normal 120 defaultStackSize)) :=
    h.create_unsound halloc booted_page (by decide)
  refine ⟨booted_start, hdefault, ?_, ?_⟩
  · exact h.create_unsound halloc booted_page (by decide)
  · exact h.process_unsound (by simp [booted])

end TocinOS.Stacks

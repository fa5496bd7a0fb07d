import TocinOS.VmaRuns

/-! The counters of an `mm_struct`, as the functions of `kernel/mm/vma.c` and `kernel/mm/demand.c`
keep them beside the areas and the page tables. -/

namespace TocinOS.VmaCounters

open Demand
open Vma (Area Call vmaCreate vmaInsert vmaFind vmaFindNearest)

structure Counters where
  vmaCount : BitVec 32 := 0
  totalVm : BitVec 32 := 0
  rss : BitVec 32 := 0

structure Mm where
  state : Demand.State
  counters : Counters

def size (a : Area) : BitVec 32 := a.vmEnd - a.vmStart

/-- The first area of a list is not added to `total_vm`. -/
def insertCounters (s : Vma.State) (i : Nat) (c : Counters) : Counters :=
  if s.links.head () = none then { c with vmaCount := 1 }
  else if (vmaInsert s i).2 < 0 then c
  else { c with vmaCount := c.vmaCount + 1, totalVm := c.totalVm + size (s.pool i) }

def placeCounters (s : Vma.State) (mapAddr length vmFlags fd offset : BitVec 32) (c : Counters) :
    Counters :=
  match vmaCreate s mapAddr (mapAddr + length) vmFlags with
  | (_, none) => c
  | (s, some i) =>
    insertCounters (s.modify i fun a => { a with vmFd := fd, vmFileOffset := offset }) i c

def mmapCounters (s : Vma.State) (addr length prot flags fd offset : BitVec 32) (c : Counters) :
    Counters :=
  let length := roundUp length
  if length = 0 then c
  else
    let mapAddr := mmapAddress s addr length flags
    if mapAddr = 0 then c
    else if flags &&& mapAnonymous = 0 ∧ fd.slt 0 then c
    else placeCounters s mapAddr length (vmFlagsOf prot flags) fd offset c

/-- What a fault in the area adds to `rss`. A page from the page cache is not counted. -/
def demandRss (s : Demand.State) (vma : Area) (faultAddr errorCode : BitVec 32) : BitVec 32 :=
  if (demandPage s vma faultAddr errorCode).2 ≠ .handled then 0
  else if vma.vmFlags &&& Vma.vmAnonymous = 0 ∧ vma.vmFlags &&& Vma.vmFile ≠ 0 ∧
      (PageCache.vmmPageCacheLookup s.cache vma.vmFileInode (filePage vma faultAddr)).2.isSome then 0
  else 1

def pteOf (vm : Vmm.State) (addr : BitVec 32) : BitVec 32 := ((getPte vm addr).map vm.mem).getD 0

def faultRss (s : Demand.State) (faultAddr errorCode : BitVec 32) : BitVec 32 :=
  let pte := pteOf s.vm faultAddr
  if (getPte s.vm faultAddr).isSome ∧ pte &&& Swap.pteSwapped ≠ 0 ∧ pte &&& Vmm.pagePresent = 0 then
    if s.hasMm ∧ (handleSwapIn s faultAddr pte).2 = 0 then 1 else 0
  else if errorCode &&& pfPresent ≠ 0 ∧ errorCode &&& pfWrite ≠ 0 ∧ pte &&& pageCow ≠ 0 then
    if s.hasMm ∧ (handleCowFault s faultAddr pte).2 = 0 then 1 else 0
  else if !s.hasMm then 0
  else
    match vmaFind s.vma faultAddr with
    | some i => demandRss s (s.vma.pool i) faultAddr errorCode
    | none =>
      match vmaFindNearest s.vma faultAddr with
      | none => 0
      | some i =>
        if (s.vma.pool i).vmFlags &&& Vma.vmStack ≠ 0 ∧ (handleStackGrowth s i faultAddr).2 = 0 then 1
        else 0

def Mm.fault (mm : Mm) (faultAddr errorCode : BitVec 32) : Mm where
  state := (handlePageFault mm.state faultAddr errorCode).1
  counters := { mm.counters with rss := mm.counters.rss + faultRss mm.state faultAddr errorCode }

def Mm.faultIn (mm : Mm) (mapAddr length : BitVec 32) : Mm :=
  (List.range (length.toNat / 4096)).foldl
    (fun mm j => mm.fault (mapAddr + BitVec.ofNat 32 (4096 * j)) pfWrite) mm

def Mm.mmap (mm : Mm) (addr length prot flags fd offset : BitVec 32) : Mm :=
  if !mm.state.hasMm then mm
  else
    let (vma, result) := mmapArea mm.state.vma addr length prot flags fd offset
    let mm : Mm := ⟨{ mm.state with vma },
      mmapCounters mm.state.vma addr length prot flags fd offset mm.counters⟩
    if result = failed ∨ flags &&& mapLocked = 0 then mm else mm.faultIn result (roundUp length)

def unmapRss : Vmm.State → List (BitVec 32) → BitVec 32
  | _, [] => 0
  | vm, a :: pages => (if Vmm.vmmGetPhysical vm a = 0 then 0 else 1) + unmapRss (unmapPage vm a) pages

def Mm.munmapArea (start stop : BitVec 32) (mm : Mm) (i : Nat) : Mm where
  state := Demand.munmapArea start stop mm.state i
  counters :=
    let a := mm.state.vma.pool i
    if a.vmEnd ≤ start ∨ stop ≤ a.vmStart then mm.counters
    else if start ≤ a.vmStart ∧ a.vmEnd ≤ stop then
      { vmaCount := mm.counters.vmaCount - 1
        totalVm := mm.counters.totalVm - size a
        rss := mm.counters.rss - unmapRss mm.state.vm a.pages }
    else mm.counters

def Mm.munmap (mm : Mm) (addr length : BitVec 32) : Mm :=
  if !mm.state.hasMm then mm
  else
    let start := pageOf addr
    mm.state.vma.areas.foldl (Mm.munmapArea start (start + roundUp length)) mm

/-- Where the area of the heap grows in place, `total_vm` stays as it is. -/
def brkCounters (s : Vma.State) (addr : BitVec 32) (c : Counters) : Counters :=
  let newBrk := roundUp addr
  if addr = 0 ∨ newBrk < s.heapStart ∨ s.stackStart - 0x100000 < newBrk ∨ newBrk ≤ s.heapEnd then c
  else
    match vmaFind s s.heapStart with
    | some _ => c
    | none =>
      match vmaCreate s s.heapEnd newBrk
          (Vma.vmRead ||| Vma.vmWrite ||| Vma.vmAnonymous ||| Vma.vmLazy) with
      | (_, none) => c
      | (s, some i) => insertCounters s i c

def Mm.run (mm : Mm) : Call → Mm
  | .mmap addr length prot flags fd offset => mm.mmap addr length prot flags fd offset
  | .munmap addr length => mm.munmap addr length
  | .brk addr => ⟨{ mm.state with vma := (sysBrk mm.state.vma addr).1 },
      brkCounters mm.state.vma addr mm.counters⟩
  | .fault addr err => mm.fault addr err

variable {mm : Mm} {s : Vma.State} {i : Nat} {c : Counters}

theorem state_faultIn (mm : Mm) (mapAddr length : BitVec 32) :
    (mm.faultIn mapAddr length).state = faultIn mm.state mapAddr length := by
  rw [Mm.faultIn, faultIn]
  generalize List.range (length.toNat / 4096) = pages
  induction pages generalizing mm with
  | nil => rfl
  | cons j pages ih => exact ih _

theorem state_munmapAreas (start stop : BitVec 32) (areas : List Nat) (mm : Mm) :
    (areas.foldl (Mm.munmapArea start stop) mm).state =
      areas.foldl (Demand.munmapArea start stop) mm.state := by
  induction areas generalizing mm with
  | nil => rfl
  | cons i areas ih => exact ih _

theorem state_run (mm : Mm) (call : Call) : (mm.run call).state = call.run mm.state := by
  cases call with
  | mmap addr length prot flags fd offset =>
    dsimp only [Mm.run, Mm.mmap, Call.run, sysMmap]
    split
    · rfl
    · split
      · rfl
      · exact state_faultIn ..
  | munmap addr length =>
    dsimp only [Mm.run, Mm.munmap, Call.run, sysMunmap]
    split
    · rfl
    · exact state_munmapAreas ..
  | brk addr => rfl
  | fault addr err => rfl

/-! ### What the counters should say -/

def present (vm : Vmm.State) (a : BitVec 32) : Bool := pteOf vm a &&& Vmm.pagePresent != 0

structure Counted (mm : Mm) : Prop where
  vmaCount : mm.counters.vmaCount.toNat = mm.state.vma.areas.length
  totalVm : mm.counters.totalVm.toNat =
    (mm.state.vma.areas.map fun i => (size (mm.state.vma.pool i)).toNat).sum
  rss : mm.counters.rss.toNat = ((mm.state.vma.areas.flatMap fun i =>
    (mm.state.vma.pool i).pages).filter (present mm.state.vm)).length

structure New (mm : Mm) : Prop where
  hasMm : mm.state.hasMm = true
  empty : mm.state.vma.links.head () = none
  counters : mm.counters = {}
  plain : ∀ addr, pteOf mm.state.vm addr &&& pageCow = 0 ∧
    (pteOf mm.state.vm addr &&& Swap.pteSwapped = 0 ∨ pteOf mm.state.vm addr &&& Vmm.pagePresent ≠ 0)

def Refused (s : Vma.State) (start stop : BitVec 32) : Prop :=
  (stop ≤ start ∨ start &&& 0xFFF#32 ≠ 0 ∨ stop &&& 0xFFF#32 ≠ 0) ∨
    s.initialized = true ∧ s.freeList = []

def Idle (s : Vma.State) : Call → Prop
  | .mmap addr length _ flags fd _ =>
    let mapAddr := mmapAddress s addr (roundUp length) flags
    roundUp length = 0 ∨ mapAddr = 0 ∨ (flags &&& mapAnonymous = 0 ∧ fd.slt 0) ∨
      Refused s mapAddr (mapAddr + roundUp length)
  | .brk addr =>
    (addr = 0 ∨ roundUp addr < s.heapStart ∨ s.stackStart - 0x100000 < roundUp addr ∨
      roundUp addr ≤ s.heapEnd) ∨ Refused s s.heapEnd (roundUp addr)
  | _ => True

theorem areas_of_empty (h : s.links.head () = none) : s.areas = [] := by
  rw [Vma.State.areas, h]
  rfl

theorem New.counted (h : New mm) : Counted mm := by
  have hareas := areas_of_empty h.empty
  refine ⟨?_, ?_, ?_⟩
  · rw [hareas, h.counters]
    rfl
  · rw [hareas, h.counters]
    rfl
  · rw [hareas, h.counters]
    rfl

/-! ### The first area -/

structure First (mm : Mm) (i : Nat) : Prop where
  totalVm : mm.counters.totalVm = 0
  areas : mm.state.vma.areas = [i]
  bounds : (mm.state.vma.pool i).vmStart < (mm.state.vma.pool i).vmEnd

theorem First.not_counted (h : First mm i) : ¬ Counted mm := by
  intro hcounted
  have htotal := hcounted.totalVm
  have hbounds := h.bounds
  rw [h.totalVm, h.areas, List.map_singleton, List.sum_singleton, size] at htotal
  bv_omega

theorem vmaAllocatorInit_spec (s : Vma.State) :
    (Vma.vmaAllocatorInit s).links = s.links ∧
      ((Vma.vmaAllocatorInit s).freeList = [] ↔ s.initialized = true ∧ s.freeList = []) := by
  rw [Vma.vmaAllocatorInit]
  split_ifs with hset
  · exact ⟨rfl, by rw [and_iff_right hset]⟩
  · exact ⟨rfl, by simp [hset]⟩

theorem vmaCreate_refused {start stop : BitVec 32} (h : Refused s start stop) (flags : BitVec 32) :
    ∃ s', vmaCreate s start stop flags = (s', none) ∧ s'.links = s.links := by
  obtain ⟨hlinks, hfree⟩ := vmaAllocatorInit_spec s
  rw [vmaCreate]
  split_ifs with hbounds
  · exact ⟨s, rfl, rfl⟩
  · refine ⟨Vma.vmaAllocatorInit s, ?_, hlinks⟩
    rw [Vma.vmaAlloc, hfree.mpr (h.resolve_left hbounds)]

theorem vmaCreate_made {start stop : BitVec 32} (h : ¬ Refused s start stop) (flags : BitVec 32) :
    ∃ s' i, vmaCreate s start stop flags = (s', some i) ∧ s'.links.head () = s.links.head () ∧
      (s'.pool i).vmStart = start ∧ (s'.pool i).vmEnd = stop ∧ start < stop := by
  obtain ⟨hlinks, hfree⟩ := vmaAllocatorInit_spec s
  rw [Refused, not_or] at h
  obtain ⟨i, rest, hrest⟩ := List.exists_cons_of_ne_nil fun hnil => h.2 (hfree.mp hnil)
  rw [vmaCreate, if_neg h.1, Vma.vmaAlloc, hrest]
  refine ⟨_, i, rfl, congrArg (·.head ()) hlinks, ?_, ?_, BitVec.not_le.mp fun hle => h.1 (.inl hle)⟩
  · simp only [Vma.State.modify, Function.update_self]
  · simp only [Vma.State.modify, Function.update_self]

theorem vmaInsert_empty (h : s.links.head () = none) (i : Nat) :
    (vmaInsert s i).1.areas = [i] ∧ (vmaInsert s i).1.pool = s.pool ∧ (vmaInsert s i).2 = 0 := by
  rw [vmaInsert, if_pos h]
  refine ⟨?_, rfl, rfl⟩
  simp [Vma.State.areas, IntrusiveList.Bank.setHead, IntrusiveList.Bank.setNext,
    IntrusiveList.Bank.setPrev, IntrusiveList.Bank.nodes]

theorem insertCounters_empty (h : s.links.head () = none) (i : Nat) (c : Counters) :
    (insertCounters s i c).totalVm = c.totalVm := by
  rw [insertCounters, if_pos h]

/-! ### Calls of `mmap` and `brk` -/

variable {addr : BitVec 32}

theorem mmapArea_idle {length prot flags fd offset : BitVec 32}
    (h : Idle s (.mmap addr length prot flags fd offset)) (c : Counters) :
    (mmapArea s addr length prot flags fd offset).2 = failed ∧
      (mmapArea s addr length prot flags fd offset).1.links.head () = s.links.head () ∧
      mmapCounters s addr length prot flags fd offset c = c := by
  rw [mmapArea, mmapCounters]
  dsimp only
  split_ifs with hlength haddr hfd
  · exact ⟨rfl, rfl, rfl⟩
  · exact ⟨rfl, rfl, rfl⟩
  · exact ⟨rfl, rfl, rfl⟩
  · have hrefused : Refused s (mmapAddress s addr (roundUp length) flags)
        (mmapAddress s addr (roundUp length) flags + roundUp length) := by
      simpa only [Idle, hlength, haddr, hfd, false_or] using h
    obtain ⟨s', hcreate, hlinks⟩ := vmaCreate_refused hrefused (vmFlagsOf prot flags)
    rw [placeArea, placeCounters, hcreate]
    exact ⟨rfl, congrArg (·.head ()) hlinks, rfl⟩

theorem mmapArea_first {length prot flags fd offset : BitVec 32} (hempty : s.links.head () = none)
    (h : ¬ Idle s (.mmap addr length prot flags fd offset)) (c : Counters) :
    let r := mmapArea s addr length prot flags fd offset
    ∃ i, r.1.areas = [i] ∧ (r.1.pool i).vmStart = r.2 ∧ (r.1.pool i).vmEnd = r.2 + roundUp length ∧
      r.2 < r.2 + roundUp length ∧
      (mmapCounters s addr length prot flags fd offset c).totalVm = c.totalVm := by
  simp only [Idle, not_or] at h
  obtain ⟨hlength, haddr, hfd, hrefused⟩ := h
  rw [mmapArea, mmapCounters]
  dsimp only
  rw [if_neg hlength, if_neg haddr, if_neg hfd, if_neg hlength, if_neg haddr, if_neg hfd]
  generalize mmapAddress s addr (roundUp length) flags = mapAddr at hrefused ⊢
  obtain ⟨s', i, hcreate, hhead, hstart, hstop, hlt⟩ := vmaCreate_made hrefused (vmFlagsOf prot flags)
  have hhead' : (s'.modify i fun a => { a with vmFd := fd, vmFileOffset := offset }).links.head () =
      none := hhead.trans hempty
  obtain ⟨hareas, hpool, hresult⟩ := vmaInsert_empty hhead' i
  rw [placeArea, placeCounters, hcreate]
  dsimp only
  rw [if_neg (by rw [hresult]; decide)]
  refine ⟨i, hareas, ?_, ?_, hlt, insertCounters_empty hhead' i c⟩
  · rw [hpool]
    simpa [Vma.State.modify] using hstart
  · rw [hpool]
    simpa [Vma.State.modify] using hstop

theorem fault_vma {s : Demand.State} (h : vmaFind s.vma addr = some i) (err : BitVec 32) :
    (handlePageFault s addr err).1.vma = s.vma := by
  rw [handlePageFault]
  dsimp only
  split
  · exact handleSwapIn_vma ..
  split
  · exact handleCowFault_vma ..
  split
  · rfl
  · rw [h]
    exact demandPage_vma ..

/-- Faults inside the only area leave it as it is. -/
theorem First.faults (h : First mm i) (addr : Nat → BitVec 32) {js : List Nat}
    (hin : ∀ j ∈ js, (mm.state.vma.pool i).vmStart ≤ addr j ∧ addr j < (mm.state.vma.pool i).vmEnd) :
    First (js.foldl (fun mm j => mm.fault (addr j) pfWrite) mm) i := by
  induction js generalizing mm with
  | nil => exact h
  | cons j js ih =>
    obtain ⟨hj, hjs⟩ := List.forall_mem_cons.mp hin
    have hfind : vmaFind mm.state.vma (addr j) = some i := by
      rw [vmaFind, h.areas, List.find?_singleton, decide_eq_true hj.1, decide_eq_true hj.2]
      rfl
    have hvma : (mm.fault (addr j) pfWrite).state.vma = mm.state.vma := fault_vma hfind pfWrite
    refine ih ⟨h.totalVm, ?_, ?_⟩ ?_
    · rw [hvma]
      exact h.areas
    · rw [hvma]
      exact h.bounds
    · rw [hvma]
      exact hjs

theorem vmaFind_empty (h : s.links.head () = none) (addr : BitVec 32) : vmaFind s addr = none := by
  rw [vmaFind, areas_of_empty h]
  rfl

theorem sysBrk_idle (hempty : s.links.head () = none) (h : Idle s (.brk addr)) (c : Counters) :
    (sysBrk s addr).1.links.head () = none ∧ brkCounters s addr c = c := by
  rw [sysBrk, brkCounters, vmaFind_empty hempty]
  rcases h with hstays | hrefused
  · refine ⟨?_, if_pos hstays⟩
    dsimp only
    split_ifs with haddr hlow hhigh hgrows
    · exact hempty
    · exact hempty
    · exact hempty
    · rcases hstays with hstays | hstays | hstays | hstays
      · exact absurd hstays haddr
      · exact absurd hstays hlow
      · exact absurd hstays hhigh
      · exact absurd hgrows (BitVec.not_lt.mpr hstays)
    · exact hempty
  · obtain ⟨s', hcreate, hlinks⟩ := vmaCreate_refused hrefused
      (Vma.vmRead ||| Vma.vmWrite ||| Vma.vmAnonymous ||| Vma.vmLazy)
    have hhead : s'.links.head () = none := by rw [hlinks, hempty]
    dsimp only
    rw [hcreate]
    refine ⟨?_, ite_self _⟩
    split_ifs
    · exact hempty
    · exact hempty
    · exact hempty
    · exact hhead
    · exact hempty

theorem sysBrk_first (hempty : s.links.head () = none) (h : ¬ Idle s (.brk addr)) (c : Counters) :
    ∃ i, (sysBrk s addr).1.areas = [i] ∧
      ((sysBrk s addr).1.pool i).vmStart < ((sysBrk s addr).1.pool i).vmEnd ∧
      (brkCounters s addr c).totalVm = c.totalVm := by
  simp only [Idle, not_or] at h
  obtain ⟨⟨haddr, hlow, hhigh, hgrows⟩, hrefused⟩ := h
  obtain ⟨s', i, hcreate, hhead, hstart, hstop, hlt⟩ := vmaCreate_made hrefused
    (Vma.vmRead ||| Vma.vmWrite ||| Vma.vmAnonymous ||| Vma.vmLazy)
  obtain ⟨hareas, hpool, -⟩ := vmaInsert_empty (hhead.trans hempty) i
  rw [sysBrk, brkCounters, vmaFind_empty hempty]
  dsimp only
  rw [hcreate, if_neg haddr, if_neg hlow, if_neg hhigh, if_pos (BitVec.not_le.mp hgrows),
    if_neg (by simp only [haddr, hlow, hhigh, hgrows, or_self, not_false_eq_true])]
  refine ⟨i, hareas, ?_, insertCounters_empty (hhead.trans hempty) i c⟩
  show ((vmaInsert s' i).1.pool i).vmStart < ((vmaInsert s' i).1.pool i).vmEnd
  rw [hpool, hstart, hstop]
  exact hlt

/-! ### Runs from a new address space -/

theorem New.fault (h : New mm) (addr err : BitVec 32) : mm.fault addr err = mm := by
  have hareas := areas_of_empty h.empty
  obtain ⟨hcow, hswapped⟩ := h.plain addr
  have hin : ¬ ((getPte mm.state.vm addr).isSome ∧ pteOf mm.state.vm addr &&& Swap.pteSwapped ≠ 0 ∧
      pteOf mm.state.vm addr &&& Vmm.pagePresent = 0) := fun hin =>
    hswapped.elim hin.2.1 fun hpresent => hpresent hin.2.2
  have hcopy : ¬ (err &&& pfPresent ≠ 0 ∧ err &&& pfWrite ≠ 0 ∧
      pteOf mm.state.vm addr &&& pageCow ≠ 0) := fun hcopy => hcopy.2.2 hcow
  have hmm : ¬ (!mm.state.hasMm) = true := by rw [h.hasMm]; decide
  have hfind : vmaFind mm.state.vma addr = none := vmaFind_empty h.empty addr
  have hnearest : vmaFindNearest mm.state.vma addr = none := by rw [vmaFindNearest, hareas]; rfl
  rw [pteOf] at hin hcopy
  have hstate : (handlePageFault mm.state addr err).1 = mm.state := by
    rw [handlePageFault]
    dsimp only
    rw [if_neg hin, if_neg hcopy, if_neg hmm, hfind, hnearest]
  have hrss : faultRss mm.state addr err = 0 := by
    rw [faultRss, pteOf, if_neg hin, if_neg hcopy, if_neg hmm, hfind, hnearest]
  have hzero : mm.counters.rss + 0 = mm.counters.rss := BitVec.add_zero _
  rw [Mm.fault, hstate, hrss, hzero]

theorem New.run (h : New mm) {call : Call} (hidle : Idle mm.state.vma call) : New (mm.run call) := by
  have hmm : ¬ (!mm.state.hasMm) = true := by rw [h.hasMm]; decide
  cases call with
  | mmap addr length prot flags fd offset =>
    obtain ⟨hresult, hhead, hcounters⟩ := mmapArea_idle hidle mm.counters
    rw [Mm.run, Mm.mmap, if_neg hmm]
    dsimp only
    rw [if_pos (.inl hresult)]
    exact ⟨h.hasMm, hhead.trans h.empty, hcounters.trans h.counters, h.plain⟩
  | munmap addr length =>
    rw [Mm.run, Mm.munmap, if_neg hmm, areas_of_empty h.empty]
    exact h
  | brk addr =>
    obtain ⟨hhead, hcounters⟩ := sysBrk_idle h.empty hidle mm.counters
    exact ⟨h.hasMm, hhead, hcounters.trans h.counters, h.plain⟩
  | fault addr err =>
    rw [Mm.run, h.fault]
    exact h

theorem New.not_counted_run (h : New mm) {call : Call} (hidle : ¬ Idle mm.state.vma call) :
    ¬ Counted (mm.run call) := by
  have hmm : ¬ (!mm.state.hasMm) = true := by rw [h.hasMm]; decide
  have hzero : mm.counters.totalVm = 0 := by rw [h.counters]
  cases call with
  | mmap addr length prot flags fd offset =>
    obtain ⟨i, hareas, hstart, hstop, hlt, htotal⟩ := mmapArea_first h.empty hidle mm.counters
    rw [Mm.run, Mm.mmap, if_neg hmm]
    dsimp only
    have hfirst : First ⟨{ mm.state with vma := (mmapArea mm.state.vma addr length prot flags fd offset).1 },
        mmapCounters mm.state.vma addr length prot flags fd offset mm.counters⟩ i :=
      ⟨htotal.trans hzero, hareas, by rw [hstart, hstop]; exact hlt⟩
    split_ifs
    · exact hfirst.not_counted
    · refine (hfirst.faults _ fun j hj => ?_).not_counted
      rw [hstart, hstop]
      have hoff : 4096 * j < (roundUp length).toNat := by
        have := List.mem_range.mp hj
        omega
      have hword : (BitVec.ofNat 32 (4096 * j)).toNat = 4096 * j :=
        Nat.mod_eq_of_lt (hoff.trans (roundUp length).isLt)
      constructor <;> bv_omega
  | munmap addr length => exact absurd trivial hidle
  | brk addr =>
    obtain ⟨i, hareas, hbounds, htotal⟩ := sysBrk_first h.empty hidle mm.counters
    have hfirst : First (mm.run (.brk addr)) i := ⟨htotal.trans hzero, hareas, hbounds⟩
    exact hfirst.not_counted
  | fault addr err => exact absurd trivial hidle

def CountedRun : Mm → List Call → Prop
  | mm, [] => Counted mm
  | mm, call :: calls => Counted mm ∧ CountedRun (mm.run call) calls

def IdleRun : Mm → List Call → Prop
  | _, [] => True
  | mm, call :: calls => Idle mm.state.vma call ∧ IdleRun (mm.run call) calls

/-- The counters of a new address space are right all along just as long as it has no area. -/
theorem countedRun_iff (mm : Mm) (h : New mm) (calls : List Call) :
    CountedRun mm calls ↔ IdleRun mm calls := by
  induction calls generalizing mm with
  | nil => exact iff_of_true h.counted trivial
  | cons call calls ih =>
    rw [CountedRun, IdleRun, and_iff_right h.counted]
    by_cases hidle : Idle mm.state.vma call
    · rw [ih _ (h.run hidle), and_iff_right hidle]
    · refine iff_of_false (fun hrun => h.not_counted_run hidle ?_) fun hrun => hidle hrun.1
      cases calls with
      | nil => exact hrun
      | cons => exact hrun.1

def newMm : Mm := ⟨Vma.emptyMm, {}⟩

theorem newMm_new : New newMm := by
  have hpte (addr : BitVec 32) : pteOf newMm.state.vm addr = 0 := by
    rw [pteOf]
    cases getPte newMm.state.vm addr <;> rfl
  refine ⟨rfl, rfl, rfl, fun addr => ?_⟩
  rw [hpte]
  decide

theorem newMm_counted : CountedRun newMm [.munmap 0 0x1000, .brk 0, .mmap 0 0 3 0x22 (-1) 0] :=
  (countedRun_iff newMm newMm_new _).mpr ⟨trivial, .inl (.inl rfl), .inl (by decide), trivial⟩

theorem newMm_mapped_not_counted : ¬ CountedRun newMm [.mmap 0 0x2000 3 0x22 (-1) 0] := by
  intro h
  refine newMm_new.not_counted_run ?_ h.2
  simp only [Idle, Refused]
  decide +kernel

end TocinOS.VmaCounters

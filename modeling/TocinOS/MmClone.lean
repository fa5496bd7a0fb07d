import TocinOS.SwapRuns
import TocinOS.VmaRuns
import TocinOS.VmmExhausted

/-! `mm_clone`, `mm_destroy` and `mm_release` of `kernel/mm/vma.c`. A clone gets a page directory of
its own, but the calls of `vmm.c` that destroy it work on the one kernel directory, in which the
pages of the source are mapped. -/

namespace TocinOS.MmClone

open Function (update)
open Pmm (pageSize pmmAllocPage pmmFreePage)
open Vma (Area)
open Vmm

structure Mm where
  pageDirectory : Nat
  areas : List Area
  refCount : BitVec 32

structure Machine where
  vm : Vmm.State
  freeVmas : Nat
  freeMms : Nat

def vmaCreate (m : Machine) (start stop flags : BitVec 32) : Machine × Option Area :=
  if stop ≤ start ∨ start &&& 0xFFF#32 ≠ 0 ∨ stop &&& 0xFFF#32 ≠ 0 then (m, none)
  else if m.freeVmas = 0 then (m, none)
  else ({ m with freeVmas := m.freeVmas - 1 }, some { vmStart := start, vmEnd := stop, vmFlags := flags })

def vmaDestroy (m : Machine) (vma : Area) : Machine :=
  if vma.refCount - 1 = 0 then { m with freeVmas := m.freeVmas + 1 } else m

/-- The areas after `vma_insert`; they are the same ones when it returns -1. -/
def vmaInsert (areas : List Area) (vma : Area) : List Area :=
  let before := areas.takeWhile fun a => decide (a.vmStart < vma.vmStart)
  let after := areas.dropWhile fun a => decide (a.vmStart < vma.vmStart)
  if before.getLast?.any fun prev => decide (vma.vmStart < prev.vmEnd) then areas
  else if after.head?.any fun curr => decide (curr.vmStart < vma.vmEnd) then areas
  else before ++ vma :: after

/-! An address space of `Vma` is a list of pool indices; here it is the areas themselves, and of the
free list its length. -/

section

variable {s : Vma.State} {m : Machine} {L : List Nat} {i : Nat}

theorem vmaCreate_pool (hset : s.initialized = true) (hfree : s.freeList.length = m.freeVmas)
    (start stop flags : BitVec 32) : let r := Vma.vmaCreate s start stop flags
    (vmaCreate m start stop flags).2 = r.2.map r.1.pool ∧
      r.1.freeList.length = (vmaCreate m start stop flags).1.freeVmas := by
  simp only [Vma.vmaCreate, vmaCreate, Vma.vmaAlloc, Vma.vmaAllocatorInit, hset, if_true]
  split
  · exact ⟨rfl, hfree⟩
  cases hlist : s.freeList with
  | nil =>
    rw [if_pos (by rw [← hfree, hlist]; rfl)]
    exact ⟨rfl, by rw [← hfree]⟩
  | cons i rest =>
    rw [hlist, List.length_cons] at hfree
    rw [if_neg (by omega)]
    refine ⟨?_, by dsimp only [Vma.State.modify]; omega⟩
    simp only [Vma.State.modify, Option.map_some, Function.update_self]

theorem vmaDestroy_pool (hfree : s.freeList.length = m.freeVmas) (i : Nat) :
    (Vma.vmaDestroy s i).freeList.length = (vmaDestroy m (s.pool i)).freeVmas := by
  simp only [Vma.vmaDestroy, vmaDestroy, Vma.State.modify, Function.update_self]
  split
  · rw [List.length_cons, hfree]
  · exact hfree

theorem vmaInsert_pool (h : Vma.Fresh s L i) :
    (Vma.vmaInsert s i).1.areas.map s.pool = vmaInsert (s.areas.map s.pool) (s.pool i) := by
  obtain ⟨l, r, hL, hl, hr, he⟩ := h.vmaInsert_eq i
  have hearly : ∀ a ∈ l.map s.pool, decide (a.vmStart < (s.pool i).vmStart) = true := by
    intro a ha
    obtain ⟨x, hx, rfl⟩ := List.mem_map.mp ha
    exact decide_eq_true (hl x hx)
  have hlate : (r.map s.pool).takeWhile (fun a => decide (a.vmStart < (s.pool i).vmStart)) = [] ∧
      (r.map s.pool).dropWhile (fun a => decide (a.vmStart < (s.pool i).vmStart)) = r.map s.pool := by
    cases r with
    | nil => exact ⟨rfl, rfl⟩
    | cons q r =>
      have hq := hr q rfl
      simp [hq]
  have hareas := h.areas_eq
  have hinserted := (h.insertBetween hL).areas_eq
  rw [hareas, vmaInsert, hL, List.map_append, List.takeWhile_append_of_pos hearly,
    List.dropWhile_append_of_pos hearly, hlate.1, hlate.2, List.append_nil, List.getLast?_map,
    List.head?_map, Option.any_map, Option.any_map, ← List.map_append, ← hL, he]
  split
  · rw [hareas]
  split
  · rw [hareas]
  · rw [hinserted, List.map_append, List.map_cons]

end

def copyKernel (directory : Nat) (mem : Nat → BitVec 32) : Nat → BitVec 32 :=
  (List.range 256).foldl (fun mem i =>
    update mem (directory + 4 * (768 + i)) (mem (kernelDirectory + 4 * (768 + i)))) mem

def mmCreate (m : Machine) : Machine × Option Mm :=
  if m.freeMms = 0 then (m, none)
  else
    let (pmm, pageDirectory) := pmmAllocPage m.vm.pmm
    if pageDirectory = 0 then ({ m with vm := { m.vm with pmm } }, none)
    else
      ({ m with
        vm := { mem := copyKernel pageDirectory (clearTable pageDirectory m.vm.mem), pmm }
        freeMms := m.freeMms - 1 }, some { pageDirectory, areas := [], refCount := 1 })

def destroyPage (s : Vmm.State) (addr : BitVec 32) : Vmm.State :=
  let phys := vmmGetPhysical s addr
  if phys ≠ 0 then
    let s := vmmUnmapPage s addr
    { s with pmm := pmmFreePage s.pmm phys.toNat }
  else s

def destroyArea (m : Machine) (vma : Area) : Machine :=
  vmaDestroy { m with vm := vma.pages.foldl destroyPage m.vm } vma

def mmDestroy (m : Machine) (mm : Mm) : Machine :=
  let m := mm.areas.foldl destroyArea m
  let vm := if mm.pageDirectory ≠ 0 then { m.vm with pmm := pmmFreePage m.vm.pmm mm.pageDirectory }
    else m.vm
  { m with vm, freeMms := m.freeMms + 1 }

/-- `vmm_mark_cow` is a stub in the source. -/
def vmmMarkCow (s : Vmm.State) (_vaddr : BitVec 32) : Vmm.State := s

def cloneAreas (m : Machine) (dst : Mm) : List Area → Machine × Option Mm
  | [] => (m, some dst)
  | src :: rest =>
    match vmaCreate m src.vmStart src.vmEnd src.vmFlags with
    | (m, none) => (mmDestroy m dst, none)
    | (m, some vma) =>
      let vma := { vma with
        vmFileInode := src.vmFileInode
        vmFileOffset := src.vmFileOffset
        vmFd := src.vmFd }
      let dst := { dst with areas := vmaInsert dst.areas vma }
      let vm := if src.vmFlags &&& Vma.vmPrivate ≠ 0 ∧ src.vmFlags &&& Vma.vmWrite ≠ 0 then
          src.pages.foldl vmmMarkCow m.vm
        else m.vm
      cloneAreas { m with vm } dst rest

def mmClone (m : Machine) (src : List Area) : Machine × Option Mm :=
  match mmCreate m with
  | (m, none) => (m, none)
  | (m, some dst) => cloneAreas m dst src

def mmRelease (m : Machine) (mm : Mm) : Machine :=
  let mm := { mm with refCount := mm.refCount - 1 }
  if mm.refCount = 0 then mmDestroy m mm else m

/-- The areas of an address space as `vma_create` and `vma_insert` make them. -/
structure Space where
  areas : List Area
  ordered : areas.Pairwise fun a b => a.vmEnd ≤ b.vmStart
  valid : ∀ a ∈ areas, a.vmStart < a.vmEnd ∧ a.vmStart &&& 0xFFF#32 = 0 ∧ a.vmEnd &&& 0xFFF#32 = 0

/-! ### Pages that are unmapped -/

section
variable {s t : Vmm.State} {v w : BitVec 32}

theorem physical_eq_translation (s : Vmm.State) (v : BitVec 32) :
    vmmGetPhysical s v = (s.translation v).getD 0 := by
  rw [vmmGetPhysical_eq, State.translation]
  split_ifs <;> rfl

structure Cleared (s t : Vmm.State) : Prop where
  directory : SameDirectory s t
  entry : ∀ w, s.dirEntry (dirIndex w) &&& pagePresent ≠ 0 → t.entry w = s.entry w ∨ t.entry w = 0

theorem Cleared.refl (s : Vmm.State) : Cleared s s := ⟨fun _ _ => rfl, fun _ _ => .inl rfl⟩

theorem Cleared.trans {u : Vmm.State} (h : Cleared s t) (h' : Cleared t u) : Cleared s u where
  directory k hk := (h'.directory k hk).trans (h.directory k hk)
  entry w hw := by
    rw [← h.directory _ (dirIndex_lt w)] at hw
    rcases h'.entry w hw with hsame | hzero
    · rw [hsame]
      rw [h.directory _ (dirIndex_lt w)] at hw
      exact h.entry w hw
    · exact .inr hzero

theorem Cleared.apart (h : Cleared s t) (hs : TablesApart s) : TablesApart t :=
  fun i hi htable => hs i hi ((h.directory.isTable_iff hi).mp htable)

theorem Cleared.physical (h : Cleared s t) (hv : vmmGetPhysical s v = 0) :
    vmmGetPhysical t v = 0 := by
  rw [vmmGetPhysical_eq] at hv ⊢
  rw [h.directory _ (dirIndex_lt v)]
  by_cases hpresent : s.dirEntry (dirIndex v) &&& pagePresent = 0
  · rw [if_pos hpresent]
  · rw [if_neg hpresent] at hv ⊢
    rcases h.entry v hpresent with hsame | hzero
    · rw [hsame, hv]
    · rw [hzero]
      rfl

theorem vmmUnmapPage_present (h : s.dirEntry (dirIndex v) &&& pagePresent ≠ 0) :
    vmmUnmapPage s v = { s with mem := update s.mem (s.entryAddr v) 0 } := if_pos h

theorem cleared_unmap (hs : TablesApart s) (h : s.dirEntry (dirIndex v) &&& pagePresent ≠ 0) :
    Cleared s (vmmUnmapPage s v) ∧ (vmmUnmapPage s v).entry v = 0 := by
  obtain ⟨p, hp⟩ := exists_isTable h
  have hne : p ≠ directoryPage := by
    rintro rfl
    exact hs _ (dirIndex_lt v) hp
  have hdir : SameDirectory s (vmmUnmapPage s v) := by
    intro k hk
    rw [vmmUnmapPage_present h]
    refine Function.update_of_ne ?_ _ _
    rw [hp.entryAddr, directory_word]
    exact word_ne (Ne.symm hne) hk (entryIndex_lt v)
  have hentry (w : BitVec 32) : (vmmUnmapPage s v).entry w =
      if s.entryAddr w = s.entryAddr v then 0 else s.entry w := by
    rw [State.entry, hdir.entryAddr, vmmUnmapPage_present h]
    exact Function.update_apply ..
  refine ⟨⟨hdir, fun w _ => ?_⟩, by rw [hentry, if_pos rfl]⟩
  rw [hentry]
  split_ifs
  · exact .inr rfl
  · exact .inl rfl

theorem destroyPage_of_unmapped (h : vmmGetPhysical s v = 0) : destroyPage s v = s :=
  if_neg fun hne => hne h

theorem cleared_destroyPage (hs : TablesApart s) (v : BitVec 32) :
    Cleared s (destroyPage s v) ∧ vmmGetPhysical (destroyPage s v) v = 0 := by
  by_cases hphys : vmmGetPhysical s v = 0
  · rw [destroyPage_of_unmapped hphys]
    exact ⟨Cleared.refl s, hphys⟩
  · have hpresent : s.dirEntry (dirIndex v) &&& pagePresent ≠ 0 := by
      intro habsent
      exact hphys (by rw [vmmGetPhysical_eq, if_pos habsent])
    obtain ⟨⟨hdir, hentry⟩, hzero⟩ := cleared_unmap hs hpresent
    have hunmapped : vmmGetPhysical (vmmUnmapPage s v) v = 0 := by
      rw [vmmGetPhysical_eq, hzero, hdir _ (dirIndex_lt v), if_neg hpresent]
      rfl
    rw [destroyPage, if_pos hphys]
    exact ⟨⟨hdir, hentry⟩, hunmapped⟩

theorem cleared_foldl (hs : TablesApart s) (pages : List (BitVec 32)) :
    Cleared s (pages.foldl destroyPage s) := by
  induction pages generalizing s with
  | nil => exact Cleared.refl s
  | cons w pages ih =>
    have hw := (cleared_destroyPage hs w).1
    exact hw.trans (ih (hw.apart hs))

/-- No page that `mm_destroy` comes to is mapped afterwards. -/
theorem foldl_unmaps (hs : TablesApart s) {pages : List (BitVec 32)} (hv : v ∈ pages) :
    vmmGetPhysical (pages.foldl destroyPage s) v = 0 := by
  induction pages generalizing s with
  | nil => exact absurd hv List.not_mem_nil
  | cons w pages ih =>
    obtain ⟨hw, hzero⟩ := cleared_destroyPage hs w
    rcases List.mem_cons.mp hv with rfl | hrest
    · exact (cleared_foldl (hw.apart hs) pages).physical hzero
    · exact ih (hw.apart hs) hrest

theorem foldl_of_unmapped {pages : List (BitVec 32)} (h : ∀ v ∈ pages, vmmGetPhysical s v = 0) :
    pages.foldl destroyPage s = s := by
  induction pages with
  | nil => rfl
  | cons w pages ih =>
    rw [List.foldl_cons, destroyPage_of_unmapped (h w List.mem_cons_self)]
    exact ih fun v hv => h v (List.mem_cons_of_mem w hv)

end

/-! ### What the two loops compute -/

variable {m : Machine}

def copyOf (src : Area) : Area := { src with refCount := 1 }

def pagesOf (areas : List Area) : List (BitVec 32) := areas.flatMap Area.pages

theorem pagesOf_copies (areas : List Area) : pagesOf (areas.map copyOf) = pagesOf areas := by
  rw [pagesOf, List.flatMap_map]
  rfl

theorem foldl_destroyArea_vm (areas : List Area) (m : Machine) :
    (areas.foldl destroyArea m).vm = (pagesOf areas).foldl destroyPage m.vm := by
  induction areas generalizing m with
  | nil => rfl
  | cons a areas ih =>
    have harea : (destroyArea m a).vm = a.pages.foldl destroyPage m.vm := by
      simp only [destroyArea, vmaDestroy]
      split_ifs <;> rfl
    rw [List.foldl_cons, ih, harea, pagesOf, pagesOf, List.flatMap_cons, List.foldl_append]

theorem vmaInsert_last {areas : List Area} {vma : Area}
    (h : ∀ a ∈ areas, a.vmStart < a.vmEnd ∧ a.vmEnd ≤ vma.vmStart) :
    vmaInsert areas vma = areas ++ [vma] := by
  have hbefore : ∀ a ∈ areas, decide (a.vmStart < vma.vmStart) = true := fun a ha =>
    decide_eq_true (Nat.lt_of_lt_of_le (h a ha).1 (h a ha).2)
  have hprev : areas.getLast?.any (fun prev => decide (vma.vmStart < prev.vmEnd)) = false := by
    cases hlast : areas.getLast? with
    | none => rfl
    | some a =>
      have hend := (h a (List.mem_of_mem_getLast? hlast)).2
      exact decide_eq_false (BitVec.not_lt.mpr hend)
  simp only [vmaInsert]
  rw [List.takeWhile_eq_self_iff.mpr hbefore, List.dropWhile_eq_nil_iff.mpr hbefore, hprev]
  rfl

/-- The clone copies areas until none is free, and is destroyed with those it has by then. -/
theorem cloneAreas_eq (done rest : List Area) (m : Machine) (dst : Mm)
    (hdst : dst.areas = done.map copyOf)
    (hordered : (done ++ rest).Pairwise fun a b => a.vmEnd ≤ b.vmStart)
    (hvalid : ∀ a ∈ done ++ rest,
      a.vmStart < a.vmEnd ∧ a.vmStart &&& 0xFFF#32 = 0 ∧ a.vmEnd &&& 0xFFF#32 = 0) :
    cloneAreas m dst rest =
      if rest.length ≤ m.freeVmas then
        ({ m with freeVmas := m.freeVmas - rest.length },
          some { dst with areas := (done ++ rest).map copyOf })
      else
        (mmDestroy { m with freeVmas := 0 }
          { dst with areas := (done ++ rest.take m.freeVmas).map copyOf }, none) := by
  induction rest generalizing done m dst with
  | nil => simp only [cloneAreas, List.length_nil, Nat.zero_le, if_pos, Nat.sub_zero,
      List.append_nil, ← hdst]
  | cons src rest ih =>
    obtain ⟨hlt, hstart, hend⟩ := hvalid src (List.mem_append_right _ List.mem_cons_self)
    have hbounds : ¬ (src.vmEnd ≤ src.vmStart ∨ src.vmStart &&& 0xFFF#32 ≠ 0 ∨
        src.vmEnd &&& 0xFFF#32 ≠ 0) := by
      rw [not_or, not_or, not_not, not_not]
      exact ⟨BitVec.not_le.mpr hlt, hstart, hend⟩
    by_cases hfree : m.freeVmas = 0
    · have hfull : m = { m with freeVmas := 0 } := by rw [← hfree]
      simp only [cloneAreas, vmaCreate, if_neg hbounds, if_pos hfree]
      rw [if_neg (by rw [hfree]; exact Nat.not_succ_le_zero _), hfree, List.take_zero,
        List.append_nil, ← hdst, ← hfull]
    · have hlast : vmaInsert dst.areas (copyOf src) = (done ++ [src]).map copyOf := by
        rw [vmaInsert_last, List.map_append, hdst]
        · rfl
        · intro a ha
          rw [hdst] at ha
          obtain ⟨b, hb, rfl⟩ := List.mem_map.mp ha
          exact ⟨(hvalid b (List.mem_append_left _ hb)).1,
            (List.pairwise_append.mp hordered).2.2 b hb src List.mem_cons_self⟩
      have hmark : src.pages.foldl vmmMarkCow m.vm = m.vm := by
        generalize src.pages = pages
        induction pages with
        | nil => rfl
        | cons _ _ ih => exact ih
      have hstep : cloneAreas m dst (src :: rest) =
          cloneAreas { m with freeVmas := m.freeVmas - 1 }
            { dst with areas := (done ++ [src]).map copyOf } rest := by
        rw [← hlast]
        simp only [cloneAreas, vmaCreate, if_neg hbounds, if_neg hfree, hmark, ite_self]
        rfl
      have happend : done ++ src :: rest = (done ++ [src]) ++ rest := by
        rw [List.append_assoc, List.singleton_append]
      rw [happend] at hordered hvalid
      rw [hstep, ih (done ++ [src]) _ _ rfl hordered hvalid, happend]
      have hpos : 0 < m.freeVmas := Nat.pos_of_ne_zero hfree
      have htake : (src :: rest).take m.freeVmas = src :: rest.take (m.freeVmas - 1) := by
        rw [← Nat.sub_add_cancel hpos, List.take_succ_cons, Nat.add_sub_cancel]
      by_cases hroom : rest.length ≤ m.freeVmas - 1
      · rw [if_pos hroom, if_pos (by rw [List.length_cons]; omega), List.length_cons,
          Nat.sub_sub, Nat.add_comm 1]
      · rw [if_neg hroom, if_neg (by rw [List.length_cons]; omega), htake, List.append_assoc,
          List.singleton_append]

/-! ### The new page directory -/

theorem copyKernel_of_ne {directory a : Nat} (mem : Nat → BitVec 32)
    (h : ∀ i < pagesPerTable, a ≠ directory + 4 * i) : copyKernel directory mem a = mem a := by
  have hcopied (n : Nat) (hn : n ≤ 256) : (List.range n).foldl (fun mem i =>
      update mem (directory + 4 * (768 + i)) (mem (kernelDirectory + 4 * (768 + i)))) mem a =
        mem a := by
    induction n with
    | zero => rfl
    | succ n ih =>
      rw [List.range_succ, List.foldl_append, List.foldl_cons, List.foldl_nil,
        Function.update_of_ne (h (768 + n) (by simp only [pagesPerTable]; omega)), ih (by omega)]
  exact hcopied 256 (Nat.le_refl _)

def Unchanged (s t : Vmm.State) : Prop :=
  ∀ v, t.translation v = s.translation v ∧
    ∀ p, s.translation v = some p →
      (Used t.pmm (p.toNat / pageSize) ↔ Used s.pmm (p.toNat / pageSize))

theorem translation_of_fresh {s : Vmm.State} {mem : Nat → BitVec 32} {q : Nat} (hs : Sane s)
    (hq : ¬ Used s.pmm q)
    (hmem : ∀ p j, p ≠ q → j < pagesPerTable →
      mem (p * pageSize + 4 * j) = s.mem (p * pageSize + 4 * j))
    (pmm : Pmm.State) (v : BitVec 32) :
    State.translation { mem, pmm } v = s.translation v := by
  have hdir : SameDirectory s { mem, pmm } := by
    intro k hk
    refine hmem directoryPage k ?_ hk
    rintro rfl
    exact hq (hs.low _ (by decide))
  rw [State.translation, State.translation, hdir _ (dirIndex_lt v)]
  by_cases hpresent : s.dirEntry (dirIndex v) &&& pagePresent = 0
  · rw [if_pos hpresent, if_pos hpresent]
  · obtain ⟨p, -, htable, -, hused⟩ := hs.table _ (dirIndex_lt v) hpresent
    have hentry : State.entry { mem, pmm } v = s.entry v := by
      rw [State.entry, State.entry, hdir.entryAddr, htable.entryAddr]
      refine hmem p _ ?_ (entryIndex_lt v)
      rintro rfl
      exact hq hused
    rw [hentry]

theorem used_free_setUsed {pmm : Pmm.State} {p q : Nat} (hq : ¬ Used pmm q) :
    Used (pmmFreePage (Pmm.pmmSetPageUsed pmm q) (q * pageSize)) p ↔ Used pmm p := by
  have hpage : q * pageSize / pageSize = q := Nat.mul_div_cancel _ (by decide)
  have hset : Bitmap.test (Pmm.pmmSetPageUsed pmm q).memoryBitmap q = true :=
    used_setUsed.mpr (.inr rfl)
  simp only [pmmFreePage, hpage, if_pos hset]
  rw [Used, Bitmap.test_clear, Bool.and_eq_true]
  by_cases hpq : p = q
  · subst hpq
    simp [hq]
  · have hkept : Used (Pmm.pmmSetPageUsed pmm q) p ↔ Used pmm p := by
      rw [used_setUsed, or_iff_left hpq]
    rw [← hkept, decide_eq_false hpq]
    simp [Used]

structure Undone (m : Machine) (src : Space) : Prop where
  failed : ∀ m', mmClone m src.areas = (m', none) → Unchanged m.vm m'.vm
  released : ∀ m' dst, mmClone m src.areas = (m', some dst) →
    Unchanged m.vm (mmRelease m' dst).vm

def gone (m : Machine) (src : List Area) : Vmm.State :=
  match mmClone m src with
  | (m, none) => m.vm
  | (m, some dst) => (mmRelease m dst).vm

theorem undone_iff {src : Space} : Undone m src ↔ Unchanged m.vm (gone m src.areas) := by
  rw [gone]
  rcases hclone : mmClone m src.areas with ⟨m', _ | dst⟩
  · refine ⟨fun h => h.failed m' hclone, fun h => ⟨fun m'' h'' => ?_, fun m'' dst h'' => ?_⟩⟩
    · cases hclone.symm.trans h''
      exact h
    · exact nomatch hclone.symm.trans h''
  · refine ⟨fun h => h.released m' dst hclone, fun h => ⟨fun m'' h'' => ?_, fun m'' dst' h'' => ?_⟩⟩
    · exact nomatch hclone.symm.trans h''
    · cases hclone.symm.trans h''
      exact h

theorem gone_of_none (hnone : m.freeMms = 0 ∨ Exhausted m.vm.pmm) (src : List Area) :
    gone m src = m.vm := by
  have hcreate : mmCreate m = (m, none) := by
    by_cases hfree : m.freeMms = 0
    · rw [mmCreate, if_pos hfree]
    · rw [mmCreate, if_neg hfree, (hnone.resolve_left hfree).alloc]
      rfl
  rw [gone, mmClone, hcreate]

theorem exists_alloc {s : Vmm.State} (hs : Sane s) (hroom : ¬ Exhausted s.pmm) :
    ∃ q, 0 < q ∧ ¬ Used s.pmm q ∧
      pmmAllocPage s.pmm = (Pmm.pmmSetPageUsed s.pmm q, q * pageSize) := by
  rcases Pmm.allocFrom_spec s.pmm s.pmm.totalPages 0 with ⟨-, hall⟩ | ⟨q, -, -, hfree, -, he⟩
  · exact absurd (fun p hp => hall p (Nat.zero_le p) (by omega)) hroom
  · have hunused : ¬ Used s.pmm q := by
      rw [Used, hfree]
      exact Bool.false_ne_true
    refine ⟨q, Nat.pos_of_ne_zero ?_, hunused, he⟩
    rintro rfl
    exact hunused (hs.low 0 (by decide))

theorem mmCreate_eq (hs : Sane m.vm) (hfree : 0 < m.freeMms) (hroom : ¬ Exhausted m.vm.pmm) :
    ∃ q mem, 0 < q ∧ ¬ Used m.vm.pmm q ∧
      (∀ p j, p ≠ q → j < pagesPerTable →
        mem (p * pageSize + 4 * j) = m.vm.mem (p * pageSize + 4 * j)) ∧
      mmCreate m =
        ({ m with vm := { mem, pmm := Pmm.pmmSetPageUsed m.vm.pmm q }, freeMms := m.freeMms - 1 },
          some { pageDirectory := q * pageSize, areas := [], refCount := 1 }) := by
  obtain ⟨q, hpos, hq, halloc⟩ := exists_alloc hs hroom
  have hpage : q * pageSize ≠ 0 := Nat.mul_ne_zero (Nat.ne_of_gt hpos) (by decide)
  refine ⟨q, copyKernel (q * pageSize) (clearTable (q * pageSize) m.vm.mem), hpos, hq, ?_, ?_⟩
  · intro p j hp hj
    rw [copyKernel_of_ne _ fun i hi => word_ne hp hj hi,
      clearTable_of_ne _ fun i hi => word_ne hp hj hi]
  · rw [mmCreate, if_neg (Nat.ne_of_gt hfree), halloc]
    exact if_neg hpage

/-- Both ways the areas copied so far are destroyed, and the page directory is given back. -/
theorem gone_eq (hs : Sane m.vm) (hfree : 0 < m.freeMms) (hroom : ¬ Exhausted m.vm.pmm)
    (src : Space) :
    ∃ q c, ¬ Used m.vm.pmm q ∧ c.pmm = Pmm.pmmSetPageUsed m.vm.pmm q ∧
      (∀ v, c.translation v = m.vm.translation v) ∧ TablesApart c ∧
      gone m src.areas =
        (let s := (pagesOf (src.areas.take m.freeVmas)).foldl destroyPage c
         { s with pmm := pmmFreePage s.pmm (q * pageSize) }) := by
  obtain ⟨q, mem, hpos, hq, hmem, hcreate⟩ := mmCreate_eq hs hfree hroom
  have hpage : q * pageSize ≠ 0 := Nat.mul_ne_zero (Nat.ne_of_gt hpos) (by decide)
  have hsane : Sane { m.vm with mem } := by
    refine hs.store fun i hi => hmem directoryPage i ?_ hi
    rintro rfl
    exact hq (hs.low _ (by decide))
  have hapart : TablesApart { mem, pmm := Pmm.pmmSetPageUsed m.vm.pmm q } := by
    intro i hi htable
    obtain ⟨p, -, hp, hdir, -⟩ := hsane.table i hi htable.1
    exact hdir (hp.unique htable)
  refine ⟨q, _, hq, rfl, translation_of_fresh hs hq hmem _, hapart, ?_⟩
  rw [gone, mmClone, hcreate]
  dsimp only
  rw [cloneAreas_eq [] src.areas _ _ rfl src.ordered src.valid]
  by_cases hroom' : src.areas.length ≤ m.freeVmas
  · have hlast : (1 : BitVec 32) - 1 = 0 := rfl
    rw [if_pos hroom']
    simp only [mmRelease, hlast, if_pos, mmDestroy, foldl_destroyArea_vm, List.nil_append,
      pagesOf_copies, List.take_of_length_le hroom', if_pos hpage]
  · rw [if_neg hroom']
    simp only [mmDestroy, foldl_destroyArea_vm, List.nil_append, pagesOf_copies, if_pos hpage]

theorem mem_pagesOf {areas : List Area} {v : BitVec 32} :
    v ∈ pagesOf areas ↔ ∃ a ∈ areas, v ∈ a.pages := List.mem_flatMap

theorem not_unchanged (hs : Sane m.vm) (hfree : 0 < m.freeMms) (hroom : ¬ Exhausted m.vm.pmm)
    {src : Space} {a : Area} {v p : BitVec 32} (ha : a ∈ src.areas.take m.freeVmas)
    (hv : v ∈ a.pages) (hp : m.vm.translation v = some p) (hne : p ≠ 0) :
    ¬ Unchanged m.vm (gone m src.areas) := by
  intro hsame
  obtain ⟨q, c, -, -, htranslation, hapart, hgone⟩ := gone_eq hs hfree hroom src
  have hzero := foldl_unmaps hapart (mem_pagesOf.mpr ⟨a, ha, hv⟩)
  have hkept : vmmGetPhysical (gone m src.areas) v = p := by
    rw [physical_eq_translation, (hsame v).1, hp]
    rfl
  rw [hgone] at hkept
  exact hne (hkept.symm.trans hzero)

/-- A clone is undone exactly when there is nothing to make it from, or when no page of the areas
that were copied is mapped, but for pages at physical address 0. -/
theorem clone_undone_iff (hs : Sane m.vm) (src : Space) :
    Undone m src ↔
      (0 < m.freeMms → ¬ Exhausted m.vm.pmm →
        ∀ a ∈ src.areas.take m.freeVmas, ∀ v ∈ a.pages, ∀ p, m.vm.translation v = some p → p = 0) := by
  rw [undone_iff]
  constructor
  · intro hsame hfree hroom a ha v hv p hp
    by_contra hne
    exact not_unchanged hs hfree hroom ha hv hp hne hsame
  · intro hunmapped
    by_cases hnone : m.freeMms = 0 ∨ Exhausted m.vm.pmm
    · rw [gone_of_none hnone]
      exact fun v => ⟨rfl, fun _ _ => Iff.rfl⟩
    · rw [not_or] at hnone
      have hfree := Nat.pos_of_ne_zero hnone.1
      obtain ⟨q, c, hq, hpmm, htranslation, -, hgone⟩ := gone_eq hs hfree hnone.2 src
      have hzero : ∀ v ∈ pagesOf (src.areas.take m.freeVmas), vmmGetPhysical c v = 0 := by
        intro v hv
        obtain ⟨a, ha, hva⟩ := mem_pagesOf.mp hv
        rw [physical_eq_translation, htranslation]
        cases hp : m.vm.translation v with
        | none => rfl
        | some p => exact hunmapped hfree hnone.2 a ha v hva p hp
      rw [hgone, foldl_of_unmapped hzero]
      refine fun v => ⟨htranslation v, fun p _ => ?_⟩
      dsimp only
      rw [hpmm]
      exact used_free_setUsed hq

/-! ### Two clones with one free area -/

def oneArea : Machine where
  vm := Swap.onePage 6
  freeVmas := 1
  freeMms := 1

theorem oneArea_room : ¬ Exhausted oneArea.vm.pmm := fun hused =>
  have hfree : Bitmap.test (fun i => if i < 128 then 0xFF else 0) 1024 = false := by decide +kernel
  Bool.false_ne_true (hfree.symm.trans (hused 1024 (by decide)))

def pageArea (start : BitVec 32) : Area where
  vmStart := start
  vmEnd := start + 0x1000
  vmFlags := Vma.vmRead ||| Vma.vmWrite ||| Vma.vmPrivate

def untouched : Space where
  areas := [pageArea 0x401000]
  ordered := List.pairwise_singleton ..
  valid := by decide

def touched : Space where
  areas := [pageArea 0x400000, pageArea 0x401000]
  ordered := by decide
  valid := by decide

theorem untouched_undone : Undone oneArea untouched := by
  have hnone : oneArea.vm.translation 0x401000 = none := by decide +kernel
  refine (clone_undone_iff (Swap.onePage_sane 6) untouched).mpr fun _ _ a ha v hv p hp => ?_
  obtain rfl : a = pageArea 0x401000 := List.mem_singleton.mp ha
  obtain rfl : v = 0x401000 := by
    rw [show (pageArea 0x401000).pages = [0x401000] by decide] at hv
    exact List.mem_singleton.mp hv
  exact nomatch hnone.symm.trans hp

/-- The second area cannot be copied, and the first one's page goes with the clone. -/
theorem touched_not_undone : ¬ Undone oneArea touched := by
  rw [undone_iff]
  have hpage : oneArea.vm.translation 0x400000 = some 0x2BC000 := by decide +kernel
  have hmem : (0x400000 : BitVec 32) ∈ (pageArea 0x400000).pages := by decide
  exact not_unchanged (Swap.onePage_sane 6) (by decide) oneArea_room
    List.mem_cons_self hmem hpage (by decide)

end TocinOS.MmClone

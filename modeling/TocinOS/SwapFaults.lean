import TocinOS.Demand
import TocinOS.SwapRuns

/-! Page faults on pages that are in swap. -/

namespace TocinOS.Demand

open Pmm (pageSize maxPages pmmAllocPage)
open Swap (Embedded embeddedPages firstSlot giveSlot onePageAddr swapEntry swapFreeSlot swapInPage)
open Vmm (pagePresent pageWrite pagesPerTable vmmGetPhysical)

structure SwappedOut (s : State) (virt : BitVec 32) (k : Nat) (page : Nat → BitVec 32) : Prop where
  slot : k < embeddedPages
  dir : s.vm.dirEntry (Vmm.dirIndex virt) &&& pagePresent ≠ 0
  entry : s.vm.entry virt = swapEntry k
  area : ∃ a rest used, s.swap.areas = a :: rest ∧ Embedded a used ∧ k ∈ used
  stored : ∀ j < pagesPerTable, s.swap.storage (k * pageSize + 4 * j) = page j

def reclaimed (s : State) : Pmm.State :=
  if (pmmAllocPage s.vm.pmm).2 = 0 then (PageCache.vmmPageCacheEvict s.cache s.vm.pmm 4).2
  else s.vm.pmm

structure Resolved (s s' : State) (virt : BitVec 32) (page : Nat → BitVec 32) : Prop where
  mapped : vmmGetPhysical s'.vm virt ≠ 0
  contents : ∀ j < pagesPerTable, s'.vm.mem ((vmmGetPhysical s'.vm virt).toNat + 4 * j) = page j
  oneFrame : Bitmap.count maxPages s'.vm.pmm.memoryBitmap =
    Bitmap.count maxPages (reclaimed s).memoryBitmap + 1
  releasedOnce : s'.swap.areas.head?.map Swap.Area.freePages =
    s.swap.areas.head?.map fun a => a.freePages + 1

variable {s : State} {virt : BitVec 32} {k : Nat} {page : Nat → BitVec 32}

theorem swappedOut_of_mem {w : Swap.World} (h : Swap.Inv w) {r : Swap.Record} (hr : r ∈ w.out)
    (hs : s.swap = w.state) (hdir : s.vm.dirEntry (Vmm.dirIndex r.virt) &&& pagePresent ≠ 0)
    (hentry : s.vm.entry r.virt = r.entry) : SwappedOut s r.virt r.index r.page := by
  have hkept := h.kept r hr
  obtain ⟨a, rest, hareas, harea⟩ := h.area
  refine ⟨hkept.index_lt, hdir, hentry.trans hkept.entry,
    ⟨a, rest, _, hs ▸ hareas, harea, List.mem_map_of_mem hr⟩, ?_⟩
  rw [hs]
  exact hkept.page

/-! ### What the handler does -/

theorem swapEntry_present {k : Nat} (hk : k < embeddedPages) : swapEntry k &&& pagePresent = 0 := by
  have hall : ∀ k < 256, swapEntry k &&& pagePresent = 0 := by decide +kernel
  exact hall k hk

theorem SwappedOut.handlePageFault_eq (h : SwappedOut s virt k page) (err : BitVec 32) :
    handlePageFault s virt err = ((handleSwapIn s virt (swapEntry k)).1,
      if (handleSwapIn s virt (swapEntry k)).2 = 0 then .handled else .swapError) := by
  have hpte : getPte s.vm virt = some (s.vm.entryAddr virt) := if_neg h.dir
  have hword : s.vm.mem (s.vm.entryAddr virt) = swapEntry k := h.entry
  have hswapped := (firstSlot h.slot).swapped
  rw [handlePageFault]
  simp only [hpte, Option.map_some, Option.getD_some, hword, Option.isSome_some, true_and]
  rw [if_pos ⟨hswapped, swapEntry_present h.slot⟩]

theorem allocOrEvict_areas (s : State) : (allocOrEvict s).1.swap.areas = s.swap.areas := by
  rw [allocOrEvict]
  dsimp only
  split <;> rfl

section Slots

variable {t t' : Swap.State} {a : Swap.Area} {rest : List Swap.Area} {used : List Nat}

theorem swapFreeSlot_areas (hk : k < embeddedPages) (ha : a.totalPages = embeddedPages)
    (h : t.areas = a :: rest) :
    (swapFreeSlot t (BitVec.ofNat 32 k)).areas = giveSlot a k :: rest := by
  have hs := firstSlot hk
  have hlt : ¬ embeddedPages ≤ k := Nat.not_le_of_lt hk
  simp only [swapFreeSlot, if_neg hs.valid, h, hs.area, List.getElem?_cons_zero, ha, hs.index,
    if_neg hlt, List.set_cons_zero]
  rw [giveSlot, ha]

theorem swapReadPage_areas {slot addr : BitVec 32} (h : Swap.swapReadPage t slot addr = some t') :
    t'.areas = t.areas := by
  rw [Swap.swapReadPage] at h
  split at h
  · simp at h
  · dsimp only at h
    split at h
    · split at h
      · cases h
        rfl
      · simp at h
    · cases h
      rfl

theorem swapInPage_result (t : Swap.State) (virt pte : BitVec 32) :
    (swapInPage t virt pte).2 = 0 ∨ (swapInPage t virt pte).2 = -1 := by
  simp only [swapInPage]
  split
  · exact .inr rfl
  split
  · exact .inr rfl
  split
  · exact .inr rfl
  split
  · exact .inr rfl
  · exact .inl rfl

theorem swapInPage_areas (hk : k < embeddedPages) (ha : a.totalPages = embeddedPages)
    (h : t.areas = a :: rest) (hin : (swapInPage t virt (swapEntry k)).2 = 0) :
    (swapInPage t virt (swapEntry k)).1.areas = giveSlot a k :: rest := by
  simp only [swapInPage] at hin ⊢
  split
  · next hinit => simp [hinit] at hin
  · next hinit =>
    rw [if_neg hinit, if_neg (firstSlot hk).swapped] at hin
    rw [if_neg (firstSlot hk).swapped]
    split
    · next hphys => simp [hphys] at hin
    · next hphys =>
      rw [if_neg hphys] at hin
      split
      · next hread => simp [hread] at hin
      · next t' hread =>
        rw [(firstSlot hk).unpacked] at hread ⊢
        have hareas : t'.areas = a :: rest := (swapReadPage_areas hread).trans h
        exact swapFreeSlot_areas hk ha hareas

end Slots

theorem SwappedOut.released_twice (h : SwappedOut s virt k page) {err : BitVec 32}
    (hcall : (handlePageFault s virt err).2 = .handled) :
    (handlePageFault s virt err).1.swap.areas.head?.map Swap.Area.freePages =
      s.swap.areas.head?.map fun a => a.freePages + 2 := by
  obtain ⟨a, rest, used, hareas, harea, -⟩ := h.area
  rw [h.handlePageFault_eq] at hcall ⊢
  have hresult : (handleSwapIn s virt (swapEntry k)).2 = 0 := by
    by_contra hne
    simp only [if_neg hne, reduceCtorEq] at hcall
  have hfirst := allocOrEvict_areas s
  rw [hareas] at hfirst
  rw [handleSwapIn] at hresult ⊢
  generalize allocOrEvict s = r at *
  dsimp only at hresult ⊢
  split at hresult
  · simp at hresult
  · next hphys =>
    rw [if_neg hphys]
    split at hresult
    · simp at hresult
    · next hneg =>
      rw [if_neg hneg]
      have hzero : (swapInPage r.1.swap (pageOf virt) (swapEntry k)).2 = 0 := by
        refine (swapInPage_result _ _ _).resolve_right fun hminus => hneg ?_
        rw [hminus]
        decide
      have hin := swapInPage_areas h.slot harea.totalPages hfirst hzero
      have hagain := swapFreeSlot_areas h.slot (a := giveSlot a k) harea.totalPages hin
      have hcount := harea.freePages
      have hsmall : embeddedPages = 256 := rfl
      rw [hareas]
      rw [(firstSlot h.slot).unpacked]
      show Option.map Swap.Area.freePages
        (swapFreeSlot _ (BitVec.ofNat 32 k)).areas.head? = _
      rw [hagain]
      simp only [List.head?_cons, Option.map_some, giveSlot, Option.some.injEq]
      omega

/-- The handler never does it right. -/
theorem swap_fault_not_resolved (h : SwappedOut s virt k page) {err : BitVec 32}
    (hcall : (handlePageFault s virt err).2 = .handled) :
    ¬ Resolved s (handlePageFault s virt err).1 virt page := by
  intro hr
  obtain ⟨a, rest, -, hareas, -⟩ := h.area
  have htwice := h.released_twice hcall
  rw [hr.releasedOnce, hareas] at htwice
  simp only [List.head?_cons, Option.map_some, Option.some.injEq] at htwice
  omega

def oneSwapped : State where
  swap := (Swap.onePageOut pageWrite).state
  cache := PageCache.vmmPageCacheInit ⟨false, fun _ => {}, [], fun _ => [], []⟩
  vma := ⟨false, fun _ => {}, [], IntrusiveList.Bank.empty, 0, 0, 0, 0x40000000⟩
  hasMm := false

def oneSwappedRecord : Swap.Record :=
  Swap.recordOf (Swap.onePageWorld pageWrite).state (Swap.onePageOut pageWrite).state
    onePageAddr

theorem oneSwapped_swappedOut :
    SwappedOut oneSwapped onePageAddr oneSwappedRecord.index oneSwappedRecord.page := by
  have hinv := (Swap.onePageWorld_start pageWrite).inv.step
    (Swap.onePage_step Swap.onePage_served (by decide +kernel))
  exact swappedOut_of_mem (r := oneSwappedRecord) hinv (List.mem_cons_self ..) rfl
    (by decide +kernel) (by decide +kernel)

theorem oneSwapped_not_resolved :
    (handlePageFault oneSwapped onePageAddr 0).2 = .handled ∧
      ¬ Resolved oneSwapped (handlePageFault oneSwapped onePageAddr 0).1 onePageAddr
        oneSwappedRecord.page := by
  have hhandled : (handlePageFault oneSwapped onePageAddr 0).2 = .handled := by decide +kernel
  exact ⟨hhandled, swap_fault_not_resolved oneSwapped_swappedOut hhandled⟩

/-- After one fault two slots more are free, although one page has come back. -/
theorem swap_fault_releases_twice :
    ∃ s virt k page err, SwappedOut s virt k page ∧ (handlePageFault s virt err).2 = .handled ∧
      ¬ Resolved s (handlePageFault s virt err).1 virt page := by
  refine ⟨oneSwapped, onePageAddr, _, _, 0, oneSwapped_swappedOut, by decide +kernel,
    fun h => ?_⟩
  exact absurd h.releasedOnce (by decide +kernel)

end TocinOS.Demand

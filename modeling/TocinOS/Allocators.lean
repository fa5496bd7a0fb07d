import TocinOS.BuddyRuns
import TocinOS.PmmRuns

/-! The bitmap allocator and the buddy allocator side by side. Both manage the
pages from 4 MiB to 128 MiB, and neither knows what the other handed out. -/

namespace TocinOS.Allocators

open Relation (ReflTransGen)
open Buddy (buddyInit inRegion pageToAddr)

structure Config where
  pmm : Pmm.State
  buddy : Buddy.State
  pages : List Nat
  blocks : List (Nat × Nat)

inductive Step (c : Config) : Config → Prop
  | pmmFailed {s : Pmm.State} (h : Pmm.pmmAllocPage c.pmm = (s, 0)) : Step c { c with pmm := s }
  | pmmAlloc {s : Pmm.State} {addr : Nat} (h : Pmm.pmmAllocPage c.pmm = (s, addr))
      (ha : addr ≠ 0) : Step c { c with pmm := s, pages := addr :: c.pages }
  | pmmFree {addr : Nat} (ha : addr ∈ c.pages) :
      Step c { c with pmm := Pmm.pmmFreePage c.pmm addr, pages := c.pages.erase addr }
  | buddyFailed {s : Buddy.State} {order : Nat} (h : Buddy.buddyAlloc c.buddy order = (s, 0)) :
      Step c { c with buddy := s }
  | buddyAlloc {s : Buddy.State} {order addr : Nat}
      (h : Buddy.buddyAlloc c.buddy order = (s, addr)) (ha : addr ≠ 0) :
      Step c { c with buddy := s, blocks := (addr, order) :: c.blocks }
  | buddyFree {s : Buddy.State} {addr order : Nat} (hb : (addr, order) ∈ c.blocks)
      (h : Buddy.buddyFree c.buddy addr order = some s) :
      Step c { c with buddy := s, blocks := c.blocks.erase (addr, order) }

def Apart (c : Config) : Prop := ∀ a ∈ c.pages, ∀ b ∈ c.blocks, ¬ inRegion b a

variable {p : Nat} {reserved : Nat → Prop} {c d : Config}

def Inv (reserved : Nat → Prop) (c : Config) : Prop :=
  Pmm.Inv c.pmm reserved c.pages ∧
    ∃ L P, Buddy.Inv c.buddy L P ∧ c.blocks = P.map Buddy.region

theorem Inv.step (h : Inv reserved c) (hs : Step c d) : Inv reserved d := by
  obtain ⟨hpmm, L, P, hbuddy, hblocks⟩ := h
  cases hs with
  | pmmFailed he => exact ⟨hpmm.step (.allocFailed he), L, P, hbuddy, hblocks⟩
  | pmmAlloc he ha => exact ⟨hpmm.step (.alloc he ha), L, P, hbuddy, hblocks⟩
  | pmmFree ha => exact ⟨hpmm.step (.free ha), L, P, hbuddy, hblocks⟩
  | buddyFailed he => exact ⟨hpmm, hbuddy.step hblocks (.allocFailed he)⟩
  | buddyAlloc he ha => exact ⟨hpmm, hbuddy.step hblocks (.alloc he ha)⟩
  | buddyFree hb he => exact ⟨hpmm, hbuddy.step hblocks (.free hb he)⟩

theorem Inv.run (h : Inv reserved c) (hrun : ReflTransGen Step c d) : Inv reserved d := by
  induction hrun with
  | refl => exact h
  | tail _ hs ih => exact ih.step hs

/-- All pages that the buddy allocator manages are reserved in the bitmap. -/
def RegionReserved (reserved : Nat → Prop) : Prop :=
  ∀ p, Buddy.buddyStartAddr ≤ p * Pmm.pageSize → p * Pmm.pageSize < Buddy.buddyEndAddr → reserved p

theorem Inv.apart (h : Inv reserved c) (hregion : RegionReserved reserved) : Apart c := by
  obtain ⟨hpmm, L, P, hbuddy, hblocks⟩ := h
  intro a ha b hb hin
  have hout : Buddy.Outstanding c.buddy c.blocks := ⟨L, P, hbuddy, hblocks ▸ .rfl⟩
  obtain ⟨hstart, hend⟩ := hout.bounds hb hin
  obtain ⟨p, _, hres, rfl⟩ := hpmm.given a ha
  exact hres (hregion p hstart hend)

theorem pmmAlloc_step (c : Config) : ∃ d, Step c d ∧ d.pmm = (Pmm.pmmAllocPage c.pmm).1 ∧
    d.buddy = c.buddy ∧ d.blocks = c.blocks ∧
    ((Pmm.pmmAllocPage c.pmm).2 ≠ 0 → (Pmm.pmmAllocPage c.pmm).2 ∈ d.pages) := by
  by_cases hzero : (Pmm.pmmAllocPage c.pmm).2 = 0
  · exact ⟨_, .pmmFailed (Prod.ext rfl hzero), rfl, rfl, rfl, fun hne => absurd hzero hne⟩
  · exact ⟨_, .pmmAlloc rfl hzero, rfl, rfl, rfl, fun _ => List.mem_cons_self⟩

theorem pmmAlloc_run (n : Nat) (c : Config) : ∃ d, ReflTransGen Step c d ∧
    d.pmm = (fun s => (Pmm.pmmAllocPage s).1)^[n] c.pmm ∧ d.buddy = c.buddy ∧ d.blocks = c.blocks := by
  induction n generalizing c with
  | zero => exact ⟨c, .refl, rfl, rfl, rfl⟩
  | succ n ih =>
    obtain ⟨d, hs, hpmm, hbuddy, hblocks, _⟩ := pmmAlloc_step c
    obtain ⟨e, hrun, hpmm', hbuddy', hblocks'⟩ := ih d
    refine ⟨e, .head hs hrun, ?_, hbuddy'.trans hbuddy, hblocks'.trans hblocks⟩
    rw [hpmm', hpmm, Function.iterate_succ_apply]

/-- Allocating over and over, the bitmap allocator gives out every page that is not reserved. -/
theorem Inv.exists_page (h : Inv reserved c) (hp : p < Pmm.maxPages) (hres : ¬ reserved p) :
    ∃ d, ReflTransGen Step c d ∧ p * Pmm.pageSize ∈ d.pages := by
  by_cases hout : p * Pmm.pageSize ∈ c.pages
  · exact ⟨c, .refl, hout⟩
  obtain ⟨n, hn⟩ := h.1.available hp hres hout
  obtain ⟨d, hrun, hpmm, _⟩ := pmmAlloc_run n c
  obtain ⟨e, hs, _, _, _, hmem⟩ := pmmAlloc_step d
  rw [hpmm, hn] at hmem
  refine ⟨e, hrun.tail hs, hmem fun hzero => hres (h.1.low p ?_)⟩
  rcases Nat.mul_eq_zero.mp hzero with rfl | hsize
  · decide
  · exact absurd hsize (by decide)

/-- Allocating single pages over and over, the buddy allocator gives out its whole region. -/
theorem exists_block {x : Nat} (hstart : Buddy.buddyStartAddr ≤ x) (hend : x < Buddy.buddyEndAddr)
    {L : Nat → List Nat} {P : List Dyadic.Block} (h : Buddy.Inv c.buddy L P)
    (hblocks : c.blocks = P.map Buddy.region) :
    ∃ d, ReflTransGen Step c d ∧ d.pages = c.pages ∧ ∃ b ∈ d.blocks, inRegion b x := by
  -- Every allocation lowers the number of free pages.
  induction hfree : Buddy.pages (Buddy.freeBlocks L) using Nat.strong_induction_on
    generalizing c L P with
  | _ k ih =>
    rcases h.buddyAlloc 0 with ⟨_, hnone⟩ | ⟨t, M, page, he, _, _, hM⟩
    · have hempty : Buddy.freeBlocks L = [] := by
        refine List.eq_nil_iff_forall_not_mem.mpr fun b hb => ?_
        have hmem := (Buddy.mem_freeBlocks.mp hb).2
        rw [hnone b.order (Nat.zero_le _)] at hmem
        exact List.not_mem_nil hmem
      have hpage : (x - Buddy.buddyStartAddr) / Buddy.pageSize < Buddy.buddyTotalPages := by
        simp only [Buddy.buddyTotalPages, Buddy.buddyEndAddr, Buddy.buddyStartAddr, Buddy.pageSize] at *
        omega
      obtain ⟨b, hb, hcov⟩ := h.parts.tiling.exists_covers hpage
      rw [hempty, List.nil_append] at hb
      refine ⟨c, .refl, rfl, _, ?_, Buddy.inRegion_region.mpr ⟨hstart, hcov⟩⟩
      rw [hblocks]
      exact List.mem_map_of_mem hb
    · have hbefore := h.pages_total
      have hafter := hM.pages_total
      simp only [Buddy.pages_cons, Nat.pow_zero] at hafter
      have hne : pageToAddr page ≠ 0 := by simp [pageToAddr]
      obtain ⟨d, hrun, hpages, hcover⟩ := @ih (Buddy.pages (Buddy.freeBlocks M)) (by omega)
        { c with buddy := t, blocks := (pageToAddr page, 0) :: c.blocks } M (⟨page, 0⟩ :: P) hM
        (by rw [hblocks]; rfl) rfl
      exact ⟨d, .head (.buddyAlloc he hne) hrun, hpages, hcover⟩

def start (mem : Pmm.Memory) (info : Option Pmm.BootInfo) (s : Pmm.State) : Config where
  pmm := Pmm.pmmInitFromBootinfo mem info s
  buddy := buddyInit {}
  pages := []
  blocks := []

theorem start_inv (mem : Pmm.Memory) (info : Option Pmm.BootInfo) (s : Pmm.State) :
    Inv (Pmm.Reserved mem info) (start mem info s) := by
  obtain ⟨L, hL⟩ := Buddy.buddyInit_inv
  exact ⟨Pmm.pmmInitFromBootinfo_inv mem info s, L, [], hL, rfl⟩

/-- The allocators never share a page just when the boot information reserves the whole region of the
buddy allocator. -/
theorem always_apart_iff (mem : Pmm.Memory) (info : Option Pmm.BootInfo) (s : Pmm.State) :
    (∀ c, ReflTransGen Step (start mem info s) c → Apart c) ↔
      RegionReserved (Pmm.Reserved mem info) := by
  constructor
  · intro h p hstart hend
    by_contra hres
    have hp : p < Pmm.maxPages := by
      simp only [Pmm.maxPages, Pmm.memorySize, Pmm.pageSize, Buddy.buddyEndAddr] at *
      omega
    obtain ⟨c, hrun, hpage⟩ := (start_inv mem info s).exists_page hp hres
    obtain ⟨_, L, P, hbuddy, hblocks⟩ := (start_inv mem info s).run hrun
    obtain ⟨d, hrun', hpages, b, hb, hin⟩ := exists_block hstart hend hbuddy hblocks
    exact h d (hrun.trans hrun') _ (hpages ▸ hpage) b hb hin
  · intro hregion c hrun
    exact ((start_inv mem info s).run hrun).apart hregion

def regionStart : Config := start Pmm.regionMemory (some Pmm.regionInfo) Pmm.zeroState

theorem region_reserved_iff :
    Pmm.Reserved Pmm.regionMemory (some Pmm.regionInfo) p ↔ p < 0x7C00 := by
  have hentries : Pmm.regionInfo.entries Pmm.regionMemory = [⟨0x200000, 0x7A00000, 2⟩] := by
    decide
  have hfb : ¬ Pmm.regionInfo.FramebufferAt p := fun h => h.1 rfl
  simp only [Pmm.Reserved, Option.some.injEq, exists_eq_left', hentries, List.mem_singleton,
    exists_eq_left, Pmm.MmapEntry.Reserves, hfb, or_false, Pmm.overlaps_iff]
  simp only [Pmm.lowPages, Pmm.pageSize, Pmm.memUsable]
  simp
  omega

theorem region_alloc : (Pmm.pmmAllocPage regionStart.pmm).2 = 0x7C00000 := by
  have hinv : Inv _ regionStart := start_inv Pmm.regionMemory (some Pmm.regionInfo) Pmm.zeroState
  rcases hinv.1.alloc with ⟨_, hall⟩ | ⟨p, _, hres, _, _, hmin, he, _⟩
  · rcases hall 0x7C00 (by decide) with hres | hmem
    · exact absurd (region_reserved_iff.mp hres) (by decide)
    · exact absurd hmem List.not_mem_nil
  · have hp : p = 0x7C00 := by
      rw [region_reserved_iff] at hres
      by_contra hne
      rcases hmin 0x7C00 (by omega) with hres' | hmem
      · exact absurd (region_reserved_iff.mp hres') (by decide)
      · exact absurd hmem List.not_mem_nil
    rw [he, hp]
    decide

theorem exists_shared {a : Nat} (hpage : (Pmm.pmmAllocPage c.pmm).2 = a)
    (hblock : (Buddy.buddyAlloc c.buddy 0).2 = a) (ha : a ≠ 0) :
    ∃ d, ReflTransGen Step c d ∧
      d.pages = a :: c.pages ∧ d.blocks = (a, 0) :: c.blocks ∧ ¬ Apart d := by
  have hpage' : Pmm.pmmAllocPage c.pmm = ((Pmm.pmmAllocPage c.pmm).1, a) := Prod.ext rfl hpage
  have hblock' : Buddy.buddyAlloc c.buddy 0 = ((Buddy.buddyAlloc c.buddy 0).1, a) :=
    Prod.ext rfl hblock
  have hpmm := Step.pmmAlloc hpage' ha
  have hbuddy := Step.buddyAlloc
    (c := { c with pmm := (Pmm.pmmAllocPage c.pmm).1, pages := a :: c.pages }) hblock' ha
  refine ⟨_, (ReflTransGen.single hpmm).tail hbuddy, rfl, rfl, fun hapart => ?_⟩
  refine hapart a List.mem_cons_self (a, 0) List.mem_cons_self ⟨Nat.le_refl a, ?_⟩
  simp

/-- With the memory below `0x7C00000` reserved, the first page of the one
allocator is the first block of the other. -/
theorem region_page_shared :
    ∃ c, ReflTransGen Step regionStart c ∧
      c.pages = [0x7C00000] ∧ c.blocks = [(0x7C00000, 0)] ∧ ¬ Apart c := by
  have hblock : (Buddy.buddyAlloc regionStart.buddy 0).2 = 0x7C00000 := by
    dsimp only [regionStart, start]
    decide
  exact exists_shared region_alloc hblock (by decide)

end TocinOS.Allocators

import TocinOS.BuddyCalls

/-! Runs of the buddy allocator: after `buddy_init`, any sequence of
`buddy_alloc` calls and of `buddy_free` calls for outstanding blocks. -/

namespace TocinOS.Buddy

open Function (update)
open IntrusiveList Dyadic

theorem addMaxBlock_eq (s : State) {page : Nat} (h : page < buddyTotalPages) :
    addMaxBlock s (pageToAddr page) =
      { addToFreeList s page (maxOrder - 1) with
        totalFree := (s.totalFree + 1024) % 2 ^ 64 } := by
  have hsize : 1 <<< (maxOrder - 1) = 1024 := by decide
  have htotal : (addToFreeList s page (maxOrder - 1)).totalFree = s.totalFree := rfl
  simp only [addMaxBlock, addrToPage_pageToAddr h, hsize, htotal]

def maxBlock (page : Nat) : Block := ⟨page, maxOrder - 1⟩

variable {L : Nat → List Nat} {P : List Block} {b : Block}

theorem addMaxBlocks_parts {l : List Nat} (hl : ∀ p ∈ l, p < buddyTotalPages) {s : State}
    {H : List Block} (h : Parts s L (l.map maxBlock ++ H))
    (hfree : s.totalFree + 1024 * l.length < 2 ^ 64) :
    ∃ t M, l.foldl (fun s p => addMaxBlock s (pageToAddr p)) s = t ∧ Parts t M H ∧
      (∀ k, k ≠ maxOrder - 1 → M k = L k) ∧
      (∀ p, (t.pageDescriptors p).refCount = (s.pageDescriptors p).refCount) ∧
      t.totalUsed = s.totalUsed ∧ t.totalFree = s.totalFree + 1024 * l.length := by
  induction l generalizing s L with
  | nil => exact ⟨s, L, rfl, h, fun _ _ => rfl, fun _ => rfl, rfl, rfl⟩
  | cons p l ih =>
    rw [List.length_cons] at hfree
    have hlt : s.totalFree + 1024 < 2 ^ 64 :=
      Nat.lt_of_le_of_lt (Nat.add_le_add_left (Nat.le_mul_of_pos_right _ l.length.succ_pos) _) hfree
    have hmod := Nat.mod_eq_of_lt hlt
    have hcounts := sameCounts_add s p (maxOrder - 1)
    have hadd := Parts.add (p := p) (k := maxOrder - 1) h (by decide)
    generalize hu : ({ addToFreeList s p (maxOrder - 1) with
      totalFree := s.totalFree + 1024 } : State) = u
    have hparts : Parts u _ _ :=
      hadd.congr (by rw [← hu]) (by rw [← hu]) (fun _ _ _ => by rw [← hu])
    have hfreeU : u.totalFree = s.totalFree + 1024 := by rw [← hu]
    have husedU : u.totalUsed = s.totalUsed := by
      rw [← hu]
      exact hcounts.totalUsed
    have hrefU : ∀ q, (u.pageDescriptors q).refCount = (s.pageDescriptors q).refCount := by
      intro q
      rw [← hu]
      exact hcounts.refCount q
    obtain ⟨t, M, ht, hM, hk, hr, hused, hf⟩ :=
      ih (fun q hq => hl q (List.mem_cons_of_mem _ hq)) hparts (by omega)
    refine ⟨t, M, ?_, hM, fun k hne => ?_, fun q => (hr q).trans (hrefU q),
      hused.trans husedU, ?_⟩
    · rw [List.foldl_cons, addMaxBlock_eq s (hl p List.mem_cons_self), hmod, hu, ht]
    · rw [hk k hne, Function.update_of_ne hne]
    · rw [hf, hfreeU, List.length_cons]
      omega

def maxPages : List Nat := (List.range 31).map (· * 1024)

theorem maxPages_tiling : Tiling buddyTotalPages (maxPages.map maxBlock) := by
  rw [maxPages, List.map_map]
  exact Tiling.uniform 31 10

theorem buddyInit_eq :
    buddyInit {} =
      { maxPages.foldl (fun s p => addMaxBlock s (pageToAddr p)) {} with
        buddyInitialized := true } := by
  have haddr (i : Nat) :
      buddyStartAddr + i * (pageSize <<< (maxOrder - 1)) = pageToAddr (i * 1024) := by
    simp only [pageToAddr, pageSize, maxOrder, Nat.shiftLeft_eq]
    omega
  have hnum : (buddyEndAddr - buddyStartAddr) / (pageSize <<< (maxOrder - 1)) = 31 := by decide
  simp only [buddyInit, Bank.empty, Bool.false_eq_true, if_false, ite_self, hnum, haddr, maxPages,
    List.foldl_map]

theorem buddyInit_inv : ∃ L, Inv (buddyInit {}) L [] := by
  have hnil : freeBlocks (fun _ => []) = [] := by simp [freeBlocks]
  have hempty : Parts ({} : State) (fun _ => []) (maxPages.map maxBlock ++ []) := by
    refine ⟨Bank.rep_empty, fun _ _ => rfl, fun _ _ => rfl, fun _ _ hp => by simp at hp, ?_⟩
    rw [hnil, List.append_nil]
    exact maxPages_tiling
  have hlt : ∀ p ∈ maxPages, p < buddyTotalPages := by decide
  obtain ⟨t, M, ht, hM, hk, hr, hu, hf⟩ := addMaxBlocks_parts hlt hempty (by decide)
  refine ⟨M, ?_⟩
  rw [buddyInit_eq, ht]
  refine ⟨rfl, hM.congr rfl rfl (fun _ _ _ => rfl), ?_, by simp, fun p => ?_, hu, ?_⟩
  · intro b hb ho
    have hmem := (mem_freeBlocks.mp hb).2
    rw [hk b.order (Nat.ne_of_lt ho)] at hmem
    exact absurd hmem List.not_mem_nil
  · exact (hr p).trans (by simp)
  · have hsum := hM.tiling.sum_size
    rw [List.append_nil] at hsum
    exact hf.trans hsum.symm

inductive Step : State × List (Nat × Nat) → State × List (Nat × Nat) → Prop
  | allocFailed {s t : State} {out : List (Nat × Nat)} {order : Nat}
      (h : buddyAlloc s order = (t, 0)) : Step (s, out) (t, out)
  | alloc {s t : State} {out : List (Nat × Nat)} {order addr : Nat}
      (h : buddyAlloc s order = (t, addr)) (ha : addr ≠ 0) : Step (s, out) (t, (addr, order) :: out)
  | free {s t : State} {out : List (Nat × Nat)} {addr order : Nat} (hb : (addr, order) ∈ out)
      (h : buddyFree s addr order = some t) : Step (s, out) (t, out.erase (addr, order))

def Reachable (s : State) (out : List (Nat × Nat)) : Prop :=
  Relation.ReflTransGen Step (buddyInit {}, []) (s, out)

def region (b : Block) : Nat × Nat := (pageToAddr b.start, b.order)

theorem region_injective : Function.Injective region := by
  rintro ⟨p, k⟩ ⟨q, j⟩ h
  simp only [region, pageToAddr, pageSize, Prod.mk.injEq, Block.mk.injEq] at *
  omega

theorem Inv.step {s t : State} {out out' : List (Nat × Nat)} (h : Inv s L P)
    (ho : out = P.map region) (hs : Step (s, out) (t, out')) :
    ∃ M Q, Inv t M Q ∧ out' = Q.map region := by
  cases hs with
  | @allocFailed _ _ _ order he =>
    rcases h.buddyAlloc order with ⟨he', _⟩ | ⟨t', M, page, he', _, _, hM⟩
    · rw [he] at he'
      cases he'
      exact ⟨L, P, h, ho⟩
    · rw [he] at he'
      have := (Prod.mk.inj he').2
      simp only [pageToAddr, buddyStartAddr] at this
      omega
  | @alloc _ _ _ order addr he ha =>
    rcases h.buddyAlloc order with ⟨he', _⟩ | ⟨t', M, page, he', _, _, hM⟩
    · rw [he] at he'
      exact absurd (Prod.mk.inj he').2 ha
    · rw [he] at he'
      cases he'
      exact ⟨M, _, hM, by rw [ho]; rfl⟩
  | free hb he =>
    rw [ho] at hb
    obtain ⟨b, hbP, hreg⟩ := List.mem_map.mp hb
    obtain ⟨t', M, he', hM⟩ := h.buddyFree hbP
    cases hreg
    rw [he, Option.some.injEq] at he'
    subst he'
    exact ⟨M, _, hM, by rw [ho, List.map_erase region_injective]; rfl⟩

theorem Reachable.inv {s : State} {out : List (Nat × Nat)} (h : Reachable s out) :
    ∃ L P, Inv s L P ∧ out = P.map region := by
  unfold Reachable at h
  generalize he : (s, out) = c at h
  induction h generalizing s out with
  | refl =>
    cases he
    obtain ⟨L, hL⟩ := buddyInit_inv
    exact ⟨L, [], hL, rfl⟩
  | @tail c d _ hs ih =>
    obtain ⟨L, P, hL, ho⟩ := ih rfl
    exact hL.step ho (he ▸ hs)

def inRegion (b : Nat × Nat) (x : Nat) : Prop := b.1 ≤ x ∧ x < b.1 + pageSize * 2 ^ b.2

theorem inRegion_region {x : Nat} : inRegion (region b) x ↔
      buddyStartAddr ≤ x ∧ b.covers ((x - buddyStartAddr) / pageSize) = true := by
  rw [Block.covers_iff]
  simp only [inRegion, region, pageToAddr, pageSize]
  generalize 2 ^ b.order = size
  omega

theorem dvd_region (ha : b.Aligned) (ho : b.order < maxOrder) :
    pageSize * 2 ^ b.order ∣ (region b).1 := by
  obtain ⟨j, hj⟩ := Nat.exists_eq_add_of_le (Nat.le_of_lt_succ ho)
  have hstart : buddyStartAddr = pageSize * 2 ^ b.order * 2 ^ j := by
    rw [Nat.mul_assoc, ← Nat.pow_add, ← hj]
    rfl
  have hpage : pageSize * 2 ^ b.order ∣ b.start * pageSize := by
    rw [Nat.mul_comm b.start]
    exact Nat.mul_dvd_mul_left _ ha
  exact Nat.dvd_add (hstart ▸ Nat.dvd_mul_right _ _) hpage

structure FreeList (s : State) (k : Nat) (l : List Nat) : Prop where
  head : s.links.head k = l.head?
  linked : Linked s.links.next s.links.prev none l none
  nodup : l.Nodup
  count : s.freePages k = l.length
  order : ∀ p ∈ l, (s.pageDescriptors p).order = k

theorem Inv.freeList {s : State} (h : Inv s L P) {k : Nat} (hk : k < maxOrder) :
    FreeList s k (L k) :=
  ⟨h.parts.rep.head k, h.parts.rep.linked k, h.parts.rep.nodup k, h.parts.count k hk,
    h.parts.order k⟩

theorem Inv.order_lt {s : State} (h : Inv s L P) (hb : b ∈ freeBlocks L ++ P) :
    b.order < maxOrder := by
  rcases List.mem_append.mp hb with hb | hb
  · exact (mem_freeBlocks.mp hb).1
  · exact h.bound b hb

structure Partitioned (s : State) (L : Nat → List Nat) (out : List (Nat × Nat)) : Prop where
  lists : ∀ k < maxOrder, FreeList s k (L k)
  disjoint : ((freeBlocks L).map region ++ out).Pairwise
    fun b c => ∀ x, ¬ (inRegion b x ∧ inRegion c x)
  aligned : ∀ b ∈ (freeBlocks L).map region ++ out, pageSize * 2 ^ b.2 ∣ b.1
  covered : ∀ x, (∃ b ∈ (freeBlocks L).map region ++ out, inRegion b x) ↔
    buddyStartAddr ≤ x ∧ x < buddyEndAddr
  totalFree : s.totalFree = ((freeBlocks L).map fun b => 2 ^ b.order).sum
  totalUsed : s.totalUsed = (out.map fun b => 2 ^ b.2).sum

/-- After any matched calls the free and the outstanding blocks are disjoint,
aligned and cover the managed range, the lists and counters agree with them,
and each outstanding block can be freed. -/
theorem reachable_partition {s : State} {out : List (Nat × Nat)} (h : Reachable s out) :
    (∀ b ∈ out, ∃ t, buddyFree s b.1 b.2 = some t) ∧ ∃ L, Partitioned s L out := by
  obtain ⟨L, P, hinv, rfl⟩ := h.inv
  have htiling := hinv.parts.tiling
  refine ⟨?_, L, ?_⟩
  · intro b hb
    obtain ⟨c, hc, rfl⟩ := List.mem_map.mp hb
    obtain ⟨t, _, ht, _⟩ := hinv.buddyFree hc
    exact ⟨t, ht⟩
  refine ⟨fun k hk => hinv.freeList hk, ?_, ?_, fun x => ?_, hinv.totalFree, ?_⟩
  · rw [← List.map_append]
    refine List.pairwise_map.mpr (htiling.pairwise.imp ?_)
    rintro b c hbc x ⟨hb, hc⟩
    exact hbc _ ⟨(inRegion_region.mp hb).2, (inRegion_region.mp hc).2⟩
  · intro b hb
    rw [← List.map_append] at hb
    obtain ⟨c, hc, rfl⟩ := List.mem_map.mp hb
    exact dvd_region (htiling.aligned c hc) (hinv.order_lt hc)
  · have hpage (hx : buddyStartAddr ≤ x) :
        (x - buddyStartAddr) / pageSize < buddyTotalPages ↔ x < buddyEndAddr := by
      simp only [buddyTotalPages, buddyEndAddr, buddyStartAddr, pageSize] at hx ⊢
      omega
    rw [← List.map_append]
    constructor
    · rintro ⟨b, hb, hx⟩
      obtain ⟨c, hc, rfl⟩ := List.mem_map.mp hb
      obtain ⟨hstart, hcov⟩ := inRegion_region.mp hx
      exact ⟨hstart, (hpage hstart).mp (htiling.lt_of_covers hc hcov)⟩
    · rintro ⟨hstart, hend⟩
      obtain ⟨c, hc, hcov⟩ := htiling.exists_covers ((hpage hstart).mpr hend)
      exact ⟨region c, List.mem_map_of_mem hc, inRegion_region.mpr ⟨hstart, hcov⟩⟩
  · rw [hinv.totalUsed, List.map_map]
    rfl

theorem partition_after_alloc :
    Reachable (buddyAlloc (buddyInit {}) 0).1 [(0x7C00000, 0)] ∧
      ∃ L, Partitioned (buddyAlloc (buddyInit {}) 0).1 L [(0x7C00000, 0)] := by
  have hrun : Reachable (buddyAlloc (buddyInit {}) 0).1 [(0x7C00000, 0)] :=
    .single (.alloc (Prod.ext rfl (by decide)) (by decide))
  exact ⟨hrun, (reachable_partition hrun).2⟩

theorem Inv.restored {s : State} (h : Inv s L []) :
    (∀ k < maxOrder - 1, L k = []) ∧ (L (maxOrder - 1)).Perm maxPages := by
  have htiling : Tiling buddyTotalPages (freeBlocks L) := by
    simpa using h.parts.tiling
  have hmax {p : Nat} (hp : p ∈ maxPages) : maxBlock p ∈ freeBlocks L := by
    have hq := maxPages_tiling.aligned _ (List.mem_map_of_mem hp)
    obtain ⟨b, hb, ho, hcov⟩ := h.coalesced.exists_single htiling.aligned
      (fun b hb c hc x => htiling.eq_of_covers hb hc) hq (Nat.le_refl _)
      (fun x hx => htiling.exists_covers
        (maxPages_tiling.lt_of_covers (List.mem_map_of_mem hp) hx))
    have horder : b.order = (maxBlock p).order :=
      Nat.le_antisymm (Nat.le_of_lt_succ (mem_freeBlocks.mp hb).1) ho
    rwa [← (htiling.aligned b hb).eq_of_order hq horder hcov (Block.covers_start _)]
  have hall {b : Block} (hb : b ∈ freeBlocks L) : ∃ p ∈ maxPages, b = maxBlock p := by
    have hlt := htiling.lt_of_covers hb b.covers_start
    obtain ⟨c, hc, hcov⟩ := maxPages_tiling.exists_covers hlt
    obtain ⟨p, hp, rfl⟩ := List.mem_map.mp hc
    exact ⟨p, hp, htiling.eq_of_covers hb (hmax hp) b.covers_start hcov⟩
  constructor
  · intro k hk
    by_contra hne
    obtain ⟨p, hp⟩ := List.exists_mem_of_ne_nil _ hne
    obtain ⟨q, _, he⟩ := hall (h.parts.mem_block hp)
    exact absurd (congrArg Block.order he) (Nat.ne_of_lt hk)
  · refine (List.perm_ext_iff_of_nodup (h.parts.rep.nodup _) (by decide)).mpr fun p => ?_
    constructor
    · intro hp
      obtain ⟨q, hq, he⟩ := hall (h.parts.mem_block hp)
      obtain rfl : p = q := congrArg Block.start he
      exact hq
    · intro hp
      exact (mem_freeBlocks.mp (hmax hp)).2

theorem Inv.free_all {s : State} {Q : List Block} (h : Inv s L P) (hQ : Q.Perm P) :
    ∃ t M, (Q.map region).foldlM (fun s b => Buddy.buddyFree s b.1 b.2) s = some t ∧
      Inv t M [] := by
  induction Q generalizing s L P with
  | nil =>
    rw [List.nil_perm.mp hQ] at h
    exact ⟨s, L, rfl, h⟩
  | cons b Q ih =>
    obtain ⟨t, M, ht, hM⟩ := h.buddyFree (hQ.subset List.mem_cons_self)
    have hQ' : Q.Perm (P.erase b) := by
      have := hQ.erase b
      rwa [List.erase_cons_head] at this
    obtain ⟨u, M', hu, hM'⟩ := ih hM hQ'
    refine ⟨u, M', ?_, hM'⟩
    rw [List.map_cons, List.foldlM_cons]
    change (Buddy.buddyFree s (pageToAddr b.start) b.order).bind _ = _
    rw [ht]
    exact hu

def Outstanding (s : State) (B : List (Nat × Nat)) : Prop :=
  ∃ L P, Inv s L P ∧ B.Perm (P.map region)

theorem Reachable.outstanding {s : State} {B : List (Nat × Nat)} (h : Reachable s B) :
    Outstanding s B := by
  obtain ⟨L, P, hinv, rfl⟩ := h.inv
  exact ⟨L, P, hinv, .rfl⟩

namespace Outstanding

variable {s : State} {B C : List (Nat × Nat)}

theorem perm (h : Outstanding s B) (hp : B.Perm C) : Outstanding s C := by
  obtain ⟨L, P, hinv, hB⟩ := h
  exact ⟨L, P, hinv, hp.symm.trans hB⟩

theorem alloc (h : Outstanding s B) (order : Nat) :
    buddyAlloc s order = (s, 0) ∨
      ∃ t addr, buddyAlloc s order = (t, addr) ∧ addr ≠ 0 ∧ Outstanding t ((addr, order) :: B) := by
  obtain ⟨L, P, hinv, hB⟩ := h
  rcases hinv.buddyAlloc order with ⟨he, _⟩ | ⟨t, M, page, he, _, _, hM⟩
  · exact .inl he
  · refine .inr ⟨t, _, he, by simp [pageToAddr], M, _, hM, ?_⟩
    exact hB.cons _

theorem free (h : Outstanding s B) {b : Nat × Nat} (hb : b ∈ B) :
    ∃ t, buddyFree s b.1 b.2 = some t ∧ Outstanding t (B.erase b) := by
  obtain ⟨L, P, hinv, hB⟩ := h
  obtain ⟨c, hc, rfl⟩ := List.mem_map.mp (hB.subset hb)
  obtain ⟨t, M, ht, hM⟩ := hinv.buddyFree hc
  refine ⟨t, ht, M, _, hM, ?_⟩
  rw [List.map_erase region_injective]
  exact hB.erase _

theorem aligned (h : Outstanding s B) {b : Nat × Nat} (hb : b ∈ B) :
    pageSize * 2 ^ b.2 ∣ b.1 := by
  obtain ⟨L, P, hinv, hB⟩ := h
  obtain ⟨c, hc, rfl⟩ := List.mem_map.mp (hB.subset hb)
  have hmem := List.mem_append_right (freeBlocks L) hc
  exact dvd_region (hinv.parts.tiling.aligned c hmem) (hinv.order_lt hmem)

theorem bounds (h : Outstanding s B) {b : Nat × Nat} (hb : b ∈ B) {x : Nat} (hx : inRegion b x) :
    buddyStartAddr ≤ x ∧ x < buddyEndAddr := by
  obtain ⟨L, P, hinv, hB⟩ := h
  obtain ⟨c, hc, rfl⟩ := List.mem_map.mp (hB.subset hb)
  obtain ⟨hstart, hcov⟩ := inRegion_region.mp hx
  have hlt := hinv.parts.tiling.lt_of_covers (List.mem_append_right _ hc) hcov
  simp only [buddyTotalPages, buddyEndAddr, buddyStartAddr, pageSize] at *
  omega

theorem disjoint (h : Outstanding s B) :
    B.Pairwise fun b c => ∀ x, ¬ (inRegion b x ∧ inRegion c x) := by
  obtain ⟨L, P, hinv, hB⟩ := h
  have hP := (List.pairwise_append.mp hinv.parts.tiling.pairwise).2.1
  refine (hB.pairwise_iff fun hbc x hx => hbc x hx.symm).mpr (List.pairwise_map.mpr (hP.imp ?_))
  intro b c hbc x hx
  exact hbc _ ⟨(inRegion_region.mp hx.1).2, (inRegion_region.mp hx.2).2⟩

end Outstanding

def FreeRun (L : Nat → List Nat) (addr order : Nat) : Prop :=
  pageSize * 2 ^ order ∣ addr ∧
    ∀ x, inRegion (addr, order) x → ∃ b ∈ (freeBlocks L).map region, inRegion b x

theorem exists_region {addr order : Nat} (hd : pageSize * 2 ^ order ∣ addr)
    (hs : buddyStartAddr ≤ addr) (ho : order < maxOrder) :
    ∃ q : Block, q.Aligned ∧ region q = (addr, order) := by
  have hzero := dvd_region (b := ⟨0, order⟩) (Nat.dvd_zero _) ho
  simp only [region, pageToAddr, Nat.zero_mul, Nat.add_zero] at hzero
  obtain ⟨m, hm⟩ := Nat.dvd_sub hd hzero
  refine ⟨⟨2 ^ order * m, order⟩, Nat.dvd_mul_right _ _, ?_⟩
  simp only [region, pageToAddr, Prod.mk.injEq, and_true]
  rw [Nat.mul_comm _ pageSize, ← Nat.mul_assoc, ← hm]
  exact Nat.add_sub_cancel' hs

theorem Inv.alloc_zero_iff {s : State} (h : Inv s L P) {order : Nat} (ho : order < maxOrder) :
    (Buddy.buddyAlloc s order).2 = 0 ↔ ¬ ∃ addr, FreeRun L addr order := by
  have hF {b : Block} (hb : b ∈ freeBlocks L) : b ∈ freeBlocks L ++ P := List.mem_append_left _ hb
  have ha : ∀ b ∈ freeBlocks L, b.Aligned := fun b hb => h.parts.tiling.aligned b (hF hb)
  rcases h.buddyAlloc order with ⟨he, hnone⟩ | ⟨t, M, page, he, _, ⟨k, hk, hLk⟩, _⟩
  · rw [he]
    refine iff_of_true rfl ?_
    rintro ⟨addr, hdvd, hfree⟩
    have hstart : buddyStartAddr ≤ addr := by
      obtain ⟨b, hb, hx⟩ := hfree addr
        ⟨Nat.le_refl _, Nat.lt_add_of_pos_right (Nat.mul_pos (by decide) (Nat.two_pow_pos _))⟩
      obtain ⟨c, _, rfl⟩ := List.mem_map.mp hb
      exact (inRegion_region.mp hx).1
    obtain ⟨q, hq, hreg⟩ := exists_region hdvd hstart ho
    have hqo : q.order = order := congrArg Prod.snd hreg
    have hfull (p : Nat) (hp : q.covers p = true) : ∃ b ∈ freeBlocks L, b.covers p = true := by
      have hpage : (pageToAddr p - buddyStartAddr) / pageSize = p := by
        simp [pageToAddr]
      have hle : buddyStartAddr ≤ pageToAddr p := Nat.le_add_right _ _
      obtain ⟨b, hb, hx⟩ := hfree (pageToAddr p)
        (hreg ▸ inRegion_region.mpr ⟨hle, by rwa [hpage]⟩)
      obtain ⟨c, hc, rfl⟩ := List.mem_map.mp hb
      have hcov := (inRegion_region.mp hx).2
      rw [hpage] at hcov
      exact ⟨c, hc, hcov⟩
    obtain ⟨b, hb, hle, _⟩ := h.coalesced.exists_single ha
      (fun b hb c hc x => h.parts.tiling.eq_of_covers (hF hb) (hF hc)) hq (by omega) hfull
    have hmem := (mem_freeBlocks.mp hb).2
    rw [hnone b.order (by omega)] at hmem
    exact List.not_mem_nil hmem
  · rw [he]
    refine iff_of_false (by simp [pageToAddr]) (not_not_intro ?_)
    obtain ⟨p, hp⟩ := List.exists_mem_of_ne_nil _ hLk
    have hb := h.parts.mem_block hp
    have hpow := Nat.pow_dvd_pow 2 hk
    have hdvd : (⟨p, order⟩ : Block).Aligned := hpow.trans (ha _ hb)
    refine ⟨(region ⟨p, order⟩).1, dvd_region hdvd ho, fun x hx => ?_⟩
    obtain ⟨hle, hcov⟩ := inRegion_region.mp hx
    refine ⟨_, List.mem_map_of_mem hb, inRegion_region.mpr ⟨hle, ?_⟩⟩
    rw [Block.covers_iff] at hcov ⊢
    exact ⟨hcov.1, Nat.lt_of_lt_of_le hcov.2
      (Nat.add_le_add_left (Nat.le_of_dvd (Nat.two_pow_pos k) hpow) _)⟩

/-- No two free blocks are buddies, allocation fails only for want of an aligned
run, and freeing everything in any order leads back to the blocks of `buddy_init`. -/
structure FullyCoalesced (s : State) (L : Nat → List Nat) (out : List (Nat × Nat)) : Prop where
  lists : ∀ k < maxOrder, FreeList s k (L k)
  noBuddies : ∀ k < maxOrder - 1, ∀ p ∈ L k, ∀ q ∈ L k,
    pageToAddr q ≠ getBuddy (pageToAddr p) k
  alloc : ∀ order < maxOrder, (buddyAlloc s order).2 = 0 ↔ ¬ ∃ addr, FreeRun L addr order
  restored : ∀ l : List (Nat × Nat), l.Perm out → ∃ (t : State) (M : Nat → List Nat),
    l.foldlM (fun s b => buddyFree s b.1 b.2) s = some t ∧
    (∀ k < maxOrder, FreeList t k (M k)) ∧ (∀ k < maxOrder - 1, M k = []) ∧
    (M (maxOrder - 1)).Perm ((List.range 31).map (· * 1024))

/-- After any matched calls the free blocks are coalesced. -/
theorem reachable_coalesced {s : State} {out : List (Nat × Nat)} (h : Reachable s out) :
    ∃ L, FullyCoalesced s L out := by
  obtain ⟨L, P, hinv, rfl⟩ := h.inv
  refine ⟨L, fun k hk => hinv.freeList hk, ?_, fun order ho => hinv.alloc_zero_iff ho, ?_⟩
  · intro k hk p hp q hq he
    rw [getBuddy_pageToAddr hk] at he
    have hsib : (⟨p, k⟩ : Block).sibling = ⟨q, k⟩ :=
      region_injective (Prod.ext he.symm rfl)
    refine hinv.coalesced _ (hinv.parts.mem_block hp) hk ?_
    rw [hsib]
    exact hinv.parts.mem_block hq
  · intro l hl
    obtain ⟨Q, hQ, rfl⟩ : ∃ Q : List Block, Q.Perm P ∧ l = Q.map region := by
      have hrange : l ∈ Set.range (List.map region) := by
        rw [Set.range_list_map]
        intro b hb
        obtain ⟨c, _, rfl⟩ := List.mem_map.mp (hl.subset hb)
        exact ⟨c, rfl⟩
      obtain ⟨Q, rfl⟩ := hrange
      exact ⟨Q, (List.map_perm_map_iff region_injective).mp hl, rfl⟩
    obtain ⟨t, M, ht, hM⟩ := hinv.free_all hQ
    exact ⟨t, M, ht, fun k hk => hM.freeList hk, hM.restored⟩

theorem coalesced_after_alloc :
    Reachable (buddyAlloc (buddyInit {}) 3).1 [(0x7C00000, 3)] ∧
      ∃ L, FullyCoalesced (buddyAlloc (buddyInit {}) 3).1 L [(0x7C00000, 3)] := by
  have hrun : Reachable (buddyAlloc (buddyInit {}) 3).1 [(0x7C00000, 3)] :=
    .single (.alloc (Prod.ext rfl (by decide)) (by decide))
  exact ⟨hrun, reachable_coalesced hrun⟩

end TocinOS.Buddy

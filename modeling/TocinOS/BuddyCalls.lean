import TocinOS.BuddyInvariant

/-! `buddy_init`, `buddy_alloc` and `buddy_free` against the partition of the
managed pages. -/

namespace TocinOS.Buddy

open Function
open IntrusiveList Dyadic

theorem addrToPage_pageToAddr {p : Nat} (h : p < buddyTotalPages) :
    addrToPage (pageToAddr p) = some p := by
  simp only [buddyTotalPages, buddyStartAddr, buddyEndAddr, pageSize] at h
  have hrange : ¬ (pageToAddr p < buddyStartAddr ∨ buddyEndAddr ≤ pageToAddr p) := by
    simp only [pageToAddr, buddyStartAddr, buddyEndAddr, pageSize]
    omega
  rw [addrToPage, if_neg hrange, Option.some.injEq]
  simp only [pageToAddr, buddyStartAddr, pageSize]
  omega

variable {k page order n : Nat} {s : State} {L : Nat → List Nat} {b : Block} {P : List Block}

/-- Below the maximum order the exclusive or on addresses is the exchange of
siblings on page indices, since the managed range starts at a multiple of the
largest block. -/
theorem getBuddy_pageToAddr (hk : k < maxOrder - 1) (p : Nat) :
    getBuddy (pageToAddr p) k = pageToAddr (buddy p k) := by
  simp only [maxOrder] at hk
  have hpow : 2 ^ (12 + k) < 2 ^ 32 := Nat.pow_lt_pow_right (by omega) (by omega)
  have hshift : (pageSize <<< k) % 2 ^ 32 = 2 ^ (12 + k) := by
    rw [Nat.shiftLeft_eq, show pageSize = 2 ^ 12 from rfl, ← pow_add, Nat.mod_eq_of_lt hpow]
  have haddr : ∀ q, pageToAddr q = (1024 + q) * 2 ^ 12 := by
    intro q
    simp only [pageToAddr, buddyStartAddr, pageSize]
    omega
  have hdvd : 2 ^ (k + 1) ∣ 1024 := pow_dvd_pow 2 (show k + 1 ≤ 10 by omega)
  rw [getBuddy, hshift, xor_two_pow, haddr, haddr, buddy_mul, buddy_add hdvd]

theorem buddy_lt_pages {p : Nat} (hk : k < maxOrder - 1) (hp : p < buddyTotalPages) :
    buddy p k < buddyTotalPages := by
  simp only [maxOrder] at hk
  have hdvd : 2 ^ (k + 1) ∣ 2 ^ 10 := pow_dvd_pow 2 (by omega)
  exact buddy_lt (hdvd.trans (show 2 ^ 10 ∣ buddyTotalPages from ⟨31, rfl⟩)) hp

structure SameCounts (s t : State) : Prop where
  refCount : ∀ p, (t.pageDescriptors p).refCount = (s.pageDescriptors p).refCount
  totalFree : t.totalFree = s.totalFree
  totalUsed : t.totalUsed = s.totalUsed
  initialized : t.buddyInitialized = s.buddyInitialized

theorem SameCounts.refl (s : State) : SameCounts s s := ⟨fun _ => rfl, rfl, rfl, rfl⟩

theorem SameCounts.trans {t u : State} (h : SameCounts s t) (h' : SameCounts t u) :
    SameCounts s u :=
  ⟨fun p => (h'.refCount p).trans (h.refCount p), h'.totalFree.trans h.totalFree,
    h'.totalUsed.trans h.totalUsed, h'.initialized.trans h.initialized⟩

theorem sameCounts_remove (s : State) (p k : Nat) : SameCounts s (removeFromFreeList s p k) :=
  ⟨fun _ => rfl, rfl, rfl, rfl⟩

theorem sameCounts_order (s : State) (p k : Nat) :
    SameCounts s (s.modifyPage p ({ · with order := k })) := by
  refine ⟨fun q => ?_, rfl, rfl, rfl⟩
  simp only [State.modifyPage, update_apply]
  split_ifs with h <;> simp [h]

theorem sameCounts_add (s : State) (p k : Nat) : SameCounts s (addToFreeList s p k) :=
  ⟨(sameCounts_order s p k).refCount, rfl, rfl, rfl⟩

def splitLists (L : Nat → List Nat) (page order n k : Nat) : List Nat :=
  if order ≤ k ∧ k < order + n then (page + 2 ^ k) :: L k else L k

/-- Splitting a block of order `order + n` frees one block of every order in
between and keeps the first one. -/
theorem splitBlock_parts {H : List Block} (h : Parts s L (⟨page, order + n⟩ :: H))
    (hn : order + n < maxOrder) :
    Parts (splitBlock page order n s) (splitLists L page order n) (⟨page, order⟩ :: H) ∧
      SameCounts s (splitBlock page order n s) := by
  induction n generalizing s L with
  | zero =>
    have : splitLists L page order 0 = L := by
      funext k
      rw [splitLists, if_neg (by omega)]
    rw [this]
    exact ⟨h, SameCounts.refl s⟩
  | succ n ih =>
    have hs : Parts s L (⟨page, order + n⟩ :: ⟨page + 2 ^ (order + n), order + n⟩ :: H) := h.split
    have hbuddy : buddy page (order + n) = page + 2 ^ (order + n) := by
      have ha : 2 ^ (order + n + 1) ∣ page := h.tiling.aligned ⟨page, order + (n + 1)⟩ (by simp)
      rcases buddy_cases ((pow_dvd_pow 2 (Nat.le_succ _)).trans ha) with ⟨_, he⟩ | ⟨q, hq, he, _⟩
      · exact he
      · have hd := (Nat.dvd_add_right hq).mp (he ▸ ha)
        exact absurd (Nat.le_of_dvd (Nat.two_pow_pos _) hd) (by rw [pow_succ]; have := Nat.two_pow_pos (order + n); omega)
    have hlt : page + 2 ^ (order + n) < buddyTotalPages :=
      hs.tiling.lt_of_covers (b := ⟨page + 2 ^ (order + n), order + n⟩) (by simp) (Block.covers_start _)
    have haddr : addrToPage (getBuddy (pageToAddr page) (order + n)) =
        some (page + 2 ^ (order + n)) := by
      rw [getBuddy_pageToAddr (by simp only [maxOrder] at *; omega), hbuddy,
        addrToPage_pageToAddr hlt]
    have ha := (hs.perm (List.Perm.swap _ _ _)).add (by omega)
    obtain ⟨hp, hc⟩ := ih ha (by omega)
    simp only [splitBlock, haddr]
    refine ⟨?_, (sameCounts_add s _ _).trans hc⟩
    convert hp using 1
    funext k
    unfold splitLists
    by_cases hk : k = order + n
    · subst hk
      simp
    · rw [update_of_ne hk]
      by_cases hr : order ≤ k ∧ k < order + n
      · rw [if_pos hr, if_pos (by omega)]
      · rw [if_neg hr, if_neg (by omega)]

/-- The coalescing loop ends, keeps the partition, and stops at a block whose
sibling is not free. -/
theorem coalesce_parts {H : List Block} (hn : order + n = maxOrder - 1)
    (h : Parts s L (⟨page, order⟩ :: H)) (href : ∀ k, ∀ p ∈ L k, (s.pageDescriptors p).refCount = 0)
    (hF : Coalesced (maxOrder - 1) (freeBlocks L)) :
    ∃ t M page' order', coalesce n s (pageToAddr page) page order = some (t, page', order') ∧
      Parts t M (⟨page', order'⟩ :: H) ∧ order' < maxOrder ∧ SameCounts s t ∧
      Coalesced (maxOrder - 1) (freeBlocks M) ∧
      (order' < maxOrder - 1 → (⟨page', order'⟩ : Block).sibling ∉ freeBlocks M) := by
  induction n generalizing s L page order with
  | zero =>
    refine ⟨s, L, page, order, rfl, h, by simp only [maxOrder] at *; omega, .refl s, hF, ?_⟩
    intro hlt
    omega
  | succ n ih =>
    have hk : order < maxOrder - 1 := by omega
    have hpage : page < buddyTotalPages :=
      h.tiling.lt_of_covers (b := ⟨page, order⟩) (by simp) (Block.covers_start _)
    have haddr : addrToPage (getBuddy (pageToAddr page) order) = some (buddy page order) := by
      rw [getBuddy_pageToAddr hk, addrToPage_pageToAddr (buddy_lt_pages hk hpage)]
    have hscan := h.rep.scan_head (buddy page order) (h.length_le order)
    by_cases hmem : buddy page order ∈ L order
    · rw [decide_eq_true hmem] at hscan
      have hord := h.order order _ hmem
      have hzero := href order _ hmem
      have hr := (h.remove hmem).merge (b := ⟨page, order⟩)
      have hsub : ∀ k, ∀ p ∈ update L order ((L order).erase (buddy page order)) k, p ∈ L k := by
        intro k p hp
        by_cases hkk : k = order
        · subst hkk
          rw [update_self] at hp
          exact List.mem_of_mem_erase hp
        · rwa [update_of_ne hkk] at hp
      have hsubB : ∀ b ∈ freeBlocks (update L order ((L order).erase (buddy page order))),
          b ∈ freeBlocks L := by
        intro b hb
        have := mem_freeBlocks.mp hb
        exact mem_freeBlocks.mpr ⟨this.1, hsub _ _ this.2⟩
      obtain ⟨t, M, page', order', he, hp, ho, hc, hcoal, hsib⟩ := ih (by simp only; omega) hr
        (fun k p hp => href k p (hsub k p hp))
        (fun b hb hlt hs => hF b (hsubB b hb) hlt (hsubB _ hs))
      refine ⟨t, M, page', order', ?_, hp, ho, (sameCounts_remove s _ _).trans hc, hcoal, hsib⟩
      rw [coalesce, haddr]
      simp only [hord, hzero, ne_eq, not_true_eq_false, or_self, if_false, hscan]
      rw [← he, getBuddy_pageToAddr hk]
      split_ifs with hlt
      · have : min page (buddy page order) = buddy page order := by
          simp only [pageToAddr, pageSize] at hlt
          omega
        rw [this]
      · have : min page (buddy page order) = page := by
          simp only [pageToAddr, pageSize] at hlt
          omega
        rw [this]
    · rw [decide_eq_false hmem] at hscan
      refine ⟨s, L, page, order, ?_, h, by omega, .refl s, hF, ?_⟩
      · rw [coalesce, haddr]
        simp only [hscan]
        split_ifs <;> rfl
      · intro _ hs
        exact hmem (mem_freeBlocks.mp hs).2

def pages (B : List Block) : Nat := (B.map fun b => 2 ^ b.order).sum

theorem pages_append (B C : List Block) : pages (B ++ C) = pages B + pages C := by
  simp [pages]

theorem pages_cons (b : Block) (B : List Block) : pages (b :: B) = 2 ^ b.order + pages B := by
  simp [pages]

theorem pages_erase {B : List Block} (h : b ∈ B) : pages B = 2 ^ b.order + pages (B.erase b) := by
  rw [← pages_cons]
  exact ((List.perm_cons_erase h).map _).sum_eq

structure Inv (s : State) (L : Nat → List Nat) (P : List Block) : Prop where
  initialized : s.buddyInitialized = true
  parts : Parts s L P
  coalesced : Coalesced (maxOrder - 1) (freeBlocks L)
  bound : ∀ b ∈ P, b.order < maxOrder
  refCount : ∀ p, (s.pageDescriptors p).refCount = if p ∈ P.map Block.start then 1 else 0
  totalUsed : s.totalUsed = pages P
  totalFree : s.totalFree = pages (freeBlocks L)

theorem Inv.pages_total (h : Inv s L P) : pages (freeBlocks L) + pages P = buddyTotalPages := by
  rw [← pages_append]
  exact h.parts.tiling.sum_size

theorem findOrder_spec (s : State) (n currentOrder : Nat) :
    (currentOrder ≤ findOrder s n currentOrder ∧
      findOrder s n currentOrder ≤ currentOrder + n) ∧
    (∀ k, currentOrder ≤ k → k < findOrder s n currentOrder → s.links.head k = none) ∧
    (findOrder s n currentOrder < currentOrder + n →
      (s.links.head (findOrder s n currentOrder)).isSome = true) := by
  induction n generalizing currentOrder with
  | zero => exact ⟨⟨le_rfl, le_rfl⟩, fun k h₁ h₂ => by simp only [findOrder] at h₂; omega,
      fun h => by simp [findOrder] at h⟩
  | succ n ih =>
    rw [findOrder]
    cases hh : s.links.head currentOrder with
    | none =>
      obtain ⟨⟨h₁, h₂⟩, h₃, h₄⟩ := ih (currentOrder + 1)
      simp only [Option.isNone_none, if_true]
      refine ⟨⟨by omega, by omega⟩, fun k hk hk' => ?_, fun h => h₄ (by omega)⟩
      by_cases he : k = currentOrder
      · rw [he, hh]
      · exact h₃ k (by omega) hk'
    | some p =>
      simp only [Option.isNone_some, Bool.false_eq_true, if_false]
      exact ⟨⟨le_rfl, by omega⟩, fun k hk hk' => by omega, fun _ => by rw [hh]; rfl⟩

theorem Inv.head_none (h : Inv s L P) (hk : s.links.head k = none) : L k = [] := by
  rw [h.parts.rep.head k, List.head?_eq_none_iff] at hk
  exact hk

/-- Taking a block of order `order + n` off its list and splitting it down to
`order`, where the lists in between are empty. -/
theorem Inv.take (h : Inv s L P) (hmem : page ∈ L (order + n)) (hn : order + n < maxOrder)
    (hempty : ∀ k, order ≤ k → k < order + n → L k = []) :
    let t := splitBlock page order n (removeFromFreeList s page (order + n))
    let u := t.modifyPage page ({ · with order := order, refCount := 1, flags := 0 })
    ∃ M, Inv { u with
      totalFree := (u.totalFree + (2 ^ 64 - 1 <<< order)) % 2 ^ 64
      totalUsed := (u.totalUsed + 1 <<< order) % 2 ^ 64 } M (⟨page, order⟩ :: P) := by
  intro t u
  obtain ⟨hparts, hcounts⟩ := splitBlock_parts (h.parts.remove hmem) hn
  have hcounts := (sameCounts_remove s page (order + n)).trans hcounts
  have hsum := h.pages_total
  have hsum' := hparts.tiling.sum_size
  change pages _ = _ at hsum'
  rw [pages_append, pages_cons] at hsum'
  have hout := hparts.not_mem_of_hand (b := ⟨page, order⟩) List.mem_cons_self
  have hin : ∀ k, order ≤ k ∧ k < order + n →
      splitLists (update L (order + n) ((L (order + n)).erase page)) page order n k =
        [page + 2 ^ k] := by
    intro k hk
    rw [splitLists, if_pos hk, update_of_ne (by omega), hempty k hk.1 hk.2]
  have hsub : ∀ k, ¬ (order ≤ k ∧ k < order + n) →
      splitLists (update L (order + n) ((L (order + n)).erase page)) page order n k ⊆ L k := by
    intro k hk
    rw [splitLists, if_neg hk]
    by_cases he : k = order + n
    · subst he
      rw [update_self]
      exact List.erase_subset
    · rw [update_of_ne he]
      exact List.Subset.refl _
  generalize splitLists (update L (order + n) ((L (order + n)).erase page)) page order n = M at *
  refine ⟨M, hcounts.initialized.trans h.initialized, ?_, ?_, ?_, ?_, ?_, ?_⟩
  · refine hparts.congr rfl rfl (fun k p hp => ?_)
    have hne : p ≠ page := fun e => hout k (e ▸ hp)
    simp only [u, State.modifyPage, update_of_ne hne]
    rfl
  · intro b hb hlt hs
    have hb' := mem_freeBlocks.mp hb
    have hs' := (mem_freeBlocks.mp hs).2
    change buddy b.start b.order ∈ M b.order at hs'
    by_cases hk : order ≤ b.order ∧ b.order < order + n
    · rw [hin _ hk, List.mem_singleton] at hs'
      rw [hin _ hk, List.mem_singleton] at hb'
      exact buddy_ne _ _ (hs'.trans hb'.2.symm)
    · exact h.coalesced b (mem_freeBlocks.mpr ⟨hb'.1, hsub _ hk hb'.2⟩) hlt
        (mem_freeBlocks.mpr ⟨hb'.1, hsub _ hk hs'⟩)
  · intro b hb
    rcases List.mem_cons.mp hb with rfl | hb
    · exact (Nat.le_add_right order n).trans_lt hn
    · exact h.bound b hb
  · intro p
    by_cases hp : p = page
    · simp [u, State.modifyPage, hp]
    · simp only [u, State.modifyPage, update_of_ne hp, List.map_cons, List.mem_cons, hp,
        false_or]
      exact (hcounts.refCount p).trans (h.refCount p)
  · change (t.totalUsed + 1 <<< order) % 2 ^ 64 = _
    rw [hcounts.totalUsed, h.totalUsed, pages_cons, Nat.one_shiftLeft]
    simp only [buddyTotalPages, buddyEndAddr, buddyStartAddr, pageSize] at hsum' ⊢
    generalize 2 ^ order = size at *
    omega
  · change (t.totalFree + (2 ^ 64 - 1 <<< order)) % 2 ^ 64 = _
    rw [hcounts.totalFree, h.totalFree, Nat.one_shiftLeft]
    simp only [buddyTotalPages, buddyEndAddr, buddyStartAddr, pageSize] at hsum hsum'
    generalize 2 ^ order = size at *
    omega

/-- An allocation fails exactly when no list from the order on has a block; it
then changes nothing. Otherwise the block it returns is outstanding. -/
theorem Inv.buddyAlloc (h : Inv s L P) (order : Nat) :
    (buddyAlloc s order = (s, 0) ∧ ∀ k, order ≤ k → L k = []) ∨
    ∃ t M page, Buddy.buddyAlloc s order = (t, pageToAddr page) ∧ order < maxOrder ∧
      (∃ k, order ≤ k ∧ L k ≠ []) ∧ Inv t M (⟨page, order⟩ :: P) := by
  by_cases ho : maxOrder ≤ order
  · left
    refine ⟨by simp [Buddy.buddyAlloc, ho], fun k hk => h.parts.empty k (by omega)⟩
  have hguard : ¬ ((!s.buddyInitialized) = true ∨ maxOrder ≤ order) := by simp [h.initialized, ho]
  obtain ⟨⟨hlo, hhi⟩, hnone, hsome⟩ := findOrder_spec s (maxOrder - order) order
  unfold Buddy.buddyAlloc
  rw [if_neg hguard]
  simp only
  generalize hcur : findOrder s (maxOrder - order) order = cur at *
  by_cases hc : maxOrder ≤ cur
  · left
    rw [if_pos hc]
    refine ⟨rfl, fun k hk => ?_⟩
    by_cases hkm : maxOrder ≤ k
    · exact h.parts.empty k hkm
    · exact h.head_none (hnone k hk (by omega))
  right
  rw [if_neg hc]
  obtain ⟨page, hpage⟩ := Option.isSome_iff_exists.mp (hsome (by omega))
  rw [hpage]
  have hmem : page ∈ L cur := List.mem_of_mem_head? (by rw [← h.parts.rep.head cur, hpage]; rfl)
  obtain ⟨n, rfl⟩ := Nat.exists_eq_add_of_le hlo
  obtain ⟨M, hM⟩ := h.take hmem (by omega) (fun k hk hk' => h.head_none (hnone k hk hk'))
  rw [Nat.add_sub_cancel_left]
  exact ⟨_, M, page, rfl, by omega, ⟨order + n, hlo, List.ne_nil_of_mem hmem⟩, hM⟩

theorem Inv.put (hinit : s.buddyInitialized = true) (hparts : Parts s L (b :: P))
    (hF : Coalesced (maxOrder - 1) (freeBlocks L)) (ho : b.order < maxOrder)
    (hsib : b.order < maxOrder - 1 → b.sibling ∉ freeBlocks L)
    (hbound : ∀ c ∈ P, c.order < maxOrder)
    (href : ∀ p, (s.pageDescriptors p).refCount = if p ∈ P.map Block.start then 1 else 0)
    (hused : s.totalUsed = pages P) (hfree : s.totalFree + pages P = buddyTotalPages) :
    Inv (addToFreeList (s.modifyPage b.start ({ · with order := b.order })) b.start b.order)
      (update L b.order (b.start :: L b.order)) P := by
  have hcounts := (sameCounts_order s b.start b.order).trans
    (sameCounts_add (s.modifyPage b.start ({ · with order := b.order })) b.start b.order)
  have hmod : Parts (s.modifyPage b.start ({ · with order := b.order })) L (b :: P) := by
    refine hparts.congr rfl rfl (fun k p hp => ?_)
    have hne : p ≠ b.start := fun e => hparts.not_mem_of_hand List.mem_cons_self k (e ▸ hp)
    simp only [State.modifyPage, update_of_ne hne]
  have hadd := hmod.add ho
  refine ⟨hcounts.initialized.trans hinit, hadd, ?_, hbound, ?_, ?_, ?_⟩
  · exact (hF.cons hsib).perm (freeBlocks_push ho b.start).symm
  · exact fun p => (hcounts.refCount p).trans (href p)
  · exact hcounts.totalUsed.trans hused
  · have hsum := hadd.tiling.sum_size
    change pages _ = _ at hsum
    rw [pages_append] at hsum
    rw [hcounts.totalFree]
    omega

theorem Inv.buddyFree (h : Inv s L P) (hb : b ∈ P) :
    ∃ t M, Buddy.buddyFree s (pageToAddr b.start) b.order = some t ∧ Inv t M (P.erase b) := by
  have hpages : b.start < buddyTotalPages :=
    h.parts.tiling.lt_of_covers (List.mem_append_right _ hb) b.covers_start
  have hpos : pageToAddr b.start ≠ 0 := by
    simp only [pageToAddr, buddyStartAddr]
    omega
  have hone : (s.pageDescriptors b.start).refCount = 1 := by
    rw [h.refCount, if_pos (List.mem_map_of_mem hb)]
  have ho := h.bound b hb
  have hguard : ¬ ((!s.buddyInitialized) = true ∨ pageToAddr b.start = 0 ∨ maxOrder ≤ b.order) := by
    simp [h.initialized, hpos, Nat.not_le.mpr ho]
  have hhand : Parts s L (b :: P.erase b) := h.parts.perm (List.perm_cons_erase hb)
  have hstart : ∀ p, p ∈ P.map Block.start ↔ p = b.start ∨ p ∈ (P.erase b).map Block.start := by
    intro p
    rw [((List.perm_cons_erase hb).map Block.start).mem_iff, List.map_cons, List.mem_cons]
  have hsum := h.pages_total
  have hsize := pages_erase hb
  unfold Buddy.buddyFree
  rw [if_neg hguard, addrToPage_pageToAddr hpages]
  simp only [hone, Nat.zero_lt_one, if_true, State.modifyPage, update_self,
    Nat.sub_self, Nat.lt_irrefl, if_false]
  generalize hs₁ : ({ s with
      totalFree := (s.totalFree + 1 <<< b.order) % 2 ^ 64
      totalUsed := (s.totalUsed + (2 ^ 64 - 1 <<< b.order)) % 2 ^ 64
      pageDescriptors := update s.pageDescriptors b.start
        { s.pageDescriptors b.start with refCount := 0 } } : State) = s₁
  have href : ∀ p, (s₁.pageDescriptors p).refCount =
      if p ∈ (P.erase b).map Block.start then 1 else 0 := by
    intro p
    rw [← hs₁]
    by_cases hp : p = b.start
    · rw [hp, if_neg hhand.start_not_mem]
      simp
    · simp only [update_of_ne hp, h.refCount, hstart, hp, false_or]
  have hparts : Parts s₁ L (b :: P.erase b) := by
    rw [← hs₁]
    refine hhand.congr rfl rfl (fun k p hp => ?_)
    have hne : p ≠ b.start := fun e => hhand.not_mem_of_hand List.mem_cons_self k (e ▸ hp)
    simp only [update_of_ne hne]
  have hzero : ∀ k, ∀ p ∈ L k, (s₁.pageDescriptors p).refCount = 0 := by
    intro k p hp
    rw [href, if_neg]
    intro hm
    obtain ⟨c, hc, rfl⟩ := List.mem_map.mp hm
    exact hhand.not_mem_of_hand (List.mem_cons_of_mem _ hc) k hp
  obtain ⟨t, M, page, order, he, hp, hlt, hcounts, hcoal, hsib⟩ :=
    coalesce_parts (n := maxOrder - 1 - b.order) (by omega) hparts hzero h.coalesced
  rw [he]
  refine ⟨_, _, rfl, Inv.put (b := ⟨page, order⟩) ?_ hp hcoal hlt hsib ?_ ?_ ?_ ?_⟩
  · rw [hcounts.initialized, ← hs₁]
    exact h.initialized
  · exact fun c hc => h.bound c (List.mem_of_mem_erase hc)
  · exact fun p => (hcounts.refCount p).trans (href p)
  · rw [hcounts.totalUsed, ← hs₁]
    simp only [h.totalUsed, Nat.one_shiftLeft]
    simp only [buddyTotalPages, buddyEndAddr, buddyStartAddr, pageSize] at hsum
    generalize 2 ^ b.order = size at *
    omega
  · rw [hcounts.totalFree, ← hs₁]
    simp only [h.totalFree, Nat.one_shiftLeft, buddyTotalPages, buddyEndAddr, buddyStartAddr,
      pageSize] at hsum ⊢
    generalize 2 ^ b.order = size at *
    omega

end TocinOS.Buddy

import TocinOS.Buddy

/-! Free lists, blocks in hand and page descriptors of the buddy allocator fit
together: at every point of its loops the blocks tile the managed pages. -/

namespace TocinOS.Buddy

open Function
open IntrusiveList Dyadic

def freeBlocks (L : Nat → List Nat) : List Block :=
  (List.range maxOrder).flatMap fun k => (L k).map fun p => ⟨p, k⟩

variable {b : Block}

theorem mem_freeBlocks {L : Nat → List Nat} :
    b ∈ freeBlocks L ↔ b.order < maxOrder ∧ b.start ∈ L b.order := by
  obtain ⟨p, k⟩ := b
  simp only [freeBlocks, List.mem_flatMap, List.mem_range, List.mem_map, Block.mk.injEq]
  constructor
  · rintro ⟨j, hj, q, hq, rfl, rfl⟩
    exact ⟨hj, hq⟩
  · rintro ⟨hk, hp⟩
    exact ⟨k, hk, p, hp, rfl, rfl⟩

theorem freeBlocks_perm {L : Nat → List Nat} {k p : Nat} {M : List Nat} (hk : k < maxOrder)
    (h : (L k).Perm (p :: M)) : (freeBlocks L).Perm (⟨p, k⟩ :: freeBlocks (update L k M)) := by
  have hr : (List.range maxOrder).Perm (k :: (List.range maxOrder).erase k) :=
    List.perm_cons_erase (List.mem_range.mpr hk)
  have hsame : ((List.range maxOrder).erase k).flatMap
        (fun j => (update L k M j).map fun q => (⟨q, j⟩ : Block)) =
      ((List.range maxOrder).erase k).flatMap (fun j => (L j).map fun q => (⟨q, j⟩ : Block)) := by
    apply List.flatMap_congr
    intro j hj
    have hjk : j ≠ k := ((List.nodup_range).mem_erase_iff.mp hj).1
    rw [update_of_ne hjk]
  have h₁ := hr.flatMap_right (fun j => (L j).map fun q => (⟨q, j⟩ : Block))
  have h₂ := hr.flatMap_right (fun j => (update L k M j).map fun q => (⟨q, j⟩ : Block))
  rw [List.flatMap_cons] at h₁ h₂
  rw [hsame, update_self] at h₂
  refine h₁.trans (((h.map _).append_right _).trans ?_)
  rw [List.map_cons, List.cons_append]
  exact h₂.symm.cons _

theorem freeBlocks_push {L : Nat → List Nat} {k : Nat} (hk : k < maxOrder) (p : Nat) :
    (freeBlocks (update L k (p :: L k))).Perm (⟨p, k⟩ :: freeBlocks L) := by
  have h := freeBlocks_perm (L := update L k (p :: L k)) (M := L k) hk
    (by rw [update_self])
  rwa [update_idem, update_eq_self] at h

/-- The allocator with the blocks of `H` taken off the free lists `L`: the
lists are linked and counted, their members know their order, and free blocks
and blocks of `H` together tile the managed pages. -/
structure Parts (s : State) (L : Nat → List Nat) (H : List Block) : Prop where
  rep : s.links.Rep L
  empty : ∀ k, maxOrder ≤ k → L k = []
  count : ∀ k < maxOrder, s.freePages k = (L k).length
  order : ∀ k, ∀ p ∈ L k, (s.pageDescriptors p).order = k
  tiling : Tiling buddyTotalPages (freeBlocks L ++ H)

namespace Parts

variable {s : State} {L : Nat → List Nat} {H K : List Block} {k p : Nat}

theorem mem_block (h : Parts s L H) (hp : p ∈ L k) : (⟨p, k⟩ : Block) ∈ freeBlocks L := by
  refine mem_freeBlocks.mpr ⟨?_, hp⟩
  by_contra hk
  rw [h.empty k (Nat.le_of_not_lt hk)] at hp
  exact List.not_mem_nil hp

theorem lt_pages (h : Parts s L H) (hp : p ∈ L k) : p < buddyTotalPages :=
  h.tiling.lt_of_covers (List.mem_append_left _ (h.mem_block hp)) (Block.covers_start ⟨p, k⟩)

theorem length_le (h : Parts s L H) (k : Nat) : (L k).length ≤ buddyTotalPages := by
  have hsub : L k ⊆ List.range buddyTotalPages :=
    fun p hp => List.mem_range.mpr (h.lt_pages hp)
  simpa using (List.subperm_of_subset (h.rep.nodup k) hsub).length_le

theorem not_mem_of_hand (h : Parts s L H) (hb : b ∈ H) (k : Nat) : b.start ∉ L k := by
  intro hp
  exact (List.pairwise_append.mp h.tiling.pairwise).2.2 _ (h.mem_block hp) b hb b.start
    ⟨Block.covers_start ⟨b.start, k⟩, b.covers_start⟩

theorem start_not_mem (h : Parts s L (b :: H)) : b.start ∉ H.map Block.start := by
  intro hm
  obtain ⟨c, hc, he⟩ := List.mem_map.mp hm
  have hp := List.pairwise_cons.mp (List.pairwise_append.mp h.tiling.pairwise).2.1
  exact hp.1 c hc b.start ⟨b.covers_start, he ▸ c.covers_start⟩

theorem perm (h : Parts s L H) (hp : H.Perm K) : Parts s L K :=
  { h with tiling := h.tiling.perm (hp.append_left _) }

theorem congr (h : Parts s L H) {t : State} (hl : t.links = s.links)
    (hc : t.freePages = s.freePages)
    (ho : ∀ k, ∀ p ∈ L k, (t.pageDescriptors p).order = (s.pageDescriptors p).order) :
    Parts t L H where
  rep := hl ▸ h.rep
  empty := h.empty
  count := hc ▸ h.count
  order := fun k p hp => (ho k p hp).trans (h.order k p hp)
  tiling := h.tiling

theorem remove (h : Parts s L H) (hp : p ∈ L k) :
    Parts (removeFromFreeList s p k) (update L k ((L k).erase p)) (⟨p, k⟩ :: H) where
  rep := h.rep.remove hp
  empty := by
    intro j hj
    by_cases hjk : j = k
    · subst hjk
      rw [h.empty j hj] at hp
      exact absurd hp List.not_mem_nil
    · rw [update_of_ne hjk, h.empty j hj]
  count := by
    intro j hj
    by_cases hjk : j = k
    · subst hjk
      have hlen := h.length_le j
      have hpos := List.length_pos_of_mem hp
      simp only [removeFromFreeList, update_self, h.count j hj,
        List.length_erase_of_mem hp]
      simp only [buddyTotalPages, buddyEndAddr, buddyStartAddr, pageSize] at hlen
      omega
    · simp only [removeFromFreeList, update_of_ne hjk, h.count j hj]
  order := by
    intro j q hq
    by_cases hjk : j = k
    · subst hjk
      rw [update_self] at hq
      exact h.order j q (List.mem_of_mem_erase hq)
    · rw [update_of_ne hjk] at hq
      exact h.order j q hq
  tiling := by
    have hk := (mem_freeBlocks.mp (h.mem_block hp)).1
    refine h.tiling.perm ?_
    refine ((freeBlocks_perm hk (List.perm_cons_erase hp)).append_right H).trans ?_
    exact List.perm_middle.symm

theorem add (h : Parts s L (⟨p, k⟩ :: H)) (hk : k < maxOrder) :
    Parts (addToFreeList s p k) (update L k (p :: L k)) H where
  rep := h.rep.pushFront (fun j => h.not_mem_of_hand List.mem_cons_self j)
  empty := by
    intro j hj
    rw [update_of_ne (by omega), h.empty j hj]
  count := by
    intro j hj
    by_cases hjk : j = k
    · subst hjk
      have hlen := h.length_le j
      simp only [addToFreeList, State.modifyPage, update_self, h.count j hj,
        List.length_cons]
      simp only [buddyTotalPages, buddyEndAddr, buddyStartAddr, pageSize] at hlen
      omega
    · simp only [addToFreeList, State.modifyPage, update_of_ne hjk, h.count j hj]
  order := by
    intro j q hq
    simp only [addToFreeList, State.modifyPage]
    by_cases hqp : q = p
    · subst hqp
      by_cases hjk : j = k
      · simp [hjk]
      · rw [update_of_ne hjk] at hq
        exact absurd hq (h.not_mem_of_hand List.mem_cons_self j)
    · rw [update_of_ne hqp]
      by_cases hjk : j = k
      · subst hjk
        rw [update_self] at hq
        exact h.order j q ((List.mem_cons.mp hq).resolve_left hqp)
      · rw [update_of_ne hjk] at hq
        exact h.order j q hq
  tiling := by
    exact h.tiling.perm (List.perm_middle.trans ((freeBlocks_push hk p).symm.append_right H))

theorem split (h : Parts s L (⟨p, k + 1⟩ :: H)) :
    Parts s L (⟨p, k⟩ :: ⟨p + 2 ^ k, k⟩ :: H) := by
  have ha : 2 ^ (k + 1) ∣ p := h.tiling.aligned ⟨p, k + 1⟩ (by simp)
  have hd : 2 ^ k ∣ p := (pow_dvd_pow 2 (Nat.le_succ k)).trans ha
  have hbud : buddy p k = p + 2 ^ k := by
    obtain ⟨m, hm⟩ := ha
    have : p / 2 ^ k = 2 * m := by
      rw [hm, pow_succ, Nat.mul_assoc, Nat.mul_div_cancel_left _ (Nat.two_pow_pos k)]
    simp [buddy, this]
  have hpar : (⟨p, k⟩ : Block).parent = ⟨p, k + 1⟩ := by simp [Block.parent, hbud]
  have hsib : (⟨p, k⟩ : Block).sibling = ⟨p + 2 ^ k, k⟩ := by simp [Block.sibling, hbud]
  have ht := h.tiling.perm List.perm_middle
  rw [← hpar] at ht
  have ht' := ht.split (b := ⟨p, k⟩) hd
  rw [hsib] at ht'
  refine { h with tiling := ht'.perm ?_ }
  exact ((List.perm_middle.symm).cons _).trans List.perm_middle.symm

theorem merge (h : Parts s L (b.sibling :: b :: H)) : Parts s L (b.parent :: H) := by
  have ht : Tiling buddyTotalPages (b :: b.sibling :: (freeBlocks L ++ H)) := by
    refine h.tiling.perm ?_
    refine List.perm_middle.trans ((List.Perm.cons _ List.perm_middle).trans ?_)
    exact List.Perm.swap _ _ _
  exact { h with tiling := ht.merge.perm List.perm_middle.symm }

end Parts

end TocinOS.Buddy

import TocinOS.FirstFit
import TocinOS.VmaRuns

/-! Where `sys_mmap` puts a mapping that is not fixed. The sums of the search wrap; an
address for which they do is thrown out when the area is made. -/

namespace TocinOS.Vma

open FirstFit (Gap Sorted search search_some)
open Demand (failed mapAnonymous mapFixed mmapArea placeArea roundUp sysMmap vmFlagsOf)

variable {s : State} {pool : Nat → Area} {L : List Nat}

def spans (pool : Nat → Area) (L : List Nat) : List (Nat × Nat) :=
  L.map fun i => ((pool i).vmStart.toNat, (pool i).vmEnd.toNat)

theorem Ordered.sorted (h : Ordered pool L) : Sorted kernelBase.toNat (spans pool L) := by
  refine ⟨List.pairwise_map.mpr h.order, fun p hp => ?_, fun p hp => ?_⟩
  · obtain ⟨i, hi, rfl⟩ := List.mem_map.mp hp
    exact (h.proper i hi).start_lt
  · obtain ⟨i, hi, rfl⟩ := List.mem_map.mp hp
    exact (h.proper i hi).end_le

theorem toNat_max (a b : BitVec 32) : (if a < b then b else a).toNat = max a.toNat b.toNat := by
  simp only [BitVec.lt_def]
  split
  · omega
  · omega

theorem findFrom_of_some (h : Ordered pool L) {size addr : BitVec 32} {b : Nat}
    (hs : search kernelBase.toNat size.toNat (spans pool L) addr.toNat = some b) :
    (findFrom pool size L addr).toNat = b := by
  have hbase : kernelBase.toNat = 0xC0000000 := rfl
  have hgap := (search_some h.sorted hs).1
  induction L generalizing addr with
  | nil =>
    have hstart := hgap.start
    have hstop := hgap.stop
    simp only [spans, List.map_nil, search] at hs
    split at hs
    · next hle =>
      have hsum : addr + size ≤ kernelBase := by
        rw [BitVec.le_def, BitVec.toNat_add]
        omega
      rw [findFrom, if_pos hsum]
      exact Option.some.inj hs
    · simp at hs
  | cons i L ih =>
    have hstart := hgap.start
    have hstop := hgap.stop
    simp only [spans, List.map_cons, search] at hs
    have hsum : addr + size ≤ (pool i).vmStart ↔
        addr.toNat + size.toNat ≤ (pool i).vmStart.toNat := by
      rw [BitVec.le_def, BitVec.toNat_add]
      omega
    rw [findFrom]
    split at hs
    · next hle =>
      rw [if_pos (hsum.mpr hle)]
      exact Option.some.inj hs
    · next hle =>
      rw [if_neg fun h => hle (hsum.mp h)]
      rw [← toNat_max] at hs
      have htail := h.sublist (List.sublist_cons_self i L)
      exact ih htail hs (search_some htail.sorted hs).1

theorem findFrom_of_none (h : Ordered pool L) {size addr : BitVec 32}
    (hs : search kernelBase.toNat size.toNat (spans pool L) addr.toNat = none) :
    findFrom pool size L addr = 0 ∨
      2 ^ 32 ≤ (findFrom pool size L addr).toNat + size.toNat := by
  have hbase : kernelBase.toNat = 0xC0000000 := rfl
  induction L generalizing addr with
  | nil =>
    simp only [spans, List.map_nil, search] at hs
    split at hs
    · simp at hs
    · next hle =>
      rw [findFrom]
      split
      · next hsum =>
        rw [BitVec.le_def, BitVec.toNat_add] at hsum
        exact .inr (by omega)
      · exact .inl rfl
  | cons i L ih =>
    simp only [spans, List.map_cons, search] at hs
    split at hs
    · simp at hs
    · next hle =>
      rw [findFrom]
      split
      · next hsum =>
        rw [BitVec.le_def, BitVec.toNat_add] at hsum
        exact .inr (by omega)
      · rw [← toNat_max] at hs
        exact ih (h.sublist (List.sublist_cons_self i L)) hs

/-! ### The call -/

def rounded (length : BitVec 32) : Nat := (length.toNat + 4095) / 4096 * 4096

theorem roundUp_cases (length : BitVec 32) :
    (roundUp length).toNat = rounded length ∨ roundUp length = 0 ∧ rounded length = 2 ^ 32 := by
  have hlt := length.isLt
  have hsum : (length + 4095).toNat = (length.toNat + 4095) % 2 ^ 32 := BitVec.toNat_add _ _
  have hround : (roundUp length).toNat = (length.toNat + 4095) % 2 ^ 32 / 4096 * 4096 := by
    rw [roundUp, Vmm.toNat_and_mask, hsum]
  by_cases hwrap : length.toNat + 4095 < 2 ^ 32
  · left
    rw [hround, Nat.mod_eq_of_lt hwrap, rounded]
  · refine .inr ⟨BitVec.eq_of_toNat_eq ?_, ?_⟩
    · rw [hround]
      show _ = 0
      omega
    · rw [rounded]
      omega

structure Request (flags fd : BitVec 32) : Prop where
  notFixed : flags &&& mapFixed = 0
  backed : flags &&& mapAnonymous ≠ 0 ∨ 0 ≤ fd.toInt

structure Searchable (s : State) (L : List Nat) : Prop where
  listed : Listed s L
  ordered : Ordered s.pool L
  base : s.mmapBase.toNat % 4096 = 0
  room : (vmaAllocatorInit s).freeList ≠ []

structure Placed (s : State) (L : List Nat) (length result : BitVec 32) : Prop where
  succeeds : result ≠ failed ↔ rounded length ≠ 0 ∧
    ∃ a, Gap kernelBase.toNat (rounded length) (spans s.pool L) s.mmapBase.toNat a
  aligned : result ≠ failed → result.toNat % 4096 = 0
  gap : result ≠ failed →
    Gap kernelBase.toNat (rounded length) (spans s.pool L) s.mmapBase.toNat result.toNat
  lowest : result ≠ failed → ∀ a,
    Gap kernelBase.toNat (rounded length) (spans s.pool L) s.mmapBase.toNat a → result.toNat ≤ a

theorem vmaCreate_of_room (h : (vmaAllocatorInit s).freeList ≠ []) {start stop : BitVec 32}
    (hlt : start < stop) (hstart : start.toNat % 4096 = 0) (hstop : stop.toNat % 4096 = 0)
    (flags : BitVec 32) : ∃ s' i, vmaCreate s start stop flags = (s', some i) := by
  rw [vmaCreate, if_neg]
  · rw [vmaAlloc]
    cases hfree : (vmaAllocatorInit s).freeList with
    | nil => exact absurd hfree h
    | cons i rest => exact ⟨_, i, rfl⟩
  · simp only [not_or, not_not, BitVec.not_le]
    exact ⟨hlt, (and_mask_eq_zero_iff _).mpr hstart, (and_mask_eq_zero_iff _).mpr hstop⟩

section Call

variable {length flags fd : BitVec 32}

theorem Request.mmapArea_eq (hq : Request flags fd) (addr prot offset : BitVec 32) :
    mmapArea s addr length prot flags fd offset =
      if roundUp length = 0 ∨ findFreeRegion s (roundUp length) = 0 then (s, failed)
      else placeArea s (findFreeRegion s (roundUp length)) (roundUp length) (vmFlagsOf prot flags)
        fd offset := by
  have haddr : Demand.mmapAddress s addr (roundUp length) flags =
      findFreeRegion s (roundUp length) := by
    rw [Demand.mmapAddress, if_neg fun hfixed => hfixed hq.notFixed]
  have hfd : ¬ (flags &&& mapAnonymous = 0 ∧ fd.slt 0 = true) := by
    rintro ⟨hanon, hneg⟩
    rcases hq.backed with hback | hback
    · exact hback hanon
    · rw [BitVec.slt_iff_toInt_lt] at hneg
      have hzero : (0 : BitVec 32).toInt = 0 := rfl
      omega
  rw [mmapArea]
  simp only [haddr, if_neg hfd]
  by_cases hlen : roundUp length = 0
  · rw [if_pos hlen, if_pos (.inl hlen)]
  · by_cases hzero : findFreeRegion s (roundUp length) = 0
    · rw [if_neg hlen, if_pos hzero, if_pos (.inr hzero)]
    · rw [if_neg hlen, if_neg hzero, if_neg (not_or.mpr ⟨hlen, hzero⟩)]

theorem Searchable.placeArea_of_gap (h : Searchable s L) {start len : BitVec 32}
    (hpos : len.toNat ≠ 0) (hlen : len.toNat % 4096 = 0) (hstart : start.toNat % 4096 = 0)
    (hgap : Gap kernelBase.toNat len.toNat (spans s.pool L) s.mmapBase.toNat start.toNat)
    (vmFlags fd offset : BitVec 32) : (placeArea s start len vmFlags fd offset).2 = start := by
  have hbase : kernelBase.toNat = 0xC0000000 := rfl
  have hstop := hgap.stop
  have hsum : (start + len).toNat = start.toNat + len.toNat := by
    rw [BitVec.toNat_add]
    omega
  have hlt : start < start + len := by
    rw [BitVec.lt_def, hsum]
    omega
  obtain ⟨s', i, he⟩ := vmaCreate_of_room h.room hlt hstart (by rw [hsum]; omega) vmFlags
  obtain ⟨hfresh, hpool, hs, he', -⟩ := h.listed.made he fd offset
  rw [placeArea, he]
  dsimp only
  generalize s'.modify i (fun a => { a with vmFd := fd, vmFileOffset := offset }) = t at *
  have hins : (vmaInsert t i).2 = 0 := by
    refine hfresh.insert_of_apart (h.ordered.congr hpool) (by rw [hs, he']; exact hlt) fun j hj => ?_
    have hfree := hgap.free _ (List.mem_map_of_mem hj)
    rw [hs, he', hpool j hj, BitVec.le_def, BitVec.le_def, hsum]
    exact hfree
  rw [hins, if_neg (by decide)]

theorem placeArea_of_wrap {start len : BitVec 32} (h : 2 ^ 32 ≤ start.toNat + len.toNat)
    (vmFlags fd offset : BitVec 32) : (placeArea s start len vmFlags fd offset).2 = failed := by
  have hcreate : vmaCreate s start (start + len) vmFlags = (s, none) := by
    rw [vmaCreate, if_pos]
    left
    rw [BitVec.le_def, BitVec.toNat_add]
    omega
  rw [placeArea, hcreate]

theorem Searchable.mmapArea_result (h : Searchable s L) (hq : Request flags fd)
    (addr length prot offset : BitVec 32) :
    let r := (mmapArea s addr length prot flags fd offset).2
    let found := search kernelBase.toNat (roundUp length).toNat (spans s.pool L) s.mmapBase.toNat
    r = failed ∧ (roundUp length = 0 ∨ found = none ∨ found = some 0) ∨
      roundUp length ≠ 0 ∧ r.toNat ≠ 0 ∧ r.toNat % 4096 = 0 ∧ found = some r.toNat := by
  dsimp only
  have hfind : findFreeRegion s (roundUp length) =
      findFrom s.pool (roundUp length) L s.mmapBase := by
    rw [findFreeRegion, h.listed.areas_eq]
  rw [hq.mmapArea_eq]
  by_cases hlen : roundUp length = 0
  · rw [if_pos (.inl hlen)]
    exact .inl ⟨rfl, .inl hlen⟩
  cases hs : search kernelBase.toNat (roundUp length).toNat (spans s.pool L) s.mmapBase.toNat with
  | none =>
    refine .inl ⟨?_, .inr (.inl rfl)⟩
    split
    · rfl
    · next hzero =>
      refine placeArea_of_wrap ?_ _ _ _
      rw [hfind]
      exact (findFrom_of_none h.ordered hs).resolve_left fun hz => hzero (.inr (hfind.trans hz))
  | some b =>
    have hb : (findFreeRegion s (roundUp length)).toNat = b := by
      rw [hfind]
      exact findFrom_of_some h.ordered hs
    by_cases hzero : findFreeRegion s (roundUp length) = 0
    · rw [if_pos (.inr hzero)]
      have : b = 0 := by
        rw [← hb, hzero]
        rfl
      exact .inl ⟨rfl, .inr (.inr (by rw [this]))⟩
    · have hgap := (search_some h.ordered.sorted hs).1
      have halign : b % 4096 = 0 := by
        rcases FirstFit.search_eq hs with rfl | ⟨p, hp, rfl⟩
        · exact h.base
        · obtain ⟨i, hi, rfl⟩ := List.mem_map.mp hp
          exact (h.ordered.proper i hi).endAligned
      rw [← hb] at hgap halign
      have hplaced := h.placeArea_of_gap (fun hz => hlen (BitVec.eq_of_toNat_eq hz))
        (roundDown_aligned _) halign hgap (vmFlagsOf prot flags) fd offset
      rw [if_neg (not_or.mpr ⟨hlen, hzero⟩), hplaced, hb]
      exact .inr ⟨hlen, fun hz => hzero (BitVec.eq_of_toNat_eq (hb.trans hz)), hb ▸ halign, rfl⟩

theorem sysMmap_result {d : Demand.State} (h : d.hasMm) (addr prot offset : BitVec 32) :
    (sysMmap d addr length prot flags fd offset).2 =
      (mmapArea d.vma addr length prot flags fd offset).2 := by
  rw [sysMmap, if_neg (by simp [h])]
  dsimp only
  split
  · rfl
  · rfl

/-- Address 0 is how `find_free_region` says that there is no room, so where the lowest gap
starts there the call fails. -/
theorem sysMmap_placed {d : Demand.State} (hmm : d.hasMm) (h : Searchable d.vma L)
    (hq : Request flags fd) (addr prot offset : BitVec 32) :
    (Gap kernelBase.toNat (rounded length) (spans d.vma.pool L) d.vma.mmapBase.toNat 0 →
        (sysMmap d addr length prot flags fd offset).2 = failed) ∧
      (¬ Gap kernelBase.toNat (rounded length) (spans d.vma.pool L) d.vma.mmapBase.toNat 0 →
        Placed d.vma L length (sysMmap d addr length prot flags fd offset).2) := by
  have hbase : kernelBase.toNat = 0xC0000000 := rfl
  have hcases := roundUp_cases length
  rw [sysMmap_result hmm]
  rcases h.mmapArea_result hq addr length prot offset with
    ⟨hfail, hwhy⟩ | ⟨hlen, hnull, haligned, hs⟩
  · refine ⟨fun _ => hfail, fun hno => ?_⟩
    have hnone : ¬ (rounded length ≠ 0 ∧
        ∃ a, Gap kernelBase.toNat (rounded length) (spans d.vma.pool L) d.vma.mmapBase.toNat a) := by
      rintro ⟨hpos, a, hgap⟩
      have hstop := hgap.stop
      have hround : (roundUp length).toNat = rounded length := by
        rcases hcases with hround | ⟨-, hround⟩
        · exact hround
        · omega
      rw [hround] at hwhy
      rcases hwhy with hzero | hs | hs
      · rw [hzero] at hround
        exact hpos hround.symm
      · exact FirstFit.search_none hs hgap
      · exact hno (search_some h.ordered.sorted hs).1
    exact ⟨iff_of_false (not_not.mpr hfail) hnone, fun hne => absurd hfail hne,
      fun hne => absurd hfail hne, fun hne => absurd hfail hne⟩
  · generalize (mmapArea d.vma addr length prot flags fd offset).2 = r at *
    have hround : (roundUp length).toNat = rounded length :=
      hcases.resolve_right fun hc => hlen hc.1
    have hpos : rounded length ≠ 0 := fun hz =>
      hlen (BitVec.eq_of_toNat_eq (hround.trans hz))
    rw [hround] at hs
    obtain ⟨hgap, hleast⟩ := search_some h.ordered.sorted hs
    have hne : r ≠ failed := by
      rintro rfl
      exact absurd haligned (by decide)
    refine ⟨fun hzero => ?_, fun _ => ⟨?_, fun _ => haligned, fun _ => hgap, fun _ => hleast⟩⟩
    · exact absurd (Nat.le_zero.mp (hleast 0 hzero)) hnull
    · exact iff_of_true hne ⟨hpos, _, hgap⟩

end Call

theorem emptyMm_searchable (base : BitVec 32) (h : base.toNat % 4096 = 0) :
    Searchable { emptyMm.vma with mmapBase := base } [] where
  listed := ⟨IntrusiveList.Bank.rep_empty, by simp, by simp [emptyMm], List.Pairwise.nil, fun _ => rfl⟩
  ordered := ⟨List.Pairwise.nil, by simp⟩
  base := h
  room := by
    simp [vmaAllocatorInit, emptyMm, vmaPoolSize]

/-- Two areas of a page with two pages between them. -/
def gapMm : Demand.State :=
  { emptyMm with
    vma := { emptyMm.vma with
      initialized := true
      pool := fun i => if i = 0 then { vmStart := 0x40000000, vmEnd := 0x40001000 }
        else { vmStart := 0x40003000, vmEnd := 0x40004000 }
      freeList := [2]
      links := ⟨fun _ => some 0, fun i => if i = 0 then some 1 else none,
        fun i => if i = 1 then some 0 else none⟩ } }

theorem gapMm_searchable : Searchable gapMm.vma [0, 1] where
  listed := by
    refine ⟨⟨fun _ => rfl, fun _ => ⟨rfl, rfl, rfl, rfl, trivial⟩, fun _ => by decide, fun j k hne => ?_⟩,
      by decide, by decide, by decide, fun h => ?_⟩
    · exact absurd (Subsingleton.elim j k) hne
    · exact absurd h Bool.false_ne_true.symm
  ordered := by
    refine ⟨by decide, fun i hi => ?_⟩
    rcases List.mem_pair.mp hi with rfl | rfl <;> exact ⟨by decide, by decide, by decide, by decide⟩
  base := by decide
  room := by decide

theorem twoPages_placed :
    Placed gapMm.vma [0, 1] 0x2000 (sysMmap gapMm 0 0x2000 3 0x22 (-1) 0).2 ∧
      (sysMmap gapMm 0 0x2000 3 0x22 (-1) 0).2 = 0x40001000 :=
  ⟨(sysMmap_placed rfl gapMm_searchable ⟨by decide, .inl (by decide)⟩ 0 3 0).2
    fun hgap => absurd hgap.start (by decide), by decide +kernel⟩

theorem zeroBase_not_placed :
    ∃ d L length flags fd addr prot offset, d.hasMm = true ∧ Searchable d.vma L ∧
      Request flags fd ∧
      ¬ Placed d.vma L length (sysMmap d addr length prot flags fd offset).2 := by
  refine ⟨{ emptyMm with vma := { emptyMm.vma with mmapBase := 0 } }, [], 0x1000, 0x22, -1, 0, 3, 0,
    rfl, emptyMm_searchable 0 (by decide), ⟨by decide, .inl (by decide)⟩, fun hplaced => ?_⟩
  refine hplaced.succeeds.mpr ⟨by decide, 0, by decide, by decide, ?_⟩ (by decide +kernel)
  intro p hp
  exact absurd hp (by simp [spans])

end TocinOS.Vma

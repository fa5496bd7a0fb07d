import TocinOS.VmmRuns

/-! What `vmm_map_page` writes when the tables lie in used pages, whatever the entries in
them are. -/

namespace TocinOS.Vmm

open Function
open Pmm (pageSize lowPages maxPages pmmAllocPage)

abbrev directoryPage : Nat := kernelDirectory / pageSize

def Used (m : Pmm.State) (p : Nat) : Prop := Bitmap.test m.memoryBitmap p = true

instance (m : Pmm.State) (p : Nat) : Decidable (Used m p) := inferInstanceAs (Decidable (_ = true))

def dirIndex (v : BitVec 32) : Nat := (v >>> 22).toNat

def State.entryAddr (s : State) (v : BitVec 32) : Nat :=
  tableAddr (s.dirEntry (dirIndex v)) + 4 * ((v >>> 12) &&& 0x3FF#32).toNat

def State.entry (s : State) (v : BitVec 32) : BitVec 32 := s.mem (s.entryAddr v)

def State.IsTable (s : State) (i p : Nat) : Prop :=
  s.dirEntry i &&& pagePresent ≠ 0 ∧ tableAddr (s.dirEntry i) = p * pageSize

structure Sane (s : State) : Prop where
  total : s.pmm.totalPages = maxPages
  low : ∀ p < lowPages, Used s.pmm p
  table : ∀ i < pagesPerTable, s.dirEntry i &&& pagePresent ≠ 0 →
    ∃ p < maxPages, s.IsTable i p ∧ p ≠ directoryPage ∧ Used s.pmm p

theorem dirIndex_lt (v : BitVec 32) : dirIndex v < pagesPerTable := by
  rw [dirIndex, dirIndex_eq]
  exact virtualPage_lt v

theorem entryIndex_lt (v : BitVec 32) : ((v >>> 12) &&& 0x3FF#32).toNat < pagesPerTable := by
  rw [tableIndex_eq]
  exact Nat.mod_lt _ (by decide)

theorem word_ne {p q j k : Nat} (h : p ≠ q) (hj : j < pagesPerTable) (hk : k < pagesPerTable) :
    p * pageSize + 4 * j ≠ q * pageSize + 4 * k := table_ne_table h hj hk

theorem directory_word (i : Nat) : kernelDirectory + 4 * i = directoryPage * pageSize + 4 * i := rfl

theorem entry_page_index (v : BitVec 32) :
    dirIndex (v &&& ~~~ 0xFFF#32) = dirIndex v ∧
      ((v &&& ~~~ 0xFFF#32) >>> 12) &&& 0x3FF#32 = (v >>> 12) &&& 0x3FF#32 := by
  have hdir : ~~~ 0xFFF#32 >>> 22 = 0xFFFFFFFF#32 >>> 22 := by decide
  have htable : ~~~ 0xFFF#32 >>> 12 = 0xFFFFFFFF#32 >>> 12 := by decide
  have hall : v &&& 0xFFFFFFFF#32 = v := BitVec.and_allOnes
  constructor
  · rw [dirIndex, dirIndex, BitVec.ushiftRight_and_distrib, hdir, ← BitVec.ushiftRight_and_distrib,
      hall]
  · rw [BitVec.ushiftRight_and_distrib, htable, ← BitVec.ushiftRight_and_distrib, hall]

theorem State.entryAddr_page (s : State) (v : BitVec 32) :
    s.entryAddr (v &&& ~~~ 0xFFF#32) = s.entryAddr v := by
  rw [State.entryAddr, (entry_page_index v).1, (entry_page_index v).2]
  rfl

theorem vmmGetPhysical_eq (s : State) (v : BitVec 32) :
    vmmGetPhysical s v =
      if s.dirEntry (dirIndex v) &&& pagePresent = 0 then 0
      else if s.entry v &&& pagePresent = 0 then 0 else s.entry v &&& ~~~ 0xFFF#32 := rfl

variable {s : State}

theorem Sane.alloc (h : Sane s) :
    pmmAllocPage s.pmm = (s.pmm, 0) ∨
      ∃ p, lowPages ≤ p ∧ p < maxPages ∧ ¬ Used s.pmm p ∧
        pmmAllocPage s.pmm = (Pmm.pmmSetPageUsed s.pmm p, p * pageSize) := by
  rcases Pmm.allocFrom_spec s.pmm s.pmm.totalPages 0 with ⟨he, -⟩ | ⟨p, -, hp, hfree, -, he⟩
  · exact .inl he
  · rw [h.total] at hp
    refine .inr ⟨p, Nat.le_of_not_lt fun hlt => ?_, by omega, ?_, he⟩
    · have := h.low p hlt
      rw [Used, hfree] at this
      exact Bool.false_ne_true this
    · rw [Used, hfree]
      exact Bool.false_ne_true

theorem used_setUsed {m : Pmm.State} {p q : Nat} :
    Used (Pmm.pmmSetPageUsed m p) q ↔ Used m q ∨ q = p := by
  simp only [Used, Pmm.pmmSetPageUsed, Bitmap.test_set, Bool.or_eq_true, decide_eq_true_eq]

theorem Sane.setUsed (h : Sane s) (p : Nat) :
    Sane { s with pmm := Pmm.pmmSetPageUsed s.pmm p } where
  total := h.total
  low q hq := used_setUsed.mpr (.inl (h.low q hq))
  table i hi hpresent := by
    obtain ⟨q, hq, htable, hdir, hused⟩ := h.table i hi hpresent
    exact ⟨q, hq, htable, hdir, used_setUsed.mpr (.inl hused)⟩

theorem Sane.free (h : Sane s) {addr : Nat} (hlow : lowPages ≤ addr / pageSize)
    (htable : ∀ i < pagesPerTable, ¬ s.IsTable i (addr / pageSize)) :
    Sane { s with pmm := Pmm.pmmFreePage s.pmm addr } := by
  have hkeep {q : Nat} (hne : q ≠ addr / pageSize) (hq : Used s.pmm q) :
      Used (Pmm.pmmFreePage s.pmm addr) q := by
    simp only [Pmm.pmmFreePage]
    split
    · rw [Used, Bitmap.test_clear, decide_eq_false hne]
      simpa [Used] using hq
    · exact hq
  have htotal : (Pmm.pmmFreePage s.pmm addr).totalPages = s.pmm.totalPages := by
    simp only [Pmm.pmmFreePage]
    split <;> rfl
  refine ⟨htotal.trans h.total, fun q hq => hkeep (by omega) (h.low q hq), ?_⟩
  intro i hi hpresent
  obtain ⟨q, hq, hqt, hdir, hused⟩ := h.table i hi hpresent
  refine ⟨q, hq, hqt, hdir, hkeep ?_ hused⟩
  rintro rfl
  exact htable i hi hqt

theorem Sane.store (h : Sane s) {mem : Nat → BitVec 32}
    (hm : ∀ i < pagesPerTable, mem (kernelDirectory + 4 * i) = s.mem (kernelDirectory + 4 * i)) :
    Sane { s with mem } where
  total := h.total
  low := h.low
  table i hi hpresent := by
    have hentry : ({ s with mem } : State).dirEntry i = s.dirEntry i := hm i hi
    rw [hentry] at hpresent
    obtain ⟨q, hq, htable, hdir, hused⟩ := h.table i hi hpresent
    refine ⟨q, hq, ?_, hdir, hused⟩
    rw [State.IsTable, hentry]
    exact htable

/-- The table that a missing directory entry gets: a page that was free, or page 0 when
there is none left. -/
theorem Sane.createTable (h : Sane s) {i : Nat} (hi : i < pagesPerTable)
    (habsent : s.dirEntry i &&& pagePresent = 0) :
    ∃ q < maxPages, q ≠ directoryPage ∧
      (q = 0 ∧ pmmAllocPage s.pmm = (s.pmm, 0) ∨ lowPages ≤ q ∧ ¬ Used s.pmm q) ∧
      Sane (createTable s i) ∧ (createTable s i).IsTable i q ∧
      (∀ p, Used s.pmm p → Used (createTable s i).pmm p) ∧
      (∀ k < pagesPerTable, k ≠ i → (createTable s i).dirEntry k = s.dirEntry k) ∧
      (∀ p j, p ≠ q → p ≠ directoryPage → j < pagesPerTable →
        (createTable s i).mem (p * pageSize + 4 * j) = s.mem (p * pageSize + 4 * j)) ∧
      ∀ j < pagesPerTable, (createTable s i).mem (q * pageSize + 4 * j) = 0 := by
  -- the page that is taken, and the bitmap afterwards
  obtain ⟨q, pmm, hq, hdir, hfree, halloc, htotal, hkeep, hself⟩ :
      ∃ q pmm, q < maxPages ∧ q ≠ directoryPage ∧
        (q = 0 ∧ pmmAllocPage s.pmm = (s.pmm, 0) ∨ lowPages ≤ q ∧ ¬ Used s.pmm q) ∧
        pmmAllocPage s.pmm = (pmm, q * pageSize) ∧ pmm.totalPages = maxPages ∧
        (∀ p, Used s.pmm p → Used pmm p) ∧ Used pmm q := by
    rcases h.alloc with he | ⟨q, hlow, hq, hfree, he⟩
    · exact ⟨0, s.pmm, by decide, by decide, .inl ⟨rfl, he⟩, he, h.total, fun _ hp => hp,
        h.low 0 (by decide)⟩
    · refine ⟨q, _, hq, ?_, .inr ⟨hlow, hfree⟩, he, h.total,
        fun _ hp => used_setUsed.mpr (.inl hp), used_setUsed.mpr (.inr rfl)⟩
      simp only [lowPages, directoryPage, kernelDirectory, pageSize] at *
      omega
  have hpmm : (Vmm.createTable s i).pmm = pmm := by
    simp only [Vmm.createTable, halloc]
  have hcleared : (Vmm.createTable s i).mem = clearTable (q * pageSize)
      (update s.mem (kernelDirectory + 4 * i) (tableEntry q)) := by
    simp only [Vmm.createTable, halloc, tableEntry]
  have hmem {p j : Nat} (hne : p ≠ q) (hj : j < pagesPerTable) :
      (Vmm.createTable s i).mem (p * pageSize + 4 * j) =
        update s.mem (kernelDirectory + 4 * i) (tableEntry q) (p * pageSize + 4 * j) := by
    rw [hcleared]
    exact clearTable_of_ne _ fun k hk => word_ne hne hj hk
  have hentry {k : Nat} (hk : k < pagesPerTable) (hne : k ≠ i) :
      (Vmm.createTable s i).dirEntry k = s.dirEntry k := by
    have := hmem (Ne.symm hdir) hk
    rw [← directory_word, update_of_ne (by omega)] at this
    exact this
  have hnew : (Vmm.createTable s i).dirEntry i = tableEntry q := by
    have := hmem (Ne.symm hdir) hi
    rwa [← directory_word, update_self] at this
  have htable : (Vmm.createTable s i).IsTable i q := by
    rw [State.IsTable, hnew]
    exact ⟨tableEntry_present q, tableAddr_tableEntry hq⟩
  have hused : ∀ p, Used s.pmm p → Used (Vmm.createTable s i).pmm p := by
    rw [hpmm]
    exact hkeep
  refine ⟨q, hq, hdir, hfree, ⟨?_, fun p hp => hused p (h.low p hp), fun k hk hpresent => ?_⟩,
    htable, hused, fun k hk hne => hentry hk hne, fun p j hne hp hj => ?_, fun j hj => ?_⟩
  · rw [hpmm]
    exact htotal
  · by_cases hki : k = i
    · subst hki
      refine ⟨q, hq, htable, hdir, ?_⟩
      rw [hpmm]
      exact hself
    · rw [hentry hk hki] at hpresent
      obtain ⟨p, hp, hpt, hpd, hpu⟩ := h.table k hk hpresent
      refine ⟨p, hp, ?_, hpd, hused p hpu⟩
      rw [State.IsTable, hentry hk hki]
      exact hpt
  · rw [hmem hne hj, directory_word, update_of_ne (word_ne hp hj hi)]
  · rw [hcleared]
    exact clearTable_entry _ _ hj

/-- What `vmm_map_page` does: the entry of `v`, in a table page `t`, is set; at most the
directory entry of `v` and a table page that was not in use change besides. -/
structure Mapped (s s' : State) (v entry : BitVec 32) (t : Nat) : Prop where
  sane : Sane s'
  table : s'.IsTable (dirIndex v) t
  table_lt : t < maxPages
  table_ne : t ≠ directoryPage
  fresh : s.dirEntry (dirIndex v) &&& pagePresent = 0 →
    t = 0 ∧ pmmAllocPage s.pmm = (s.pmm, 0) ∨ lowPages ≤ t ∧ ¬ Used s.pmm t
  kept : s.dirEntry (dirIndex v) &&& pagePresent ≠ 0 → s.IsTable (dirIndex v) t
  entry : s'.entry v = entry
  used : ∀ p, Used s.pmm p → Used s'.pmm p
  pmm : s'.pmm =
    if s.dirEntry (dirIndex v) &&& pagePresent = 0 then (pmmAllocPage s.pmm).1 else s.pmm
  dir : ∀ k < pagesPerTable, k ≠ dirIndex v → s'.dirEntry k = s.dirEntry k
  mem : ∀ p j, p ≠ t → p ≠ directoryPage → j < pagesPerTable →
    s'.mem (p * pageSize + 4 * j) = s.mem (p * pageSize + 4 * j)
  entries : s.dirEntry (dirIndex v) &&& pagePresent ≠ 0 → ∀ j < pagesPerTable,
    j ≠ ((v >>> 12) &&& 0x3FF#32).toNat →
      s'.mem (t * pageSize + 4 * j) = s.mem (t * pageSize + 4 * j)
  empty : s.dirEntry (dirIndex v) &&& pagePresent = 0 → ∀ j < pagesPerTable,
    j ≠ ((v >>> 12) &&& 0x3FF#32).toNat → s'.mem (t * pageSize + 4 * j) = 0

theorem Sane.setEntry (h : Sane s) {v : BitVec 32} (entry : BitVec 32) {t : Nat}
    (ht : s.IsTable (dirIndex v) t) (hlt : t < maxPages) (hdir : t ≠ directoryPage) :
    Mapped s { s with mem := update s.mem (s.entryAddr v) entry } v entry t := by
  have haddr : s.entryAddr v = t * pageSize + 4 * ((v >>> 12) &&& 0x3FF#32).toNat := by
    rw [State.entryAddr, ht.2]
  have hindex := entryIndex_lt v
  have hword {p j : Nat} (hne : p ≠ t) (hj : j < pagesPerTable) :
      update s.mem (s.entryAddr v) entry (p * pageSize + 4 * j) = s.mem (p * pageSize + 4 * j) := by
    rw [haddr, update_of_ne (word_ne hne hj hindex)]
  have hentry {k : Nat} (hk : k < pagesPerTable) :
      update s.mem (s.entryAddr v) entry (kernelDirectory + 4 * k) =
        s.mem (kernelDirectory + 4 * k) := by
    rw [directory_word]
    exact hword (Ne.symm hdir) hk
  have hdirEntry {k : Nat} (hk : k < pagesPerTable) :
      ({ s with mem := update s.mem (s.entryAddr v) entry } : State).dirEntry k = s.dirEntry k :=
    hentry hk
  refine ⟨h.store fun k hk => hentry hk, ?_, hlt, hdir, fun habsent => absurd habsent ht.1,
    fun _ => ht, ?_, fun _ hp => hp, (if_neg ht.1).symm, fun k hk _ => hdirEntry hk, fun p j hne _ hj => hword hne hj,
    fun _ j hj hne => ?_, fun habsent => absurd habsent ht.1⟩
  · rw [State.IsTable, hdirEntry (dirIndex_lt v)]
    exact ht
  · have hsame : ({ s with mem := update s.mem (s.entryAddr v) entry } : State).entryAddr v =
        s.entryAddr v := by
      rw [State.entryAddr, hdirEntry (dirIndex_lt v)]
      rfl
    rw [State.entry, hsame]
    exact update_self _ _ _
  · rw [haddr]
    exact update_of_ne (by omega) _ _

theorem vmmMapPage_eq (s : State) (v frame flags : BitVec 32) :
    vmmMapPage s v frame flags =
      (let s := if s.dirEntry (dirIndex v) &&& pagePresent = 0 then createTable s (dirIndex v)
        else s
       { s with mem := update s.mem (s.entryAddr v) (frame ||| pagePresent ||| flags) }) := rfl

theorem Sane.map (h : Sane s) (v frame flags : BitVec 32) :
    ∃ t, Mapped s (vmmMapPage s v frame flags) v (frame ||| pagePresent ||| flags) t := by
  have hi := dirIndex_lt v
  rw [vmmMapPage_eq]
  by_cases habsent : s.dirEntry (dirIndex v) &&& pagePresent = 0
  · obtain ⟨q, hq, hdir, hfree, hsane, htable, hused, hkeep, hmem, hempty⟩ :=
      h.createTable hi habsent
    have hset := hsane.setEntry (frame ||| pagePresent ||| flags) htable hq hdir
    rw [if_pos habsent]
    exact ⟨q, hset.sane, hset.table, hq, hdir, fun _ => hfree, fun hne => absurd habsent hne,
      hset.entry, fun p hp => hset.used p (hused p hp), (if_pos habsent).symm,
      fun k hk hne => (hset.dir k hk hne).trans (hkeep k hk hne),
      fun p j hne hd hj => (hset.mem p j hne hd hj).trans (hmem p j hne hd hj),
      fun hne => absurd habsent hne,
      fun _ j hj hne => (hset.entries htable.1 j hj hne).trans (hempty j hj)⟩
  · obtain ⟨t, hlt, htable, hdir, -⟩ := h.table _ hi habsent
    rw [if_neg habsent]
    exact ⟨t, h.setEntry _ htable hlt hdir⟩

end TocinOS.Vmm

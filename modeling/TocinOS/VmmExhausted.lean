import TocinOS.VmmTables

/-! `vmm_map_page` when no page is free: the address 0 that `pmm_alloc_page` returns then is taken
as the address of a page table. -/

namespace TocinOS.Vmm

open Function (update)
open Pmm (pageSize pmmAllocPage)

def Exhausted (m : Pmm.State) : Prop := ∀ p < m.totalPages, Used m p

theorem Exhausted.alloc {m : Pmm.State} (h : Exhausted m) : pmmAllocPage m = (m, 0) := by
  rcases Pmm.allocFrom_spec m m.totalPages 0 with ⟨he, -⟩ | ⟨p, -, hp, hfree, -, -⟩
  · exact he
  · have hused := h p (by omega)
    rw [Used, hfree] at hused
    exact absurd hused Bool.false_ne_true

def State.translation (s : State) (v : BitVec 32) : Option (BitVec 32) :=
  if s.dirEntry (dirIndex v) &&& pagePresent = 0 then none
  else if s.entry v &&& pagePresent = 0 then none else some (s.entry v &&& ~~~ 0xFFF#32)

/-- Directory entry `i` has a table which is not page 0 and which no other entry has. -/
def State.OwnTable (s : State) (i : Nat) : Prop :=
  ∃ p, s.IsTable i p ∧ p ≠ 0 ∧ ∀ k < pagesPerTable, k ≠ i → ¬ s.IsTable k p

def TablesApart (s : State) : Prop := ∀ i < pagesPerTable, ¬ s.IsTable i directoryPage

variable {s t : State} {i p q : Nat} {v frame flags : BitVec 32}

theorem State.IsTable.unique (h : s.IsTable i p) (h' : s.IsTable i q) : p = q :=
  Nat.eq_of_mul_eq_mul_right (by decide) (h.2.symm.trans h'.2)

theorem exists_isTable (h : s.dirEntry i &&& pagePresent ≠ 0) : ∃ p, s.IsTable i p :=
  ⟨_, h, toNat_and_mask (s.dirEntry i)⟩

theorem State.IsTable.entryAddr (h : s.IsTable (dirIndex v) p) :
    s.entryAddr v = p * pageSize + 4 * ((v >>> 12) &&& 0x3FF#32).toNat := by
  rw [State.entryAddr, h.2]

def SameDirectory (s t : State) : Prop := ∀ k < pagesPerTable, t.dirEntry k = s.dirEntry k

theorem SameDirectory.isTable_iff (h : SameDirectory s t) (hi : i < pagesPerTable) :
    t.IsTable i p ↔ s.IsTable i p := by
  simp only [State.IsTable, h i hi]

theorem SameDirectory.ownTable_iff (h : SameDirectory s t) (hi : i < pagesPerTable) :
    t.OwnTable i ↔ s.OwnTable i := by
  simp only [State.OwnTable, h.isTable_iff hi]
  refine exists_congr fun p => and_congr_right fun _ => and_congr_right fun _ => ?_
  exact forall₂_congr fun k hk => by rw [h.isTable_iff hk]

theorem SameDirectory.entryAddr (h : SameDirectory s t) : t.entryAddr v = s.entryAddr v := by
  rw [State.entryAddr, State.entryAddr, h _ (dirIndex_lt v)]

/-! ### A call that finds a table -/

theorem vmmMapPage_present (h : s.dirEntry (dirIndex v) &&& pagePresent ≠ 0) :
    vmmMapPage s v frame flags =
      { s with mem := update s.mem (s.entryAddr v) (frame ||| pagePresent ||| flags) } := by
  rw [vmmMapPage_eq, if_neg h]

theorem sameDirectory_map (h : s.IsTable (dirIndex v) p) (hp : p ≠ directoryPage) :
    SameDirectory s (vmmMapPage s v frame flags) := by
  intro k hk
  rw [vmmMapPage_present h.1]
  refine Function.update_of_ne ?_ _ _
  rw [h.entryAddr, directory_word]
  exact word_ne (Ne.symm hp) hk (entryIndex_lt v)

/-- The state of the page allocator does not matter to a call that finds a table. -/
theorem sameDirectory_map_again (h : t.IsTable (dirIndex v) p) (hp : p ≠ directoryPage)
    (pmm : Pmm.State) : SameDirectory t (vmmMapPage { t with pmm } v frame flags) :=
  sameDirectory_map (s := { t with pmm }) h hp

theorem entry_map (h : s.IsTable (dirIndex v) p) (hp : p ≠ directoryPage) (w : BitVec 32) :
    (vmmMapPage s v frame flags).entry w =
      if s.entryAddr w = s.entryAddr v then frame ||| pagePresent ||| flags else s.entry w := by
  rw [State.entry, (sameDirectory_map h hp).entryAddr, vmmMapPage_present h.1]
  exact Function.update_apply ..

theorem translation_map_self (h : s.IsTable (dirIndex v) p) (hp : p ≠ directoryPage) :
    (vmmMapPage s v frame flags).translation v =
      some ((frame ||| pagePresent ||| flags) &&& ~~~ 0xFFF#32) := by
  rw [State.translation, sameDirectory_map h hp _ (dirIndex_lt v), entry_map h hp v, if_pos rfl,
    if_neg h.1, if_neg (or_present_and_present frame flags)]

theorem translation_map_of_ne (h : s.IsTable (dirIndex v) p) (hp : p ≠ directoryPage)
    {w : BitVec 32} (hw : s.entryAddr w ≠ s.entryAddr v) :
    (vmmMapPage s v frame flags).translation w = s.translation w := by
  rw [State.translation, State.translation, sameDirectory_map h hp _ (dirIndex_lt w),
    entry_map h hp w, if_neg hw]

theorem State.OwnTable.translation_eq (h : s.OwnTable (dirIndex v)) {w : BitVec 32}
    (hw : s.dirEntry (dirIndex w) &&& pagePresent ≠ 0) (haddr : s.entryAddr w = s.entryAddr v) :
    s.translation w = s.translation v ∧ dirIndex w = dirIndex v := by
  obtain ⟨p, hp, -, hown⟩ := h
  obtain ⟨q, hq⟩ := exists_isTable hw
  have hsame : q = p := by
    by_contra hne
    rw [hq.entryAddr, hp.entryAddr] at haddr
    exact word_ne hne (entryIndex_lt w) (entryIndex_lt v) haddr
  have hdir : dirIndex w = dirIndex v := by
    by_contra hne
    exact hown _ (dirIndex_lt w) hne (hsame ▸ hq)
  exact ⟨by rw [State.translation, State.translation, State.entry, State.entry, hdir, haddr], hdir⟩

/-! ### A call that finds none -/

theorem isTable_map_exhausted (hfull : Exhausted s.pmm)
    (h : s.dirEntry (dirIndex v) &&& pagePresent = 0) :
    (vmmMapPage s v frame flags).IsTable (dirIndex v) 0 := by
  have hdir := dirIndex_lt v
  have hcreated : (createTable s (dirIndex v)).dirEntry (dirIndex v) = tableEntry 0 := by
    simp only [State.dirEntry, createTable, hfull.alloc]
    rw [clearTable_of_ne _ fun k hk => ?_]
    · exact Function.update_self ..
    · simp only [kernelDirectory, pagesPerTable] at *
      omega
  have htable : (createTable s (dirIndex v)).IsTable (dirIndex v) 0 := by
    rw [State.IsTable, hcreated]
    exact ⟨tableEntry_present 0, tableAddr_tableEntry (by decide)⟩
  have hmap : vmmMapPage s v frame flags =
      vmmMapPage (createTable s (dirIndex v)) v frame flags := by
    rw [vmmMapPage_present htable.1, vmmMapPage_eq, if_pos h]
  rw [hmap, (sameDirectory_map htable (by decide)).isTable_iff hdir]
  exact htable

/-! ### What the call leaves behind -/

/-- What is asked of a call without a free page. `later` is the same call with any other state of
the page allocator that has a free page. -/
structure FailsCleanly (s : State) (v frame flags : BitVec 32) : Prop where
  kept : ∀ w p, s.translation w = some p → (vmmMapPage s v frame flags).translation w = some p
  zero : ∀ a < pageSize, (vmmMapPage s v frame flags).mem a = s.mem a
  later : ∀ pmm, ¬ Exhausted pmm →
    let t := vmmMapPage { vmmMapPage s v frame flags with pmm } v frame flags
    t.OwnTable (dirIndex v) ∧ t.entry v = frame ||| pagePresent ||| flags

theorem hasFreePage : ¬ Exhausted ⟨fun _ => 0, 1, 0⟩ := fun hused => (nomatch hused 0 (by decide))

theorem not_failsCleanly (hfull : Exhausted s.pmm)
    (h : s.dirEntry (dirIndex v) &&& pagePresent = 0) : ¬ FailsCleanly s v frame flags := by
  intro hclean
  have htable : (vmmMapPage s v frame flags).IsTable (dirIndex v) 0 :=
    isTable_map_exhausted hfull h
  have hzero : 0 ≠ directoryPage := by decide
  have hlater := (hclean.later _ hasFreePage).1
  rw [(sameDirectory_map_again htable hzero _).ownTable_iff (dirIndex_lt v)] at hlater
  obtain ⟨p, hp, hne, -⟩ := hlater
  exact absurd (hp.unique htable) hne

/-- Without a free page a call is clean just when it needs none, the table not being shared and
not page 0, and when it does not move a page that is mapped. -/
theorem map_without_page_clean_iff (hapart : TablesApart s) (hfull : Exhausted s.pmm)
    (v frame flags : BitVec 32) :
    FailsCleanly s v frame flags ↔ s.OwnTable (dirIndex v) ∧
      ∀ p, s.translation v = some p → p = (frame ||| pagePresent ||| flags) &&& ~~~ 0xFFF#32 := by
  have hdir := dirIndex_lt v
  constructor
  · intro h
    by_cases hpresent : s.dirEntry (dirIndex v) &&& pagePresent = 0
    · exact absurd h (not_failsCleanly hfull hpresent)
    · have hlater := (h.later _ hasFreePage).1
      obtain ⟨p, hp⟩ := exists_isTable hpresent
      have hne : p ≠ directoryPage := fun heq => hapart _ hdir (heq ▸ hp)
      have hfirst : SameDirectory s (vmmMapPage s v frame flags) := sameDirectory_map hp hne
      rw [(sameDirectory_map_again ((hfirst.isTable_iff hdir).mpr hp) hne _).ownTable_iff hdir,
        hfirst.ownTable_iff hdir] at hlater
      refine ⟨hlater, fun q hq => ?_⟩
      have hkept := h.kept v q hq
      rw [translation_map_self hp hne] at hkept
      exact (Option.some.inj hkept).symm
  · rintro ⟨hown, hself⟩
    have ⟨p, hp, hzero, _⟩ := hown
    have hne : p ≠ directoryPage := fun heq => hapart _ hdir (heq ▸ hp)
    have hfirst : SameDirectory s (vmmMapPage s v frame flags) := sameDirectory_map hp hne
    refine ⟨fun w q hq => ?_, fun a ha => ?_, fun pmm _ => ⟨?_, ?_⟩⟩
    · by_cases haddr : s.entryAddr w = s.entryAddr v
      · have hmapped : s.dirEntry (dirIndex w) &&& pagePresent ≠ 0 := by
          intro habsent
          rw [State.translation, if_pos habsent] at hq
          exact nomatch hq
        obtain ⟨heq, hindex⟩ := hown.translation_eq hmapped haddr
        obtain rfl := hself q (heq ▸ hq)
        have hsame : (vmmMapPage s v frame flags).translation w =
            (vmmMapPage s v frame flags).translation v := by
          rw [State.translation, State.translation, hindex, entry_map hp hne, entry_map hp hne,
            if_pos haddr, if_pos rfl]
        rw [hsame, translation_map_self hp hne]
      · rw [translation_map_of_ne hp hne haddr, hq]
    · rw [vmmMapPage_present hp.1]
      refine Function.update_of_ne ?_ _ _
      rw [hp.entryAddr]
      have hpos : 0 < p := Nat.pos_of_ne_zero hzero
      simp only [pageSize] at *
      omega
    · rw [(sameDirectory_map_again ((hfirst.isTable_iff hdir).mpr hp) hne pmm).ownTable_iff hdir,
        hfirst.ownTable_iff hdir]
      exact hown
    · rw [entry_map (s := { vmmMapPage s v frame flags with pmm })
        ((hfirst.isTable_iff hdir).mpr hp) hne, if_pos rfl]

/-! ### Two calls on a full machine -/

/-- All pages are in use; the directory has the table of `vmm_init` and one for 4 MiB to 8 MiB. -/
def fullMachine : State where
  mem a := if a = 0x9C000 then 0x9D003 else if a = 0x9C004 then 0x300007 else 0
  pmm := ⟨fun _ => 0xFF, Pmm.maxPages, Pmm.maxPages⟩

theorem fullMachine_exhausted : Exhausted fullMachine.pmm := by
  intro p _
  have hbit : ∀ k < 8, Bitmap.test (fun _ => 0xFF) k = true := by decide
  have hmod : Bitmap.test (fun _ => 0xFF) p = Bitmap.test (fun _ => 0xFF) (p % 8) := by
    simp only [Bitmap.test, Bitmap.mask, Nat.mod_mod]
  exact hmod.trans (hbit _ (Nat.mod_lt _ (by decide)))

theorem fullMachine_present (h : fullMachine.dirEntry i &&& pagePresent ≠ 0) : i = 0 ∨ i = 1 := by
  by_contra hne
  have hzero : fullMachine.dirEntry i = 0 := by
    simp only [State.dirEntry, fullMachine, kernelDirectory]
    rw [if_neg (by omega), if_neg (by omega)]
  rw [hzero] at h
  exact h (by decide)

theorem fullMachine_apart : TablesApart fullMachine := by
  rintro i - ⟨hpresent, haddr⟩
  obtain rfl | rfl := fullMachine_present hpresent
  · exact absurd haddr (by decide)
  · exact absurd haddr (by decide)

theorem fullMachine_ownTable : fullMachine.OwnTable 1 := by
  refine ⟨0x300, ⟨by decide, by decide⟩, by decide, fun k _ hk hshared => ?_⟩
  obtain rfl | rfl := fullMachine_present hshared.1
  · exact absurd hshared.2 (by decide)
  · exact hk rfl

theorem fullMachine_maps : FailsCleanly fullMachine 0x400000 0x200000 6 := by
  have hnone : fullMachine.translation 0x400000 = none := rfl
  exact (map_without_page_clean_iff fullMachine_apart fullMachine_exhausted _ _ _).mpr
    ⟨fullMachine_ownTable, fun p hp => (nomatch hnone.symm.trans hp)⟩

/-- At 8 MiB there is no table yet. -/
theorem fullMachine_takes_page_zero : ¬ FailsCleanly fullMachine 0x800000 0x200000 6 :=
  not_failsCleanly fullMachine_exhausted (by decide)

end TocinOS.Vmm

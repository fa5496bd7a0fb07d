import TocinOS.PmmRuns
import TocinOS.Vmm

/-! The page tables implement a finite map from virtual pages to frames. -/

namespace TocinOS.Vmm

open Function
open Pmm (pageSize lowPages maxPages pmmAllocPage)

def virtualPage (v : BitVec 32) : Nat := v.toNat / pageSize

theorem dirIndex_eq (v : BitVec 32) : (v >>> 22).toNat = virtualPage v / pagesPerTable := by
  have hsize : pageSize * pagesPerTable = 2 ^ 22 := by decide
  rw [BitVec.toNat_ushiftRight, Nat.shiftRight_eq_div_pow, virtualPage, Nat.div_div_eq_div_mul, hsize]

theorem tableIndex_eq (v : BitVec 32) :
    ((v >>> 12) &&& 0x3FF#32).toNat = virtualPage v % pagesPerTable := by
  have hmask : (0x3FF#32).toNat = 2 ^ 10 - 1 := rfl
  rw [BitVec.toNat_and, hmask, Nat.and_two_pow_sub_one_eq_mod, BitVec.toNat_ushiftRight,
    Nat.shiftRight_eq_div_pow]
  rfl

theorem virtualPage_lt (v : BitVec 32) : virtualPage v / pagesPerTable < pagesPerTable := by
  have hv := v.isLt
  simp only [virtualPage, pagesPerTable, pageSize]
  omega

/-! Words with a frame in the upper bits and flags below. -/

variable {i p j : Nat} {frame flags : BitVec 32}

theorem getLsbD_mask (hi : i < 32) : (~~~ 0xFFF#32).getLsbD i = decide (12 ≤ i) := by
  revert i
  decide

theorem toNat_and_mask (v : BitVec 32) : (v &&& ~~~ 0xFFF#32).toNat = v.toNat / 4096 * 4096 := by
  have hmask : ~~~ 0xFFF#32 = BitVec.allOnes 32 <<< 12 := by decide
  have hv := v.isLt
  rw [hmask, ← BitVec.shiftLeft_ushiftRight, BitVec.toNat_shiftLeft, BitVec.toNat_ushiftRight,
    Nat.shiftRight_eq_div_pow, Nat.shiftLeft_eq]
  omega

def FrameAligned (frame : BitVec 32) : Prop := frame &&& 0xFFF#32 = 0

theorem FrameAligned.and_mask (h : FrameAligned frame) : frame &&& ~~~ 0xFFF#32 = frame := by
  have hor : frame &&& (0xFFF#32 ||| ~~~ 0xFFF#32) = frame := by
    rw [show (0xFFF#32 ||| ~~~ 0xFFF#32) = BitVec.allOnes 32 by decide, BitVec.and_allOnes]
  rw [BitVec.and_or_distrib_left, h] at hor
  simpa using hor

theorem and_mask_of_lt (h : flags < 0x1000#32) : flags &&& ~~~ 0xFFF#32 = 0 := by
  apply BitVec.eq_of_getLsbD_eq
  intro i hi
  rw [BitVec.getLsbD_and, getLsbD_mask hi]
  by_cases hlow : 12 ≤ i
  · have hbit : flags.getLsbD i = false := by
      apply Nat.testBit_lt_two_pow
      exact Nat.lt_of_lt_of_le (BitVec.lt_def.mp h) (Nat.pow_le_pow_right (n := 2) (by decide) hlow)
    simp [hbit]
  · simp [hlow]

theorem frame_and_mask (h : FrameAligned frame) (hf : flags < 0x1000#32) :
    (frame ||| flags) &&& ~~~ 0xFFF#32 = frame := by
  rw [BitVec.and_comm, BitVec.and_or_distrib_left, BitVec.and_comm _ frame, h.and_mask,
    BitVec.and_comm _ flags, and_mask_of_lt hf]
  simp

theorem present_lt (h : flags < 0x1000#32) : pagePresent ||| flags < 0x1000#32 := by
  rw [BitVec.lt_def, BitVec.toNat_or]
  exact Nat.or_lt_two_pow (n := 12) (by decide) (BitVec.lt_def.mp h)

theorem or_present_and_present (frame flags : BitVec 32) :
    (frame ||| pagePresent ||| flags) &&& pagePresent ≠ 0 := by
  intro h
  have hbit := congrArg (fun w => w.getLsbD 0) h
  simp at hbit

def Holds (entry : BitVec 32) : Option (BitVec 32) → Prop
  | none => entry = 0
  | some frame => FrameAligned frame ∧
    ∃ flags < 0x1000#32, entry = frame ||| pagePresent ||| flags

theorem Holds.lookup {entry : BitVec 32} {o : Option (BitVec 32)} (h : Holds entry o) :
    (if entry &&& pagePresent = 0 then 0 else entry &&& ~~~ 0xFFF#32) = o.getD 0 := by
  cases o with
  | none =>
    obtain rfl : entry = 0 := h
    rfl
  | some frame =>
    obtain ⟨ha, flags, hf, rfl⟩ := h
    rw [if_neg (or_present_and_present frame flags), BitVec.or_assoc,
      frame_and_mask ha (present_lt hf)]
    rfl

/-! Clearing a fresh table. -/

theorem clearTable_of_ne {table a : Nat} (mem : Nat → BitVec 32)
    (h : ∀ i < pagesPerTable, a ≠ table + 4 * i) : clearTable table mem a = mem a := by
  unfold clearTable
  generalize pagesPerTable = n at h
  induction n with
  | zero => rfl
  | succ n ih =>
    simp only [List.range_succ, List.foldl_append, List.foldl_cons, List.foldl_nil]
    rw [update_of_ne (h n (Nat.lt_succ_self n))]
    exact ih fun i hi => h i (Nat.lt_succ_of_lt hi)

theorem clearTable_entry (table : Nat) (mem : Nat → BitVec 32) (hi : i < pagesPerTable) :
    clearTable table mem (table + 4 * i) = 0 := by
  unfold clearTable
  generalize pagesPerTable = n at hi
  induction n with
  | zero => omega
  | succ n ih =>
    simp only [List.range_succ, List.foldl_append, List.foldl_cons, List.foldl_nil]
    by_cases hin : i = n
    · rw [hin, update_self]
    · rw [update_of_ne (by omega)]
      exact ih (by omega)

def tableEntry (p : Nat) : BitVec 32 :=
  BitVec.ofNat 32 (p * pageSize) ||| pagePresent ||| pageWrite ||| pageUser

theorem tableEntry_present (p : Nat) : tableEntry p &&& pagePresent ≠ 0 := by
  unfold tableEntry
  rw [BitVec.or_assoc]
  exact or_present_and_present _ _

theorem toNat_page (hp : p < maxPages) : (BitVec.ofNat 32 (p * pageSize)).toNat = p * pageSize := by
  have hlt : p * pageSize < 2 ^ 32 := by
    simp only [maxPages, Pmm.memorySize, pageSize] at hp ⊢
    omega
  rw [BitVec.toNat_ofNat, Nat.mod_eq_of_lt hlt]

theorem frameAligned_page (hp : p < maxPages) : FrameAligned (BitVec.ofNat 32 (p * pageSize)) := by
  have hmask : (0xFFF#32).toNat = 2 ^ 12 - 1 := rfl
  apply BitVec.eq_of_toNat_eq
  rw [BitVec.toNat_and, toNat_page hp, hmask, Nat.and_two_pow_sub_one_eq_mod]
  exact Nat.mul_mod_left p pageSize

theorem tableAddr_tableEntry (hp : p < maxPages) : tableAddr (tableEntry p) = p * pageSize := by
  unfold tableAddr tableEntry
  rw [BitVec.or_assoc, BitVec.or_assoc, frame_and_mask (frameAligned_page hp) (by decide),
    toNat_page hp]

/-- The page tables hold the map `σ`. `table i` is the page used as table of
directory entry `i`, `all` are the pages taken from the physical memory
manager and `given` those of them that callers hold. -/
structure Inv (s : State) (reserved : Nat → Prop) (table : Nat → Option Nat) (all given : List Nat)
    (σ : Nat → Option (BitVec 32)) : Prop where
  pmm : Pmm.Inv s.pmm reserved all
  sub : ∀ a ∈ given, a ∈ all
  taken : ∀ i p, table i = some p → p * pageSize ∈ all ∧ p * pageSize ∉ given
  injective : ∀ i j p, table i = some p → table j = some p → i = j
  absent : ∀ i < pagesPerTable, table i = none →
    s.dirEntry i = 0 ∧ ∀ j < pagesPerTable, σ (i * pagesPerTable + j) = none
  present : ∀ i < pagesPerTable, ∀ p, table i = some p → s.dirEntry i = tableEntry p
  entries : ∀ i < pagesPerTable, ∀ p, table i = some p → ∀ j < pagesPerTable,
    Holds (s.mem (p * pageSize + 4 * j)) (σ (i * pagesPerTable + j))

theorem dir_ne_table (hi : i < pagesPerTable) (hp : lowPages ≤ p) :
    kernelDirectory + 4 * i ≠ p * pageSize + 4 * j := by
  simp only [pagesPerTable, lowPages, pageSize, kernelDirectory] at *
  omega

theorem table_ne_table {q k : Nat} (hpq : p ≠ q) (hj : j < pagesPerTable) (hk : k < pagesPerTable) :
    p * pageSize + 4 * j ≠ q * pageSize + 4 * k := by
  simp only [pagesPerTable, pageSize] at *
  omega

def Room (s : State) (v : BitVec 32) : Prop :=
  s.dirEntry (v >>> 22).toNat &&& pagePresent = 0 → (pmmAllocPage s.pmm).2 ≠ 0

namespace Inv

variable {s : State} {reserved : Nat → Prop} {table : Nat → Option Nat} {all given : List Nat}
  {σ : Nat → Option (BitVec 32)}

theorem table_bounds (h : Inv s reserved table all given σ) (hi : table i = some p) :
    lowPages ≤ p ∧ p < maxPages := by
  obtain ⟨q, hq, hres, he⟩ := h.pmm.given _ (h.taken i p hi).1
  obtain rfl := Pmm.page_inj.mp he
  exact ⟨Nat.le_of_not_lt fun hlt => hres (h.pmm.low p hlt), hq⟩

theorem isPresent_iff (h : Inv s reserved table all given σ) (hi : i < pagesPerTable) :
    s.dirEntry i &&& pagePresent ≠ 0 ↔ ∃ p, table i = some p := by
  cases ht : table i with
  | none => simp [(h.absent i hi ht).1]
  | some p => simp only [h.present i hi p ht, ne_eq, tableEntry_present, not_false_eq_true,
      Option.some.injEq, exists_eq']

theorem write (h : Inv s reserved table all given σ) (hi : i < pagesPerTable)
    (hj : j < pagesPerTable) (ht : table i = some p) {entry : BitVec 32} {o : Option (BitVec 32)}
    (hw : Holds entry o) :
    Inv { s with mem := update s.mem (p * pageSize + 4 * j) entry } reserved table all given
      (update σ (i * pagesPerTable + j) o) := by
  have hdir {k : Nat} (hk : k < pagesPerTable) :
      update s.mem (p * pageSize + 4 * j) entry (kernelDirectory + 4 * k) =
        s.mem (kernelDirectory + 4 * k) :=
    update_of_ne (dir_ne_table hk (h.table_bounds ht).1) _ _
  have hkey {k l : Nat} (hl : l < pagesPerTable)
      (he : k * pagesPerTable + l = i * pagesPerTable + j) : k = i ∧ l = j := by
    simp only [pagesPerTable] at *
    omega
  refine ⟨h.pmm, h.sub, h.taken, h.injective, fun k hk hnone => ?_, fun k hk q hq => ?_,
    fun k hk q hq l hl => ?_⟩
  · refine ⟨(hdir hk).trans (h.absent k hk hnone).1, fun l hl => ?_⟩
    rw [update_of_ne]
    · exact (h.absent k hk hnone).2 l hl
    · intro he
      obtain ⟨rfl, -⟩ := hkey hl he
      simp [ht] at hnone
  · exact (hdir hk).trans (h.present k hk q hq)
  · by_cases he : k * pagesPerTable + l = i * pagesPerTable + j
    · obtain ⟨rfl, rfl⟩ := hkey hl he
      obtain rfl : q = p := Option.some.inj (hq.symm.trans ht)
      simpa using hw
    · have hmem : q * pageSize + 4 * l ≠ p * pageSize + 4 * j := by
        by_cases hqp : q = p
        · subst hqp
          obtain rfl := h.injective k i q hq ht
          intro hmem
          omega
        · exact table_ne_table hqp hl hj
      simp only [update_of_ne he, update_of_ne hmem]
      exact h.entries k hk q hq l hl

theorem create (h : Inv s reserved table all given σ) (hi : i < pagesPerTable) (ht : table i = none)
    (hroom : (pmmAllocPage s.pmm).2 ≠ 0) :
    ∃ p, Inv (createTable s i) reserved (update table i (some p)) (p * pageSize :: all) given σ := by
  rcases h.pmm.alloc with ⟨he, _⟩ | ⟨p, hp, hres, hfresh, _, _, he, hpmm⟩
  · rw [he] at hroom
    exact absurd rfl hroom
  have hlow : lowPages ≤ p := Nat.le_of_not_lt fun hlt => hres (h.pmm.low p hlt)
  have hcreate : createTable s i =
      { pmm := Pmm.pmmSetPageUsed s.pmm p
        mem := clearTable (p * pageSize)
          (update s.mem (kernelDirectory + 4 * i) (tableEntry p)) } := by
    simp only [createTable, he, tableEntry]
  have hdir {k : Nat} (hk : k < pagesPerTable) : (createTable s i).dirEntry k =
      update s.mem (kernelDirectory + 4 * i) (tableEntry p) (kernelDirectory + 4 * k) := by
    have hfar : ∀ j < pagesPerTable, kernelDirectory + 4 * k ≠ p * pageSize + 4 * j :=
      fun j _ => dir_ne_table hk hlow
    simp only [hcreate, State.dirEntry, clearTable_of_ne _ hfar]
  have hdir' {k : Nat} (hk : k < pagesPerTable) (hki : k ≠ i) :
      (createTable s i).dirEntry k = s.dirEntry k := by
    rw [hdir hk, update_of_ne (by omega)]
    rfl
  have hne {k q : Nat} (hq : table k = some q) : q ≠ p := by
    rintro rfl
    exact hfresh (h.taken k q hq).1
  refine ⟨p, by rw [hcreate]; exact hpmm, fun a ha => List.mem_cons_of_mem _ (h.sub a ha),
    fun k q hq => ?_, fun k l q hk hl => ?_, fun k hk hnone => ?_, fun k hk q hq => ?_,
    fun k hk q hq j hj => ?_⟩
  · by_cases hki : k = i
    · rw [hki, update_self, Option.some.injEq] at hq
      subst hq
      exact ⟨List.mem_cons_self, fun hmem => hfresh (h.sub _ hmem)⟩
    · rw [update_of_ne hki] at hq
      exact ⟨List.mem_cons_of_mem _ (h.taken k q hq).1, (h.taken k q hq).2⟩
  · by_cases hki : k = i
    · by_cases hli : l = i
      · rw [hki, hli]
      · rw [update_of_ne hli] at hl
        rw [hki, update_self, Option.some.injEq] at hk
        exact absurd hk.symm (hne hl)
    · rw [update_of_ne hki] at hk
      by_cases hli : l = i
      · rw [hli, update_self, Option.some.injEq] at hl
        exact absurd hl.symm (hne hk)
      · rw [update_of_ne hli] at hl
        exact h.injective k l q hk hl
  · have hki : k ≠ i := by
      rintro rfl
      simp at hnone
    rw [update_of_ne hki] at hnone
    rw [hdir' hk hki]
    exact h.absent k hk hnone
  · by_cases hki : k = i
    · rw [hki, update_self, Option.some.injEq] at hq
      rw [hdir hk, hki, update_self, hq]
    · rw [update_of_ne hki] at hq
      rw [hdir' hk hki]
      exact h.present k hk q hq
  · by_cases hki : k = i
    · rw [hki, update_self, Option.some.injEq] at hq
      subst hq hki
      rw [hcreate, (h.absent k hk ht).2 j hj]
      simp only [Holds, clearTable_entry (p * pageSize) _ hj]
    · rw [update_of_ne hki] at hq
      have hclear : (createTable s i).mem (q * pageSize + 4 * j) = s.mem (q * pageSize + 4 * j) := by
        rw [hcreate]
        have hfar : ∀ l < pagesPerTable, q * pageSize + 4 * j ≠ p * pageSize + 4 * l :=
          fun l hl => table_ne_table (hne hq) hj hl
        have hdirFar := dir_ne_table (j := j) hi (h.table_bounds hq).1
        simp only [clearTable_of_ne _ hfar, update_of_ne (Ne.symm hdirFar)]
      rw [hclear]
      exact h.entries k hk q hq j hj

theorem virtualPage_eq (v : BitVec 32) :
    virtualPage v / pagesPerTable * pagesPerTable + virtualPage v % pagesPerTable =
      virtualPage v := Nat.div_add_mod' _ _

theorem tableIndex_lt (v : BitVec 32) : virtualPage v % pagesPerTable < pagesPerTable :=
  Nat.mod_lt _ (by decide)

theorem map (h : Inv s reserved table all given σ) {v : BitVec 32} (hframe : FrameAligned frame)
    (hflags : flags < 0x1000#32) (hroom : Room s v) :
    ∃ table' all', Inv (vmmMapPage s v frame flags) reserved table' all' given
      (update σ (virtualPage v) (some frame)) := by
  have hi := virtualPage_lt v
  have hj := tableIndex_lt v
  have hw : Holds (frame ||| pagePresent ||| flags) (some frame) := ⟨hframe, flags, hflags, rfl⟩
  have finish {t : State} {table' : Nat → Option Nat} {all' : List Nat} {p : Nat}
      (ht : Inv t reserved table' all' given σ)
      (hp : table' (virtualPage v / pagesPerTable) = some p) :
      Inv
        { t with mem := update t.mem (tableAddr (t.dirEntry (virtualPage v / pagesPerTable)) +
            4 * (virtualPage v % pagesPerTable)) (frame ||| pagePresent ||| flags) }
        reserved table' all' given (update σ (virtualPage v) (some frame)) := by
    have hwrite := ht.write hi hj hp hw
    rw [virtualPage_eq] at hwrite
    rw [ht.present _ hi p hp, tableAddr_tableEntry (ht.table_bounds hp).2]
    exact hwrite
  simp only [vmmMapPage, dirIndex_eq, tableIndex_eq]
  cases htable : table (virtualPage v / pagesPerTable) with
  | none =>
    have hzero : s.dirEntry (virtualPage v / pagesPerTable) &&& pagePresent = 0 := by
      simp [(h.absent _ hi htable).1]
    obtain ⟨p, hp⟩ := h.create hi htable (hroom (by rwa [dirIndex_eq]))
    rw [if_pos hzero]
    exact ⟨_, _, finish hp (update_self _ _ _)⟩
  | some p =>
    rw [if_neg ((h.isPresent_iff hi).mpr ⟨p, htable⟩)]
    exact ⟨_, _, finish h htable⟩

theorem unmap (h : Inv s reserved table all given σ) (v : BitVec 32) :
    Inv (vmmUnmapPage s v) reserved table all given (update σ (virtualPage v) none) := by
  have hi := virtualPage_lt v
  have hj := tableIndex_lt v
  simp only [vmmUnmapPage, dirIndex_eq, tableIndex_eq]
  cases htable : table (virtualPage v / pagesPerTable) with
  | none =>
    have hnone : σ (virtualPage v) = none := by
      have := (h.absent _ hi htable).2 _ hj
      rwa [virtualPage_eq] at this
    rw [if_neg (by simp [(h.absent _ hi htable).1]), ← hnone, update_eq_self]
    exact h
  | some p =>
    have hzero : Holds 0 none := rfl
    have hwrite := h.write hi hj htable hzero
    rw [virtualPage_eq] at hwrite
    rw [if_pos ((h.isPresent_iff hi).mpr ⟨p, htable⟩), h.present _ hi p htable,
      tableAddr_tableEntry (h.table_bounds htable).2]
    exact hwrite

theorem getPhysical (h : Inv s reserved table all given σ) (v : BitVec 32) :
    vmmGetPhysical s v = (σ (virtualPage v)).getD 0 := by
  have hi := virtualPage_lt v
  have hj := tableIndex_lt v
  simp only [vmmGetPhysical, dirIndex_eq, tableIndex_eq]
  cases htable : table (virtualPage v / pagesPerTable) with
  | none =>
    have hnone := (h.absent _ hi htable).2 _ hj
    rw [virtualPage_eq] at hnone
    rw [if_pos (by simp [(h.absent _ hi htable).1]), hnone]
    rfl
  | some p =>
    have hentry := h.entries _ hi p htable _ hj
    rw [virtualPage_eq] at hentry
    rw [if_neg ((h.isPresent_iff hi).mpr ⟨p, htable⟩), h.present _ hi p htable,
      tableAddr_tableEntry (h.table_bounds htable).2]
    exact hentry.lookup

theorem alloc (h : Inv s reserved table all given σ) :
    (pmmAllocPage s.pmm = (s.pmm, 0)) ∨
    ∃ pmm a, pmmAllocPage s.pmm = (pmm, a) ∧ a ≠ 0 ∧ a ∉ all ∧
      Inv { s with pmm := pmm } reserved table (a :: all) (a :: given) σ := by
  rcases h.pmm.alloc with ⟨he, _⟩ | ⟨p, _, _, hfresh, hne, _, he, hpmm⟩
  · exact Or.inl he
  · refine Or.inr ⟨_, _, he, hne, hfresh, hpmm, fun a ha => ?_, fun i q hq => ?_, h.injective,
      h.absent, h.present, h.entries⟩
    · rcases List.mem_cons.mp ha with rfl | ha
      · exact List.mem_cons_self
      · exact List.mem_cons_of_mem _ (h.sub a ha)
    · obtain ⟨hall, hgiven⟩ := h.taken i q hq
      refine ⟨List.mem_cons_of_mem _ hall, fun hmem => ?_⟩
      rcases List.mem_cons.mp hmem with he | hmem
      · exact hfresh (he ▸ hall)
      · exact hgiven hmem

end Inv

abbrev Config := State × List Nat × (Nat → Option (BitVec 32))

inductive Step : Config → Config → Prop
  | map {s : State} {given : List Nat} {σ : Nat → Option (BitVec 32)} {v frame flags : BitVec 32}
      (hframe : FrameAligned frame) (hflags : flags < 0x1000#32) (hroom : Room s v) :
      Step (s, given, σ)
        (vmmMapPage s v frame flags, given, update σ (virtualPage v) (some frame))
  | unmap {s : State} {given : List Nat} {σ : Nat → Option (BitVec 32)} {v : BitVec 32} :
      Step (s, given, σ) (vmmUnmapPage s v, given, update σ (virtualPage v) none)
  | alloc {s : State} {given : List Nat} {σ : Nat → Option (BitVec 32)} {pmm : Pmm.State} {a : Nat}
      (h : pmmAllocPage s.pmm = (pmm, a)) (ha : a ≠ 0) :
      Step (s, given, σ) ({ s with pmm := pmm }, a :: given, σ)
  | allocFailed {s : State} {given : List Nat} {σ : Nat → Option (BitVec 32)} {pmm : Pmm.State}
      (h : pmmAllocPage s.pmm = (pmm, 0)) : Step (s, given, σ) ({ s with pmm := pmm }, given, σ)

/-- Runs from an empty directory, with the physical memory manager in any state
that its own calls lead to. -/
def Reachable (c : Config) : Prop :=
  ∃ mem info s given, Pmm.Reachable mem info s.pmm given ∧
    (∀ i < pagesPerTable, s.dirEntry i = 0) ∧
    Relation.ReflTransGen Step (s, given, fun _ => none) c

theorem Inv.step {s t : State} {reserved : Nat → Prop} {table : Nat → Option Nat}
    {all given given' : List Nat} {σ σ' : Nat → Option (BitVec 32)}
    (h : Inv s reserved table all given σ) (hs : Step (s, given, σ) (t, given', σ')) :
    ∃ table' all', Inv t reserved table' all' given' σ' := by
  cases hs with
  | map hframe hflags hroom => exact h.map hframe hflags hroom
  | unmap => exact ⟨table, all, h.unmap _⟩
  | alloc he ha =>
    rcases h.alloc with he' | ⟨pmm, a, he', _, _, hinv⟩
    · rw [he] at he'
      exact absurd (Prod.mk.inj he').2 ha
    · rw [he] at he'
      cases he'
      exact ⟨_, _, hinv⟩
  | allocFailed he =>
    rcases h.alloc with he' | ⟨pmm, a, he', hne, _, _⟩
    · rw [he] at he'
      cases he'
      exact ⟨table, all, h⟩
    · rw [he] at he'
      exact absurd (Prod.mk.inj he').2.symm hne

theorem Reachable.inv {s : State} {given : List Nat} {σ : Nat → Option (BitVec 32)}
    (h : Reachable (s, given, σ)) : ∃ reserved table all, Inv s reserved table all given σ := by
  obtain ⟨mem, info, s₀, given₀, hpmm, hempty, h⟩ := h
  refine ⟨Pmm.Reserved mem info, ?_⟩
  generalize he : (s, given, σ) = c at h
  induction h generalizing s given σ with
  | refl =>
    obtain ⟨rfl, rfl, rfl⟩ := he
    refine ⟨fun _ => none, given₀, hpmm.inv, fun _ ha => ha, ?_, ?_, ?_, ?_, ?_⟩
    · intro i p hp
      cases hp
    · intro i j p hp
      cases hp
    · exact fun i hi _ => ⟨hempty i hi, fun _ _ => rfl⟩
    · intro i hi p hp
      cases hp
    · intro i hi p hp
      cases hp
  | @tail c _ _ hs ih =>
    subst he
    obtain ⟨table, all, hinv⟩ := ih rfl
    exact hinv.step hs

structure Refines (s : State) (given : List Nat) (σ : Nat → Option (BitVec 32)) : Prop where
  translate : ∀ v, vmmGetPhysical s v = (σ (virtualPage v)).getD 0
  mapOther : ∀ v w frame flags, FrameAligned frame → flags < 0x1000#32 → Room s v →
    virtualPage w ≠ virtualPage v →
    vmmGetPhysical (vmmMapPage s v frame flags) w = vmmGetPhysical s w
  unmapOther : ∀ v w, virtualPage w ≠ virtualPage v →
    vmmGetPhysical (vmmUnmapPage s v) w = vmmGetPhysical s w
  distinct : ∀ i < pagesPerTable, ∀ j < pagesPerTable, s.dirEntry i &&& pagePresent ≠ 0 →
    s.dirEntry j &&& pagePresent ≠ 0 → tableAddr (s.dirEntry i) = tableAddr (s.dirEntry j) → i = j
  used : ∀ i < pagesPerTable, s.dirEntry i &&& pagePresent ≠ 0 →
    Bitmap.test s.pmm.memoryBitmap (tableAddr (s.dirEntry i) / pageSize) = true
  unshared : ∀ i < pagesPerTable, s.dirEntry i &&& pagePresent ≠ 0 →
    tableAddr (s.dirEntry i) ∉ given ∧ (pmmAllocPage s.pmm).2 ≠ tableAddr (s.dirEntry i)

/-- The two-level tables implement the map that the calls make up. -/
theorem reachable_refines {s : State} {given : List Nat} {σ : Nat → Option (BitVec 32)}
    (h : Reachable (s, given, σ)) : Refines s given σ := by
  obtain ⟨reserved, table, all, hinv⟩ := h.inv
  have haddr {i p : Nat} (hi : i < pagesPerTable) (hp : table i = some p) :
      tableAddr (s.dirEntry i) = p * pageSize := by
    rw [hinv.present i hi p hp, tableAddr_tableEntry (hinv.table_bounds hp).2]
  refine ⟨hinv.getPhysical, ?_, ?_, ?_, ?_, ?_⟩
  · intro v w frame flags hframe hflags hroom hne
    obtain ⟨table', all', hmap⟩ := hinv.map hframe hflags hroom
    rw [hmap.getPhysical, hinv.getPhysical, update_of_ne hne]
  · intro v w hne
    rw [(hinv.unmap v).getPhysical, hinv.getPhysical, update_of_ne hne]
  · intro i hi j hj hpi hpj he
    obtain ⟨p, hp⟩ := (hinv.isPresent_iff hi).mp hpi
    obtain ⟨q, hq⟩ := (hinv.isPresent_iff hj).mp hpj
    rw [haddr hi hp, haddr hj hq, Pmm.page_inj] at he
    exact hinv.injective i j p hp (he ▸ hq)
  · intro i hi hpi
    obtain ⟨p, hp⟩ := (hinv.isPresent_iff hi).mp hpi
    rw [haddr hi hp, Nat.mul_div_cancel p (by decide)]
    exact (hinv.pmm.counts.bits p (hinv.table_bounds hp).2).mpr (Or.inr (hinv.taken i p hp).1)
  · intro i hi hpi
    obtain ⟨p, hp⟩ := (hinv.isPresent_iff hi).mp hpi
    rw [haddr hi hp]
    refine ⟨(hinv.taken i p hp).2, ?_⟩
    rcases hinv.alloc with he | ⟨pmm, a, he, _, hfresh, _⟩
    · have hlow := (hinv.table_bounds hp).1
      simp only [he, lowPages, pageSize] at hlow ⊢
      omega
    · rw [he]
      rintro rfl
      exact hfresh (hinv.taken i p hp).1

def freshState : State where
  mem := fun _ => 0
  pmm := Pmm.pmmInitFromBootinfo (fun _ => 0) none Pmm.zeroState

theorem freshState_room (v : BitVec 32) : Room freshState v := by
  intro _
  rcases (Pmm.pmmInitFromBootinfo_inv (fun _ => 0) none Pmm.zeroState).alloc with
    ⟨_, hall⟩ | ⟨p, _, _, _, hne, _, he, _⟩
  · have hres := hall 512 (by decide)
    simp only [Pmm.Reserved, reduceCtorEq, false_and, exists_false, List.not_mem_nil, or_false]
      at hres
    exact absurd hres (by decide)
  · unfold freshState
    rw [he]
    exact hne

theorem freshState_refines :
    Refines (vmmMapPage freshState 0x400000 0x300000 0x3) []
      (update (fun _ => none) (virtualPage 0x400000) (some 0x300000)) := by
  have hpmm : Pmm.Reachable (fun _ => 0) none freshState.pmm [] := by
    dsimp only [freshState]
    exact ⟨Pmm.zeroState, .refl⟩
  have hempty : ∀ i < pagesPerTable, freshState.dirEntry i = 0 := by
    simp [freshState, State.dirEntry]
  have hstep : Step (freshState, [], fun _ => none)
      (vmmMapPage freshState 0x400000 0x300000 0x3, [],
        update (fun _ => none) (virtualPage 0x400000) (some 0x300000)) :=
    .map (by unfold FrameAligned; decide) (by decide) (freshState_room 0x400000)
  exact reachable_refines ⟨_, _, freshState, [], hpmm, hempty, .single hstep⟩

end TocinOS.Vmm

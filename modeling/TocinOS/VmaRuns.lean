import TocinOS.Mmap

/-! The list of areas over `mmap`, `munmap`, `brk` and page faults. -/

namespace TocinOS.Vma

open Function
open IntrusiveList (Bank)
open Demand (mmapAddress mmapArea pageOf placeArea roundUp sysBrk)

structure Proper (a : Area) : Prop where
  startAligned : a.vmStart.toNat % 4096 = 0
  endAligned : a.vmEnd.toNat % 4096 = 0
  start_lt : a.vmStart < a.vmEnd
  end_le : a.vmEnd ≤ kernelBase

/-- The areas of `L` in the order of their addresses, none reaching into the next. -/
structure Ordered (pool : Nat → Area) (L : List Nat) : Prop where
  order : L.Pairwise fun i j => (pool i).vmEnd ≤ (pool j).vmStart
  proper : ∀ i ∈ L, Proper (pool i)

structure Listed (s : State) (L : List Nat) : Prop where
  rep : s.links.Rep fun _ => L
  below : ∀ i ∈ L, i < vmaPoolSize
  free : ∀ i ∈ s.freeList, i < vmaPoolSize ∧ i ∉ L
  nodup : s.freeList.Nodup
  unset : s.initialized = false → L = []

variable {s : State} {L : List Nat} {i : Nat} {pool : Nat → Area}

theorem Listed.areas_eq (h : Listed s L) : s.areas = L := by
  refine h.rep.nodes_head (k := ()) ?_
  have hsub : L ⊆ List.range vmaPoolSize := fun i hi => List.mem_range.mpr (h.below i hi)
  have hlen := ((h.rep.nodup ()).subperm hsub).length_le
  rwa [List.length_range] at hlen

theorem and_mask_eq_zero_iff (x : BitVec 32) : x &&& 0xFFF#32 = 0 ↔ x.toNat % 4096 = 0 := by
  have hmod : (x &&& 0xFFF#32).toNat = x.toNat % 4096 := by
    rw [BitVec.toNat_and]
    exact Nat.and_two_pow_sub_one_eq_mod x.toNat 12
  rw [← hmod]
  exact BitVec.toNat_inj.symm

theorem roundDown_aligned (x : BitVec 32) : (x &&& ~~~ 0xFFF#32).toNat % 4096 = 0 := by
  rw [Vmm.toNat_and_mask]
  exact Nat.mul_mod_left _ 4096

/-! ### Ordered lists -/

theorem Ordered.congr_bounds {pool' : Nat → Area} (h : Ordered pool L)
    (hb : ∀ i ∈ L, (pool' i).vmStart = (pool i).vmStart ∧ (pool' i).vmEnd = (pool i).vmEnd) :
    Ordered pool' L := by
  refine ⟨h.order.imp_of_mem fun {i j} hi hj hij => ?_, fun i hi => ?_⟩
  · rw [(hb i hi).2, (hb j hj).1]
    exact hij
  · obtain ⟨h1, h2, h3, h4⟩ := h.proper i hi
    obtain ⟨hs, he⟩ := hb i hi
    exact ⟨hs ▸ h1, he ▸ h2, by rw [hs, he]; exact h3, he ▸ h4⟩

theorem Ordered.congr {pool' : Nat → Area} (h : Ordered pool L)
    (hb : ∀ i ∈ L, pool' i = pool i) : Ordered pool' L :=
  h.congr_bounds fun i hi => by simp [hb i hi]

theorem Ordered.sublist {L' : List Nat} (h : Ordered pool L) (hs : L'.Sublist L) : Ordered pool L' :=
  ⟨h.order.sublist hs, fun i hi => h.proper i (hs.subset hi)⟩

theorem Ordered.insert {l r : List Nat} (h : Ordered pool (l ++ r)) (hi : Proper (pool i))
    (hl : ∀ x ∈ l, (pool x).vmStart < (pool i).vmStart)
    (hprev : ∀ p ∈ l.getLast?, (pool p).vmEnd ≤ (pool i).vmStart)
    (hnext : ∀ q ∈ r.head?, (pool i).vmEnd ≤ (pool q).vmStart) : Ordered pool (l ++ i :: r) := by
  obtain ⟨hol, hor, hlr⟩ := List.pairwise_append.mp h.order
  have hbefore : ∀ x ∈ l, (pool x).vmEnd ≤ (pool i).vmStart := by
    intro x hx
    cases l using List.reverseRecOn with
    | nil => exact absurd hx List.not_mem_nil
    | append_singleton l z =>
      rcases List.mem_append.mp hx with hx | hx
      · have hxz := (List.pairwise_append.mp hol).2.2 x hx z (by simp)
        have hz := hl z (by simp)
        simp only [BitVec.le_def, BitVec.lt_def] at *
        omega
      · exact hprev x (by simpa using (List.mem_singleton.mp hx).symm)
  have hafter : ∀ y ∈ r, (pool i).vmEnd ≤ (pool y).vmStart := by
    intro y hy
    cases r with
    | nil => exact absurd hy List.not_mem_nil
    | cons z r =>
      have hz := hnext z rfl
      rcases List.mem_cons.mp hy with rfl | hy
      · exact hz
      · have hzy := (List.pairwise_cons.mp hor).1 y hy
        have hproper := (h.proper z (by simp)).start_lt
        simp only [BitVec.le_def, BitVec.lt_def] at *
        omega
  refine ⟨List.pairwise_append.mpr ⟨hol, List.pairwise_cons.mpr ⟨hafter, hor⟩, ?_⟩, ?_⟩
  · intro x hx y hy
    rcases List.mem_cons.mp hy with rfl | hy
    · exact hbefore x hx
    · exact hlr x hx y hy
  · intro x hx
    rcases List.mem_append.mp hx with hx | hx
    · exact h.proper x (List.mem_append_left r hx)
    · rcases List.mem_cons.mp hx with rfl | hx
      · exact hi
      · exact h.proper x (List.mem_append_right l hx)

/-! ### The pool -/

theorem Listed.init (h : Listed s L) : Listed (vmaAllocatorInit s) L := by
  rw [vmaAllocatorInit]
  split
  · exact h
  · next hset =>
    have hnil := h.unset (by simpa using hset)
    generalize hfree : List.range vmaPoolSize = free
    have hnodup : free.Nodup := hfree ▸ List.nodup_range
    have hmem : ∀ i ∈ free, i < vmaPoolSize := fun i hi => List.mem_range.mp (by rw [hfree]; exact hi)
    subst hnil
    exact ⟨h.rep, h.below, fun i hi => ⟨hmem i hi, List.not_mem_nil⟩, hnodup, fun _ => rfl⟩

theorem vmaAllocatorInit_initialized (s : State) : (vmaAllocatorInit s).initialized = true := by
  rw [vmaAllocatorInit]
  split
  · assumption
  · rfl

theorem vmaAllocatorInit_pool (s : State) : (vmaAllocatorInit s).pool = s.pool := by
  rw [vmaAllocatorInit]
  split <;> rfl

structure Fresh (s : State) (L : List Nat) (i : Nat) : Prop extends Listed s L where
  notListed : i ∉ L
  notFree : i ∉ s.freeList
  lt : i < vmaPoolSize
  set : s.initialized = true

theorem Fresh.modify (h : Fresh s L i) (f : Area → Area) :
    Fresh (s.modify i f) L i ∧ ∀ j ∈ L, (s.modify i f).pool j = s.pool j := by
  refine ⟨{ h with }, fun j hj => update_of_ne ?_ _ _⟩
  rintro rfl
  exact h.notListed hj

theorem Listed.alloc (h : Listed s L) :
    let r := vmaAlloc s
    Listed r.1 L ∧ (∀ j ∈ L, r.1.pool j = s.pool j) ∧ ∀ i ∈ r.2, Fresh r.1 L i := by
  have hinit := h.init
  have hpool := vmaAllocatorInit_pool s
  have hset := vmaAllocatorInit_initialized s
  simp only [vmaAlloc]
  generalize vmaAllocatorInit s = t at *
  split
  · exact ⟨hinit, fun j _ => congrFun hpool j, by simp⟩
  · next i rest hfree =>
    obtain ⟨hlt, hi⟩ := hinit.free i (hfree ▸ List.mem_cons_self ..)
    have hnodup := List.nodup_cons.mp (hfree ▸ hinit.nodup)
    have hlisted : Listed { t with
        freeList := rest
        pool := update t.pool i {}
        links := (t.links.setNext i none).setPrev i none } L :=
      ⟨hinit.rep.clear (fun _ => hi) none none, hinit.below,
        fun j hj => hinit.free j (hfree ▸ List.mem_cons_of_mem i hj), hnodup.2, hinit.unset⟩
    refine ⟨hlisted, fun j hj => ?_, ?_⟩
    · rw [← hpool]
      refine update_of_ne ?_ _ _
      rintro rfl
      exact hi hj
    · rintro j ⟨⟩
      exact ⟨hlisted, hi, hnodup.1, hlt, hset⟩

theorem Listed.create (h : Listed s L) (start stop flags : BitVec 32) :
    let r := vmaCreate s start stop flags
    Listed r.1 L ∧ (∀ j ∈ L, r.1.pool j = s.pool j) ∧ ∀ i ∈ r.2, Fresh r.1 L i ∧
      (r.1.pool i).vmStart = start ∧ (r.1.pool i).vmEnd = stop ∧
      start.toNat % 4096 = 0 ∧ stop.toNat % 4096 = 0 ∧ start < stop := by
  simp only [vmaCreate]
  split
  · exact ⟨h, fun _ _ => rfl, by simp⟩
  · next hvalid =>
    simp only [not_or, not_not, BitVec.not_le] at hvalid
    obtain ⟨hlt, hstart, hstop⟩ := hvalid
    have halloc := h.alloc
    split
    · next s' he =>
      rw [he] at halloc
      exact ⟨halloc.1, halloc.2.1, by simp⟩
    · next s' i he =>
      rw [he] at halloc
      obtain ⟨hlisted, hpool, hfresh⟩ := halloc
      obtain ⟨hi, hkeep⟩ := (hfresh i rfl).modify fun a =>
        { a with vmStart := start, vmEnd := stop, vmFlags := flags }
      refine ⟨hi.toListed, fun j hj => (hkeep j hj).trans (hpool j hj), ?_⟩
      rintro j ⟨⟩
      refine ⟨hi, ?_, ?_, (and_mask_eq_zero_iff _).mp hstart, (and_mask_eq_zero_iff _).mp hstop, hlt⟩
      · simp only [State.modify, update_self]
      · simp only [State.modify, update_self]

theorem Listed.made (h : Listed s L) {start stop flags : BitVec 32} {s' : State}
    (he : vmaCreate s start stop flags = (s', some i)) (fd offset : BitVec 32) :
    let t := s'.modify i fun a => { a with vmFd := fd, vmFileOffset := offset }
    Fresh t L i ∧ (∀ j ∈ L, t.pool j = s.pool j) ∧
      (t.pool i).vmStart = start ∧ (t.pool i).vmEnd = stop ∧
      start.toNat % 4096 = 0 ∧ stop.toNat % 4096 = 0 ∧ start < stop := by
  have hcreate := h.create start stop flags
  rw [he] at hcreate
  obtain ⟨-, hpool, hnew⟩ := hcreate
  obtain ⟨hfresh, hstart, hstop, hvalid⟩ := hnew i rfl
  obtain ⟨ht, hkeep⟩ := hfresh.modify fun a => { a with vmFd := fd, vmFileOffset := offset }
  refine ⟨ht, fun j hj => (hkeep j hj).trans (hpool j hj), ?_, ?_, hvalid⟩
  · simpa [State.modify] using hstart
  · simpa [State.modify] using hstop

theorem insertionPoint_spec (pool : Nat → Area) (start : BitVec 32) (prev : Option Nat)
    (L : List Nat) :
    ∃ l r, L = l ++ r ∧ insertionPoint pool start prev L = (l.getLast?.or prev, r.head?) ∧
      (∀ x ∈ l, (pool x).vmStart < start) ∧ ∀ q ∈ r.head?, ¬ (pool q).vmStart < start := by
  induction L generalizing prev with
  | nil => exact ⟨[], [], rfl, rfl, by simp, by simp⟩
  | cons x L ih =>
    rw [insertionPoint]
    split
    · next hx =>
      obtain ⟨l, r, hL, he, hl, hr⟩ := ih (some x)
      refine ⟨x :: l, r, by rw [hL, List.cons_append], ?_, ?_, hr⟩
      · rw [he]
        cases l using List.reverseRecOn with
        | nil => rfl
        | append_singleton l z =>
          simp only [← List.cons_append, List.getLast?_append, List.getLast?_singleton, Option.some_or]
      · intro y hy
        rcases List.mem_cons.mp hy with rfl | hy
        · exact hx
        · exact hl y hy
    · next hx => exact ⟨[], x :: L, rfl, rfl, by simp, by simpa using hx⟩

theorem Listed.vmaInsert_eq (h : Listed s L) (i : Nat) :
    ∃ l r, L = l ++ r ∧ (∀ x ∈ l, (s.pool x).vmStart < (s.pool i).vmStart) ∧
      (∀ q ∈ r.head?, ¬ (s.pool q).vmStart < (s.pool i).vmStart) ∧
      vmaInsert s i =
        if l.getLast?.any fun p => decide ((s.pool i).vmStart < (s.pool p).vmEnd) then (s, -1)
        else if r.head?.any fun c => decide ((s.pool c).vmStart < (s.pool i).vmEnd) then (s, -1)
        else ({ s with links := s.links.insertBetween () l.getLast? i r.head? }, 0) := by
  rw [vmaInsert]
  dsimp only
  split
  · next hhead =>
    have hnil : L = [] := List.head?_eq_none_iff.mp ((h.rep.head ()).symm.trans hhead)
    exact ⟨[], [], hnil, by simp, by simp, rfl⟩
  · rw [h.areas_eq]
    obtain ⟨l, r, hL, he, hl, hr⟩ := insertionPoint_spec s.pool (s.pool i).vmStart none L
    rw [Option.or_none] at he
    exact ⟨l, r, hL, hl, hr, by rw [he]⟩

theorem Fresh.insertBetween (h : Fresh s L i) {l r : List Nat} (hL : L = l ++ r) :
    Listed { s with links := s.links.insertBetween () l.getLast? i r.head? } (l ++ i :: r) := by
  have hrep := h.rep.insertBetween (k := ()) hL fun _ => h.notListed
  have hsame : update (fun _ : Unit => L) () (l ++ i :: r) = fun _ => l ++ i :: r := by
    funext u
    simp
  rw [hsame] at hrep
  have hmem : ∀ x, x ∈ l ++ i :: r ↔ x = i ∨ x ∈ L := by
    intro x
    rw [hL]
    simp only [List.mem_append, List.mem_cons]
    tauto
  refine ⟨hrep, fun x hx => ?_, fun x hx => ⟨(h.free x hx).1, fun hxl => ?_⟩, h.nodup, ?_⟩
  · rcases (hmem x).mp hx with rfl | hx
    · exact h.lt
    · exact h.below x hx
  · rcases (hmem x).mp hxl with rfl | hxl
    · exact h.notFree hx
    · exact (h.free x hx).2 hxl
  · exact fun hu => absurd (h.set.symm.trans hu) (by decide)

theorem Fresh.insert (h : Fresh s L i) (ho : Ordered s.pool L) (hi : Proper (s.pool i)) :
    vmaInsert s i = (s, -1) ∨ (vmaInsert s i).2 = 0 ∧ (vmaInsert s i).1.pool = s.pool ∧
      ∃ L', Listed (vmaInsert s i).1 L' ∧ Ordered s.pool L' := by
  obtain ⟨l, r, hL, hl, hr, he⟩ := h.vmaInsert_eq i
  rw [he]
  split
  · exact .inl rfl
  · next hprev =>
    split
    · exact .inl rfl
    · next hnext =>
      refine .inr ⟨rfl, rfl, l ++ i :: r, h.insertBetween hL,
        Ordered.insert (hL ▸ ho) hi hl (fun p hp => ?_) fun q hq => ?_⟩
      · rw [Option.mem_def.mp hp] at hprev
        simpa using hprev
      · rw [Option.mem_def.mp hq] at hnext
        simpa using hnext

theorem Fresh.insert_of_apart (h : Fresh s L i) (ho : Ordered s.pool L)
    (hlt : (s.pool i).vmStart < (s.pool i).vmEnd)
    (hfree : ∀ j ∈ L, (s.pool i).vmEnd ≤ (s.pool j).vmStart ∨
      (s.pool j).vmEnd ≤ (s.pool i).vmStart) : (vmaInsert s i).2 = 0 := by
  obtain ⟨l, r, hL, hl, hr, he⟩ := h.vmaInsert_eq i
  have hprev : ¬ (l.getLast?.any fun p => decide ((s.pool i).vmStart < (s.pool p).vmEnd)) := by
    cases hlast : l.getLast? with
    | none => simp
    | some p =>
      have hp : p ∈ l := List.mem_of_mem_getLast? hlast
      have hbefore := hl p hp
      have hap := hfree p (hL ▸ List.mem_append_left r hp)
      simp only [Option.any_some, decide_eq_true_eq, BitVec.le_def, BitVec.lt_def] at *
      omega
  have hnext : ¬ (r.head?.any fun c => decide ((s.pool c).vmStart < (s.pool i).vmEnd)) := by
    cases hhead : r.head? with
    | none => simp
    | some q =>
      have hq : q ∈ r := List.mem_of_mem_head? hhead
      have hafter := hr q hhead
      have hap := hfree q (hL ▸ List.mem_append_right l hq)
      have hproper := (ho.proper q (hL ▸ List.mem_append_right l hq)).start_lt
      simp only [Option.any_some, decide_eq_true_eq, BitVec.le_def, BitVec.lt_def] at *
      omega
  rw [he, if_neg hprev, if_neg hnext]

theorem Listed.remove (h : Listed s L) (hi : i ∈ L) :
    Fresh (vmaRemove s i) (L.erase i) i := by
  have hrep := h.rep.remove (k := ()) hi
  have hsame : update (fun _ : Unit => L) () (L.erase i) = fun _ => L.erase i := by
    funext u
    simp
  rw [hsame] at hrep
  have hset : s.initialized = true := by
    by_contra hu
    rw [h.unset (by simpa using hu)] at hi
    exact absurd hi List.not_mem_nil
  refine ⟨⟨hrep, fun j hj => h.below j (List.mem_of_mem_erase hj),
    fun j hj => ⟨(h.free j hj).1, fun hjl => (h.free j hj).2 (List.mem_of_mem_erase hjl)⟩, h.nodup,
    fun hu => absurd (hset.symm.trans hu) (by decide)⟩, ?_, fun hf => (h.free i hf).2 hi,
    h.below i hi, hset⟩
  exact (h.rep.nodup ()).not_mem_erase

theorem Fresh.destroy (h : Fresh s L i) : Listed (vmaDestroy s i) L := by
  rw [vmaDestroy]
  split
  · refine ⟨h.rep, h.below, fun j hj => ?_, List.nodup_cons.mpr ⟨h.notFree, h.nodup⟩, h.unset⟩
    rcases List.mem_cons.mp hj with rfl | hj
    · exact ⟨h.lt, h.notListed⟩
    · exact h.free j hj
  · exact { h with }

/-! ### The calls -/

def Good (s : State) : Prop := ∃ L, Listed s L ∧ Ordered s.pool L

theorem findFrom_add_le {size : BitVec 32} (h : Ordered pool L) (addr : BitVec 32)
    (hne : findFrom pool size L addr ≠ 0) : findFrom pool size L addr + size ≤ kernelBase := by
  induction L generalizing addr with
  | nil =>
    rw [findFrom] at hne ⊢
    split at hne
    · next hle => rwa [if_pos hle]
    · exact absurd rfl hne
  | cons i L ih =>
    rw [findFrom] at hne ⊢
    have hi := h.proper i (List.mem_cons_self ..)
    split at hne
    · next hle =>
      rw [if_pos hle]
      have hlt := hi.start_lt
      have hend := hi.end_le
      simp only [BitVec.le_def, BitVec.lt_def] at *
      omega
    · next hle =>
      rw [if_neg hle]
      exact ih (h.sublist (List.sublist_cons_self i L)) _ hne

/-- A fixed mapping ends below the kernel, or it wraps and is rejected. -/
def FixedFits (addr length flags : BitVec 32) : Prop :=
  flags &&& Demand.mapFixed ≠ 0 →
    let stop := pageOf addr + roundUp length
    stop ≤ pageOf addr ∨ stop ≤ kernelBase

variable {addr length : BitVec 32}

theorem mmapAddress_add_le {flags : BitVec 32} (h : Listed s L) (ho : Ordered s.pool L)
    (hfits : FixedFits addr length flags)
    (hne : mmapAddress s addr (roundUp length) flags ≠ 0)
    (hlt : mmapAddress s addr (roundUp length) flags <
      mmapAddress s addr (roundUp length) flags + roundUp length) :
    mmapAddress s addr (roundUp length) flags + roundUp length ≤
      kernelBase := by
  rw [mmapAddress] at hne hlt ⊢
  split at hne
  · next hfixed =>
    rw [if_pos hfixed] at hlt ⊢
    dsimp only at hne hlt ⊢
    split at hne
    · exact absurd rfl hne
    · next hrange =>
      rw [if_neg hrange] at hlt ⊢
      rcases hfits hfixed with hwrap | hle
      · exact absurd hlt (BitVec.not_lt.mpr hwrap)
      · exact hle
  · next hfixed =>
    rw [if_neg hfixed, findFreeRegion, h.areas_eq] at *
    exact findFrom_add_le ho _ hne

theorem Good.placeArea (h : Good s) {start : BitVec 32}
    (hle : start < start + length → start + length ≤ kernelBase) (vmFlags fd offset : BitVec 32) :
    Good (placeArea s start length vmFlags fd offset).1 := by
  obtain ⟨L, hL, ho⟩ := h
  rw [Demand.placeArea]
  split
  · next s' he =>
    have hcreate := hL.create start (start + length) vmFlags
    rw [he] at hcreate
    exact ⟨L, hcreate.1, ho.congr hcreate.2.1⟩
  · next s' i he =>
    -- the descriptor and the offset are set before the area is linked in
    dsimp only
    obtain ⟨hfresh, hpool, hstart, hstop, hsa, hea, hlt⟩ := hL.made he fd offset
    generalize s'.modify i (fun a => { a with vmFd := fd, vmFileOffset := offset }) = t at *
    have hto : Ordered t.pool L := ho.congr hpool
    have hproper : Proper (t.pool i) :=
      ⟨hstart ▸ hsa, hstop ▸ hea, by rw [hstart, hstop]; exact hlt, hstop ▸ hle hlt⟩
    rcases hfresh.insert hto hproper with hfail | ⟨hzero, hkeep, L', hins, hord⟩
    · rw [hfail, if_pos (show (-1 : Int) < 0 by decide)]
      exact ⟨L, hfresh.destroy, hto.congr_bounds fun j _ => vmaDestroy_bounds t i j⟩
    · rw [hzero, if_neg (by decide)]
      exact ⟨L', hins, by rw [hkeep]; exact hord⟩

theorem Good.mmapArea (h : Good s) {flags : BitVec 32} (hfits : FixedFits addr length flags)
    (prot fd offset : BitVec 32) : Good (mmapArea s addr length prot flags fd offset).1 := by
  rw [Demand.mmapArea]
  dsimp only
  split
  · exact h
  split
  · exact h
  next hne =>
  split
  · exact h
  · obtain ⟨L, hL, ho⟩ := h
    exact Good.placeArea ⟨L, hL, ho⟩ (mmapAddress_add_le hL ho hfits hne) _ fd offset

/-- The break can be moved: it stays below the kernel, and the area that holds the start of
the heap does not run into another one. -/
def BrkFits (s : State) (addr : BitVec 32) : Prop :=
  let newBrk := roundUp addr
  addr ≠ 0 → s.heapStart ≤ newBrk → newBrk ≤ s.stackStart - 0x100000 → s.heapEnd < newBrk →
    newBrk ≤ kernelBase ∧ ∀ i, vmaFind s s.heapStart = some i →
      (s.pool i).vmStart < newBrk ∧ ∀ j ∈ s.areas, j ≠ i →
        newBrk ≤ (s.pool j).vmStart ∨ (s.pool j).vmEnd ≤ (s.pool i).vmStart

theorem Ordered.setArea {a : Area} (h : Ordered pool L) (hn : L.Nodup) (hi : i ∈ L) (ha : Proper a)
    (hother : ∀ j ∈ L, j ≠ i → (pool i).vmEnd ≤ (pool j).vmStart ∧ a.vmEnd ≤ (pool j).vmStart ∨
      (pool j).vmEnd ≤ (pool i).vmStart ∧ (pool j).vmEnd ≤ a.vmStart) :
    Ordered (update pool i a) L := by
  refine ⟨?_, fun j hj => ?_⟩
  · refine ((List.Pairwise.and_mem.mp h.order).and hn).imp ?_
    rintro x y ⟨⟨hx, hy, hxy⟩, hne⟩
    by_cases hxi : x = i
    · subst hxi
      rw [update_self, update_of_ne (Ne.symm hne)]
      rcases hother y hy (Ne.symm hne) with ⟨-, hle⟩ | ⟨hle, -⟩
      · exact hle
      · have hpx := (h.proper x hx).start_lt
        have hpy := (h.proper y hy).start_lt
        simp only [BitVec.le_def, BitVec.lt_def] at *
        omega
    · rw [update_of_ne hxi]
      by_cases hyi : y = i
      · subst hyi
        rw [update_self]
        rcases hother x hx hxi with ⟨hle, -⟩ | ⟨-, hle⟩
        · have hpx := (h.proper x hx).start_lt
          have hpy := (h.proper y hy).start_lt
          simp only [BitVec.le_def, BitVec.lt_def] at *
          omega
        · exact hle
      · rw [update_of_ne hyi]
        exact hxy
  · by_cases hji : j = i
    · rw [hji, update_self]
      exact ha
    · rw [update_of_ne hji]
      exact h.proper j hj

theorem Ordered.apart (h : Ordered pool L) {j : Nat} (hi : i ∈ L) (hj : j ∈ L) (hne : j ≠ i) :
    (pool i).vmEnd ≤ (pool j).vmStart ∨ (pool j).vmEnd ≤ (pool i).vmStart := by
  have hpair : L.Pairwise fun i j =>
      (pool i).vmEnd ≤ (pool j).vmStart ∨ (pool j).vmEnd ≤ (pool i).vmStart := h.order.imp .inl
  have : Std.Symm fun i j =>
      (pool i).vmEnd ≤ (pool j).vmStart ∨ (pool j).vmEnd ≤ (pool i).vmStart := ⟨fun _ _ => Or.symm⟩
  exact hpair.forall hi hj (Ne.symm hne)

theorem mem_of_vmaFind (h : Listed s L) (hf : vmaFind s addr = some i) :
    i ∈ L ∧ (s.pool i).vmStart ≤ addr ∧ addr < (s.pool i).vmEnd := by
  rw [vmaFind, h.areas_eq] at hf
  have hp := List.find?_some hf
  simp only [Bool.and_eq_true, decide_eq_true_eq] at hp
  exact ⟨List.mem_of_find?_eq_some hf, hp⟩

theorem Good.sysBrk (h : Good s) (hfits : BrkFits s addr) : Good (sysBrk s addr).1 := by
  obtain ⟨L, hL, ho⟩ := h
  rw [Demand.sysBrk]
  dsimp only
  split
  · exact ⟨L, hL, ho⟩
  next haddr =>
  split
  · exact ⟨L, hL, ho⟩
  next hheap =>
  split
  · exact ⟨L, hL, ho⟩
  next hstack =>
  split
  · next hgrow =>
    obtain ⟨hle, hfound⟩ := hfits haddr (BitVec.not_lt.mp hheap) (BitVec.not_lt.mp hstack) hgrow
    have haligned : (roundUp addr).toNat % 4096 = 0 := roundDown_aligned _
    split
    · next i hfind =>
      obtain ⟨hi, -, -⟩ := mem_of_vmaFind hL hfind
      obtain ⟨hlt, hfree⟩ := hfound i hfind
      rw [hL.areas_eq] at hfree
      have hproper := ho.proper i hi
      refine ⟨L, { hL with },
        ho.setArea (hL.rep.nodup ()) hi ⟨hproper.startAligned, haligned, hlt, hle⟩ fun j hj hne => ?_⟩
      rcases ho.apart hi hj hne with hafter | hbefore
      · refine .inl ⟨hafter, (hfree j hj hne).resolve_right fun hend => ?_⟩
        have hpi := hproper.start_lt
        have hpj := (ho.proper j hj).start_lt
        simp only [BitVec.le_def, BitVec.lt_def] at *
        omega
      · exact .inr ⟨hbefore, hbefore⟩
    · have hcreate := hL.create s.heapEnd (roundUp addr) (vmRead ||| vmWrite ||| vmAnonymous ||| vmLazy)
      split
      · next s' he =>
        rw [he] at hcreate
        exact ⟨L, hcreate.1, ho.congr hcreate.2.1⟩
      · next s' i he =>
        rw [he] at hcreate
        obtain ⟨hL', hpool, hnew⟩ := hcreate
        obtain ⟨hfresh, hstart, hstop, hsa, hea, hlt⟩ := hnew i rfl
        dsimp only at hL' hpool hfresh hstart hstop
        have ho' : Ordered s'.pool L := ho.congr hpool
        have hproper : Proper (s'.pool i) :=
          ⟨hstart ▸ hsa, hstop ▸ hea, by rw [hstart, hstop]; exact hlt, hstop ▸ hle⟩
        rcases hfresh.insert ho' hproper with hfail | ⟨-, hkeep, L', hins, hord⟩
        · rw [hfail]
          exact ⟨L, { hL' with }, ho'⟩
        · exact ⟨L', { hins with }, by rw [← hkeep] at hord; exact hord⟩
  · exact ⟨L, { hL with }, ho⟩

theorem Ordered.grow (h : Ordered pool L) (hn : L.Nodup) (hi : i ∈ L)
    (hlow : addr < (pool i).vmStart) (hhigh : (pool i).vmStart - 4096 ≤ addr)
    (hnone : ∀ j ∈ L, (pool j).vmStart ≤ addr → ¬ addr < (pool j).vmEnd) :
    Ordered (update pool i { pool i with vmStart := (pool i).vmStart - 4096 }) L := by
  have hp := h.proper i hi
  have hsub : ((pool i).vmStart - 4096).toNat = (pool i).vmStart.toNat - 4096 := by
    have hpos : addr.toNat < (pool i).vmStart.toNat := hlow
    have haligned := hp.startAligned
    rw [BitVec.toNat_sub_of_le]
    · rfl
    · rw [BitVec.le_def]
      show 4096 ≤ _
      omega
  have hlow' : addr.toNat < (pool i).vmStart.toNat := hlow
  have hhigh' : (pool i).vmStart.toNat - 4096 ≤ addr.toNat := by
    rw [← hsub]
    exact hhigh
  have halign := hp.startAligned
  refine h.setArea hn hi ⟨?_, hp.endAligned, ?_, hp.end_le⟩ fun j hj hne => ?_
  · show ((pool i).vmStart - 4096).toNat % 4096 = 0
    omega
  · have hlt := hp.start_lt
    rw [BitVec.lt_def] at hlt ⊢
    show ((pool i).vmStart - 4096).toNat < (pool i).vmEnd.toNat
    omega
  · rcases h.apart hi hj hne with hafter | hbefore
    · exact .inl ⟨hafter, hafter⟩
    · refine .inr ⟨hbefore, ?_⟩
      -- otherwise the page below would be the last one of area `j`
      have hj' := h.proper j hj
      have hnot := hnone j hj
      have hlt := hj'.start_lt
      have hja := hj'.endAligned
      have hjs := hj'.startAligned
      rw [BitVec.le_def] at hbefore ⊢
      show _ ≤ ((pool i).vmStart - 4096).toNat
      simp only [BitVec.le_def, BitVec.lt_def] at hnot hlt
      omega

theorem nearer_cases (pool : Nat → Area) (addr : BitVec 32) (nearest : Option Nat) (i : Nat) :
    nearer pool addr nearest i = some i ∨ nearer pool addr nearest i = nearest := by
  unfold nearer
  split
  · split
    · exact .inl rfl
    · split
      · exact .inl rfl
      · exact .inr rfl
  · exact .inr rfl

theorem mem_of_foldl_nearer {l : List Nat} {nearest : Option Nat} (hn : ∀ n ∈ nearest, n ∈ L)
    (hl : l ⊆ L) : ∀ n ∈ l.foldl (nearer pool addr) nearest, n ∈ L := by
  induction l generalizing nearest with
  | nil => exact hn
  | cons x l ih =>
    refine ih (fun n h => ?_) fun y hy => hl (List.mem_cons_of_mem x hy)
    rcases nearer_cases pool addr nearest x with he | he
    · rw [he] at h
      obtain rfl := Option.mem_some_iff.mp h
      exact hl (List.mem_cons_self ..)
    · exact hn n (he ▸ h)

theorem mem_of_vmaFindNearest (h : Listed s L) (hf : vmaFindNearest s addr = some i) : i ∈ L := by
  rw [vmaFindNearest, h.areas_eq] at hf
  exact mem_of_foldl_nearer (by simp) (List.Subset.refl L) i hf

end TocinOS.Vma

namespace TocinOS.Demand

open Vma (Area Good Listed Ordered Proper FixedFits BrkFits kernelBase)

/-! ### Page faults -/

variable {s : State}

theorem demandPageFile_vma (s : State) (a : Area) (addr : BitVec 32) :
    (demandPageFile s a addr).1.vma = s.vma := by
  rw [demandPageFile]
  split
  · rfl
  · rw [readFilePage]
    dsimp only
    split <;> rfl

theorem demandPage_vma (s : State) (a : Area) (addr err : BitVec 32) :
    (demandPage s a addr err).1.vma = s.vma := by
  rw [demandPage]
  split
  · rfl
  split
  · rfl
  dsimp only
  split
  · rfl
  split
  · exact demandPageFile_vma s a addr
  · rfl

theorem handleCowFault_vma (s : State) (addr pte : BitVec 32) :
    (handleCowFault s addr pte).1.vma = s.vma := by
  rw [handleCowFault]
  dsimp only
  split <;> rfl

theorem handleSwapIn_vma (s : State) (addr pte : BitVec 32) :
    (handleSwapIn s addr pte).1.vma = s.vma := by
  have hframe : (allocOrEvict s).1.vma = s.vma := by
    rw [allocOrEvict]
    dsimp only
    split <;> rfl
  rw [← hframe, handleSwapIn]
  dsimp only
  split
  · rfl
  split <;> rfl

theorem good_handleStackGrowth (h : Good s.vma) {i : Nat} {addr : BitVec 32}
    (hnone : Vma.vmaFind s.vma addr = none) (hi : Vma.vmaFindNearest s.vma addr = some i) :
    Good (handleStackGrowth s i addr).1.vma := by
  obtain ⟨L, hL, ho⟩ := h
  rw [handleStackGrowth]
  dsimp only
  split
  · next hpage =>
    have hmiss : ∀ j ∈ L, (s.vma.pool j).vmStart ≤ addr → ¬ addr < (s.vma.pool j).vmEnd := by
      rw [Vma.vmaFind, hL.areas_eq] at hnone
      intro j hj hle hlt
      have := List.find?_eq_none.mp hnone j hj
      simp [hle, hlt] at this
    exact ⟨L, { hL with },
      ho.grow (hL.rep.nodup ()) (Vma.mem_of_vmaFindNearest hL hi) hpage.1 hpage.2 hmiss⟩
  · exact ⟨L, hL, ho⟩

theorem good_handlePageFault (h : Good s.vma) (addr err : BitVec 32) :
    Good (handlePageFault s addr err).1.vma := by
  rw [handlePageFault]
  dsimp only
  split
  · rw [handleSwapIn_vma]
    exact h
  split
  · rw [handleCowFault_vma]
    exact h
  split
  · exact h
  split
  · rw [demandPage_vma]
    exact h
  · next hnone =>
    split
    · exact h
    · next i hi =>
      split
      · exact good_handleStackGrowth h hnone hi
      · exact h

theorem good_faultIn (h : Good s.vma) (mapAddr length : BitVec 32) :
    Good (faultIn s mapAddr length).vma := by
  rw [faultIn]
  generalize List.range (length.toNat / 4096) = pages
  induction pages generalizing s with
  | nil => exact h
  | cons j pages ih => exact ih (good_handlePageFault h _ _)

theorem good_sysMmap (h : Good s.vma) {addr length flags : BitVec 32}
    (hfits : FixedFits addr length flags) (prot fd offset : BitVec 32) :
    Good (sysMmap s addr length prot flags fd offset).1.vma := by
  have harea := h.mmapArea hfits prot fd offset
  rw [sysMmap]
  split
  · exact h
  · dsimp only
    split
    · exact harea
    · exact good_faultIn harea _ _

theorem good_munmapAreas {start stop : BitVec 32} {L areas : List Nat} (hL : Listed s.vma L)
    (ho : Ordered s.vma.pool L) (hn : areas.Nodup) (hsub : areas ⊆ L) :
    Good (areas.foldl (munmapArea start stop) s).vma := by
  induction areas generalizing s L with
  | nil => exact ⟨L, hL, ho⟩
  | cons i areas ih =>
    obtain ⟨hi, hn⟩ := List.nodup_cons.mp hn
    have hrest : areas ⊆ L := fun j hj => hsub (List.mem_cons_of_mem i hj)
    rw [List.foldl_cons]
    generalize ht : munmapArea start stop s i = t
    simp only [munmapArea] at ht
    split at ht
    · subst ht
      exact ih hL ho hn hrest
    · split at ht
      · subst ht
        have hfresh := hL.remove (hsub (List.mem_cons_self ..))
        refine ih hfresh.destroy ?_ hn fun j hj => ?_
        · exact (ho.sublist (List.erase_sublist ..)).congr_bounds fun j _ => Vma.vmaDestroy_bounds _ i j
        · refine (List.mem_erase_of_ne ?_).mpr (hrest hj)
          rintro rfl
          exact hi hj
      · subst ht
        exact ih hL ho hn hrest

theorem good_sysMunmap (h : Good s.vma) (addr length : BitVec 32) :
    Good (sysMunmap s addr length).1.vma := by
  obtain ⟨L, hL, ho⟩ := h
  rw [sysMunmap]
  split
  · exact ⟨L, hL, ho⟩
  · dsimp only
    rw [hL.areas_eq]
    exact good_munmapAreas hL ho (hL.rep.nodup ()) (List.Subset.refl L)

end TocinOS.Demand

namespace TocinOS.Vma

open Demand (sysMmap sysMunmap sysBrk handlePageFault)

/-! ### Runs -/

inductive Call
  | mmap (addr length prot flags fd offset : BitVec 32)
  | munmap (addr length : BitVec 32)
  | brk (addr : BitVec 32)
  | fault (addr err : BitVec 32)

def Call.run (s : Demand.State) : Call → Demand.State
  | .mmap addr length prot flags fd offset => (sysMmap s addr length prot flags fd offset).1
  | .munmap addr length => (sysMunmap s addr length).1
  | .brk addr => { s with vma := (sysBrk s.vma addr).1 }
  | .fault addr err => (handlePageFault s addr err).1

def Call.Fits (s : Demand.State) : Call → Prop
  | .mmap addr length _ flags _ _ => FixedFits addr length flags
  | .brk addr => BrkFits s.vma addr
  | _ => True

def Step (ok : Demand.State → Call → Prop) (s s' : Demand.State) : Prop :=
  ∃ c, ok s c ∧ s' = c.run s

structure Start (s : Demand.State) : Prop where
  empty : s.vma.links.head () = none
  free : ∀ i ∈ s.vma.freeList, i < vmaPoolSize
  nodup : s.vma.freeList.Nodup

structure WellFormed (s : State) (L : List Nat) : Prop where
  links : s.links.Rep fun _ => L
  sorted : L.Pairwise fun i j => (s.pool i).vmStart < (s.pool j).vmStart
  disjoint : L.Pairwise fun i j =>
    (s.pool i).vmEnd ≤ (s.pool j).vmStart ∨ (s.pool j).vmEnd ≤ (s.pool i).vmStart
  aligned : ∀ i ∈ L, (s.pool i).vmStart.toNat % 4096 = 0 ∧ (s.pool i).vmEnd.toNat % 4096 = 0
  bounds : ∀ i ∈ L, (s.pool i).vmStart < (s.pool i).vmEnd ∧ (s.pool i).vmEnd ≤ kernelBase

theorem Start.good {s : Demand.State} (h : Start s) : Good s.vma := by
  refine ⟨[], ⟨⟨fun _ => h.empty, fun _ => trivial, fun _ => List.nodup_nil,
    fun _ _ _ => List.disjoint_nil_left _⟩, by simp, fun i hi => ⟨h.free i hi, List.not_mem_nil⟩,
    h.nodup, fun _ => rfl⟩, List.Pairwise.nil, by simp⟩

theorem Good.run {s : Demand.State} (h : Good s.vma) {c : Call} (hc : c.Fits s) :
    Good (c.run s).vma := by
  cases c with
  | mmap addr length prot flags fd offset => exact Demand.good_sysMmap h hc prot fd offset
  | munmap addr length => exact Demand.good_sysMunmap h addr length
  | brk addr => exact h.sysBrk hc
  | fault addr err => exact Demand.good_handlePageFault h addr err

theorem Good.wellFormed {s : State} (h : Good s) : ∃ L, WellFormed s L := by
  obtain ⟨L, hL, ho⟩ := h
  refine ⟨L, hL.rep, ?_, ho.order.imp .inl,
    fun i hi => ⟨(ho.proper i hi).startAligned, (ho.proper i hi).endAligned⟩,
    fun i hi => ⟨(ho.proper i hi).start_lt, (ho.proper i hi).end_le⟩⟩
  refine ho.order.imp_of_mem fun {i j} hi _ hij => ?_
  have hlt := (ho.proper i hi).start_lt
  simp only [BitVec.le_def, BitVec.lt_def] at *
  omega

/-- The areas stay well formed as long as every call fits. -/
theorem areas_wellFormed {s s' : Demand.State} (h : Start s)
    (hr : Relation.ReflTransGen (Step Call.Fits) s s') : ∃ L, WellFormed s'.vma L := by
  have hgood : Good s'.vma := by
    induction hr with
    | refl => exact h.good
    | tail _ hs ih =>
      obtain ⟨c, hc, rfl⟩ := hs
      exact ih.run hc
  exact hgood.wellFormed

def emptyMm : Demand.State where
  swap := ⟨false, [], fun _ => 0, ⟨fun _ => 0, ⟨fun _ => 0, 0, 0⟩⟩⟩
  cache := ⟨false, fun _ => {}, [], fun _ => [], []⟩
  vma := ⟨false, fun _ => {}, [], IntrusiveList.Bank.empty, 0, 0, 0, 0x40000000⟩
  hasMm := true

theorem emptyMm_start : Start emptyMm := ⟨rfl, by decide, by decide⟩

def twoAreas : Demand.State :=
  (Call.brk 0x5000).run ((Call.mmap 0 0x2000 3 0x22 (-1) 0).run emptyMm)

theorem twoAreas_wellFormed : twoAreas.vma.areas.length = 2 ∧ ∃ L, WellFormed twoAreas.vma L := by
  refine ⟨by decide +kernel, areas_wellFormed emptyMm_start
    ((Relation.ReflTransGen.single ⟨_, ?_, rfl⟩).tail ⟨_, ?_, rfl⟩)⟩
  · intro _ _ _ _
    refine ⟨by decide, fun i hi => ?_⟩
    have hnone : vmaFind ((Call.mmap 0 0x2000 3 0x22 (-1) 0).run emptyMm).vma
        ((Call.mmap 0 0x2000 3 0x22 (-1) 0).run emptyMm).vma.heapStart = none := by decide +kernel
    rw [hnone] at hi
    exact absurd hi (by simp)
  · exact fun hfixed => absurd hfixed (by decide)

def overKernel : Demand.State := (Call.mmap 0xBFFFF000 0x2000 3 0x32 (-1) 0).run emptyMm

theorem overKernel_not_wellFormed :
    ∃ s s', Start s ∧ Relation.ReflTransGen (Step fun _ _ => True) s s' ∧
      ¬ ∃ L, WellFormed s'.vma L := by
  refine ⟨emptyMm, overKernel, emptyMm_start, .single ⟨_, trivial, rfl⟩, ?_⟩
  rintro ⟨L, h⟩
  have hhead : overKernel.vma.links.head () = some 0 := by decide +kernel
  rw [h.links.head] at hhead
  have hend := (h.bounds 0 (List.mem_of_mem_head? hhead)).2
  exact absurd hend (by decide +kernel)

end TocinOS.Vma

import TocinOS.InPlace
import TocinOS.LittleEndian

/-! The memory map that the UEFI loader `boot/uefi/tocinboot.c` hands to the kernel. -/

namespace TocinOS.BootMap

open Function (update)
open InPlace

abbrev efiPageSize : Nat := 4096
abbrev descriptorSize : Nat := 40

inductive MemType where
  | invalid | usable | reserved | acpiReclaimable | acpiNvs | bad | bootloader | kernelModules
  | framebuffer
  deriving DecidableEq

structure Descriptor where
  type : Nat
  physicalStart : Nat
  numberOfPages : Nat
  deriving DecidableEq

structure Entry where
  base : Nat
  length : Nat
  type : MemType
  reserved : Nat
  deriving DecidableEq

/-- The map as `GetMemoryMap` returns it. A C object has fewer than `2 ^ 63` bytes, so the
offsets into it do not wrap. -/
structure RawMap where
  bytes : Nat → BitVec 8
  size : Nat
  stride : Nat
  stride_le : descriptorSize ≤ stride

def efiTypeToTocinboot : Nat → MemType
  | 7 | 3 | 4 => .usable
  | 1 | 2 => .bootloader
  | 9 => .acpiReclaimable
  | 10 => .acpiNvs
  | 8 => .bad
  | _ => .reserved

def RawMap.descriptor (raw : RawMap) (off : Nat) : Descriptor where
  type := LittleEndian.get raw.bytes off 4
  physicalStart := LittleEndian.get raw.bytes (off + 8) 8
  numberOfPages := LittleEndian.get raw.bytes (off + 24) 8

def RawMap.descriptors (raw : RawMap) : List Descriptor :=
  (List.range (raw.size / raw.stride)).map fun i => raw.descriptor (i * raw.stride)

def toEntry (d : Descriptor) : Entry where
  base := d.physicalStart
  length := d.numberOfPages * efiPageSize % 2 ^ 64
  type := efiTypeToTocinboot d.type
  reserved := 0

def store (cap : Nat) (s : Nat × (Nat → Entry)) (d : Descriptor) : Option (Nat × (Nat → Entry)) :=
  if d.numberOfPages = 0 then some s
  else if cap ≤ s.1 then none
  else some (s.1 + 1, update s.2 s.1 (toEntry d))

def merge (last e : Entry) : Option Entry :=
  if last.type = e.type ∧ (last.base + last.length) % 2 ^ 64 = e.base then
    some { last with length := (last.length + e.length) % 2 ^ 64 }
  else none

/-- The number of entries and the array, `none` for -1. -/
def mmapNormalize (raw : RawMap) (cap : Nat) (out : Nat → Entry) : Option (Nat × (Nat → Entry)) :=
  match raw.descriptors.foldlM (store cap) (0, out) with
  | none => none
  | some (n, out) => some (compact merge n (insertionSort Entry.base n out))

/-! ### The first loop -/

def nonEmpty (l : List Descriptor) : List Descriptor := l.filter fun d => d.numberOfPages ≠ 0

theorem foldlM_store {cap n : Nat} (l : List Descriptor) (out : Nat → Entry) (hn : n ≤ cap) :
    (cap < n + (nonEmpty l).length ∧ l.foldlM (store cap) (n, out) = none) ∨
      n + (nonEmpty l).length ≤ cap ∧
        ∃ out', l.foldlM (store cap) (n, out) = some (n + (nonEmpty l).length, out') ∧
          cells out' (n + (nonEmpty l).length) = cells out n ++ (nonEmpty l).map toEntry := by
  induction l generalizing n out with
  | nil =>
    right
    exact ⟨hn, out, rfl, (List.append_nil _).symm⟩
  | cons d l ih =>
    rw [List.foldlM_cons, store]
    by_cases hzero : d.numberOfPages = 0
    · have hskip : nonEmpty (d :: l) = nonEmpty l := List.filter_cons_of_neg (by simp [hzero])
      rw [if_pos hzero, hskip]
      exact ih out hn
    · have hkeep : nonEmpty (d :: l) = d :: nonEmpty l := List.filter_cons_of_pos (by simp [hzero])
      rw [if_neg hzero, hkeep, List.length_cons, List.map_cons]
      by_cases hfull : cap ≤ n
      · left
        exact ⟨by omega, by rw [if_pos hfull]; rfl⟩
      · have hnext := ih (n := n + 1) (update out n (toEntry d)) (by omega)
        rw [if_neg hfull, Nat.add_right_comm, Nat.add_assoc] at *
        rw [cells_succ, cells_update (Nat.le_refl n), Function.update_self, List.append_assoc]
          at hnext
        exact hnext

/-! ### Sorted entries -/

def Entry.Covers (e : Entry) (x : Nat) : Prop := e.base ≤ x ∧ x < e.base + e.length

def HasType (l : List Entry) (x : Nat) (t : MemType) : Prop := ∃ e ∈ l, e.Covers x ∧ e.type = t

variable {e : Entry} {l : List Entry}

theorem hasType_cons {x : Nat} {t : MemType} :
    HasType (e :: l) x t ↔ (e.Covers x ∧ e.type = t) ∨ HasType l x t := by
  simp only [HasType, List.mem_cons, or_and_right, exists_or, exists_eq_left]

theorem hasType_concat {x : Nat} {t : MemType} :
    HasType (l ++ [e]) x t ↔ (e.Covers x ∧ e.type = t) ∨ HasType l x t := by
  simp only [HasType, List.mem_append, List.mem_singleton, or_and_right, exists_or,
    exists_eq_left, or_comm]

structure Ordered (l : List Entry) : Prop where
  disjoint : l.Pairwise fun a b => a.base + a.length ≤ b.base
  valid : ∀ e ∈ l, 0 < e.length ∧ e.base + e.length < 2 ^ 64

structure Kept (kept seen : List Entry) : Prop where
  disjoint : kept.Pairwise fun b a => a.base + a.length ≤ b.base
  nonempty : ∀ e ∈ kept, 0 < e.length
  coalesced : kept.Pairwise fun b a => a.base + a.length = b.base → a.type ≠ b.type
  types : ∀ x t, HasType kept x t ↔ HasType seen x t

theorem Kept.end_le {kept seen : List Entry} {limit : Nat} (h : Kept kept seen) (he : e ∈ kept)
    (hs : ∀ s ∈ seen, s.base + s.length ≤ limit) : e.base + e.length ≤ limit := by
  have hpos := h.nonempty e he
  -- the last byte of the entry lies in one of the entries seen
  obtain ⟨s, hmem, hcov, -⟩ := (h.types (e.base + e.length - 1) e.type).mp
    ⟨e, he, ⟨by omega, by omega⟩, rfl⟩
  have := hs s hmem
  have := hcov.2
  omega

theorem Kept.push {kept seen : List Entry} (h : Kept kept seen) (hs : Ordered (seen ++ [e])) :
    Kept (push merge kept e) (seen ++ [e]) := by
  have hbefore : ∀ s ∈ seen, s.base + s.length ≤ e.base := fun s hmem =>
    (List.pairwise_append.mp hs.disjoint).2.2 s hmem e (by simp)
  obtain ⟨hpos, hlt⟩ := hs.valid e (by simp)
  have hend {k : Entry} (hk : k ∈ kept) : k.base + k.length ≤ e.base := h.end_le hk hbefore
  have hadd : Kept (e :: kept) (seen ++ [e]) ∨ ∃ c rest, kept = c :: rest ∧
      c.base + c.length = e.base ∧ c.type = e.type := by
    cases kept with
    | nil =>
      left
      refine ⟨List.pairwise_singleton _ _, by simpa using hpos, List.pairwise_singleton _ _, ?_⟩
      intro x t
      rw [hasType_cons, hasType_concat, h.types]
    | cons c rest =>
      by_cases htouch : c.base + c.length = e.base ∧ c.type = e.type
      · exact .inr ⟨c, rest, rfl, htouch⟩
      · left
        obtain ⟨hfirst, -⟩ := List.pairwise_cons.mp h.disjoint
        have hc := h.nonempty c List.mem_cons_self
        refine ⟨List.pairwise_cons.mpr ⟨fun k hk => hend hk, h.disjoint⟩, ?_,
          List.pairwise_cons.mpr ⟨?_, h.coalesced⟩, fun x t => ?_⟩
        · intro k hk
          rcases List.mem_cons.mp hk with rfl | hk
          · exact hpos
          · exact h.nonempty k hk
        · intro k hk heq
          rcases List.mem_cons.mp hk with rfl | hk
          · exact fun htype => htouch ⟨heq, htype⟩
          · -- an entry before the last one cannot touch the new one
            have := hfirst k hk
            have := hend (List.mem_cons_self (a := c) (l := rest))
            omega
        · rw [hasType_cons, hasType_concat, h.types]
  rcases hadd with hadd | ⟨c, rest, rfl, htouch, htype⟩
  · cases kept with
    | nil => exact hadd
    | cons c rest =>
      have hc := hend (List.mem_cons_self (a := c) (l := rest))
      have hnone : merge c e = none := by
        refine if_neg fun hm => ?_
        rw [Nat.mod_eq_of_lt (by omega)] at hm
        exact (List.pairwise_cons.mp hadd.coalesced).1 c List.mem_cons_self hm.2 hm.1
      rw [InPlace.push, hnone]
      exact hadd
  · have hsome : merge c e = some { c with length := c.length + e.length } := by
      rw [merge, Nat.mod_eq_of_lt (by omega), Nat.mod_eq_of_lt (by omega), if_pos ⟨htype, htouch⟩]
    obtain ⟨hfirst, hrest⟩ := List.pairwise_cons.mp h.disjoint
    obtain ⟨htypes, hcoal⟩ := List.pairwise_cons.mp h.coalesced
    rw [InPlace.push, hsome]
    refine ⟨List.pairwise_cons.mpr ⟨hfirst, hrest⟩, ?_, List.pairwise_cons.mpr ⟨htypes, hcoal⟩, ?_⟩
    · intro k hk
      rcases List.mem_cons.mp hk with rfl | hk
      · exact Nat.add_pos_right _ hpos
      · exact h.nonempty k (List.mem_cons_of_mem c hk)
    · intro x t
      rw [hasType_concat, ← h.types, hasType_cons, hasType_cons, ← or_assoc]
      refine or_congr_left ?_
      simp only [Entry.Covers, ← htype, ← or_and_right]
      refine and_congr_left fun _ => ?_
      omega

theorem Ordered.kept (h : Ordered l) : Kept (l.foldl (push merge) []) l := by
  refine foldl_push_induction merge (P := fun kept seen => Ordered seen → Kept kept seen)
    (fun _ => ⟨.nil, by simp, .nil, fun _ _ => .rfl⟩) (fun kept seen e ih hs => ?_) l h
  have hseen : Ordered seen :=
    ⟨(List.pairwise_append.mp hs.disjoint).1, fun k hk => hs.valid k (List.mem_append_left _ hk)⟩
  exact (ih hseen).push hs

/-! ### The result -/

def Descriptor.Covers (d : Descriptor) (x : Nat) : Prop :=
  d.physicalStart ≤ x ∧ x < d.physicalStart + d.numberOfPages * efiPageSize

/-- The firmware's guarantee for the descriptors that are not empty: no 64-bit wrap, no overlap. -/
structure Firmware (l : List Descriptor) : Prop where
  noWrap : ∀ d ∈ l, d.physicalStart + d.numberOfPages * efiPageSize < 2 ^ 64
  disjoint : l.Pairwise fun a b => ∀ x, ¬ (a.Covers x ∧ b.Covers x)

structure Normalized (l : List Entry) (ds : List Descriptor) : Prop where
  sorted : l.Pairwise fun a b => a.base < b.base
  disjoint : l.Pairwise fun a b => a.base + a.length ≤ b.base
  nonempty : ∀ e ∈ l, 0 < e.length
  coalesced : l.Pairwise fun a b => a.base + a.length = b.base → a.type ≠ b.type
  types : ∀ x t, HasType l x t ↔ ∃ d ∈ ds, d.Covers x ∧ efiTypeToTocinboot d.type = t

theorem covers_toEntry {d : Descriptor} (h : d.physicalStart + d.numberOfPages * efiPageSize < 2 ^ 64)
    (x : Nat) : (toEntry d).Covers x ↔ d.Covers x := by
  simp only [Entry.Covers, toEntry, Descriptor.Covers]
  rw [Nat.mod_eq_of_lt (by omega)]

theorem ordered_sort {ds : List Descriptor} (hf : Firmware ds) (hne : ∀ d ∈ ds, d.numberOfPages ≠ 0)
    (hp : l.Perm (ds.map toEntry)) (hs : l.Pairwise fun a b => a.base ≤ b.base) : Ordered l := by
  have hvalid : ∀ e ∈ l, 0 < e.length ∧ e.base + e.length < 2 ^ 64 := by
    intro e he
    obtain ⟨d, hd, rfl⟩ := List.mem_map.mp (hp.subset he)
    have hlt := hf.noWrap d hd
    have := hne d hd
    simp only [toEntry, efiPageSize] at hlt ⊢
    omega
  have hdisj : l.Pairwise fun a b => ∀ x, ¬ (a.Covers x ∧ b.Covers x) := by
    refine (hp.pairwise_iff fun hab x hx => hab x hx.symm).mpr (List.pairwise_map.mpr ?_)
    refine hf.disjoint.imp_of_mem fun {a b} ha hb hab x => ?_
    rw [covers_toEntry (hf.noWrap a ha), covers_toEntry (hf.noWrap b hb)]
    exact hab x
  refine ⟨(hs.and hdisj).imp_of_mem fun {a b} ha hb hab => ?_, hvalid⟩
  -- otherwise both would cover the start of the second one
  by_contra hlt
  have hb := (hvalid b hb).1
  refine hab.2 b.base ?_
  simp only [Entry.Covers]
  omega

theorem mmapNormalize_correct (raw : RawMap) (cap : Nat) (out : Nat → Entry)
    (h : Firmware (nonEmpty raw.descriptors)) :
    (mmapNormalize raw cap out = none ↔ cap < (nonEmpty raw.descriptors).length) ∧
      ∀ m out', mmapNormalize raw cap out = some (m, out') →
        Normalized (cells out' m) (nonEmpty raw.descriptors) := by
  have hne : ∀ d ∈ nonEmpty raw.descriptors, d.numberOfPages ≠ 0 := fun d hd =>
    of_decide_eq_true (List.mem_filter.mp hd).2
  rw [mmapNormalize]
  rcases foldlM_store raw.descriptors out (Nat.zero_le cap) with
    ⟨hlt, heq⟩ | ⟨hle, stored, heq, hcells⟩
  · rw [heq]
    rw [Nat.zero_add] at hlt
    exact ⟨iff_of_true rfl hlt, fun _ _ hsome => nomatch hsome⟩
  rw [heq]
  rw [Nat.zero_add] at hle hcells
  refine ⟨iff_of_false nofun (by omega), fun m out' hsome => ?_⟩
  rw [Nat.zero_add, Option.some.injEq] at hsome
  obtain ⟨hperm, hsorted⟩ := insertionSort_spec Entry.base (nonEmpty raw.descriptors).length stored
  rw [hcells] at hperm
  have hordered := ordered_sort h hne hperm hsorted
  obtain ⟨-, -, hkept⟩ := compact_spec merge (nonEmpty raw.descriptors).length
    (insertionSort Entry.base (nonEmpty raw.descriptors).length stored)
  rw [hsome] at hkept
  have hgood := hordered.kept
  rw [← hkept] at hgood
  have hdisjoint := List.pairwise_reverse.mp hgood.disjoint
  have hnonempty : ∀ e ∈ cells out' m, 0 < e.length := fun e he =>
    hgood.nonempty e (List.mem_reverse.mpr he)
  refine ⟨hdisjoint.imp_of_mem fun {a b} ha _ hab => ?_, hdisjoint, hnonempty,
    List.pairwise_reverse.mp hgood.coalesced, fun x t => ?_⟩
  · have := hnonempty a ha
    omega
  · have hreverse : HasType (cells out' m) x t ↔ HasType (cells out' m).reverse x t := by
      simp only [HasType, List.mem_reverse]
    rw [hreverse, hgood.types]
    constructor
    · rintro ⟨e, he, hcov, htype⟩
      obtain ⟨d, hd, rfl⟩ := List.mem_map.mp (hperm.subset he)
      exact ⟨d, hd, (covers_toEntry (h.noWrap d hd) x).mp hcov, htype⟩
    · rintro ⟨d, hd, hcov, htype⟩
      exact ⟨toEntry d, hperm.symm.subset (List.mem_map_of_mem hd),
        (covers_toEntry (h.noWrap d hd) x).mpr hcov, htype⟩

/-- Two touching pages of boot services and conventional memory, in descending order, and an
empty descriptor. -/
def twoPages : RawMap where
  bytes
    | 0 => 7 | 9 => 0x20 | 24 => 1
    | 48 => 3 | 57 => 0x10 | 72 => 1
    | 96 => 9 | 105 => 0x50
    | _ => 0
  size := 144
  stride := 48
  stride_le := by decide

theorem twoPages_normalized :
    ∃ m out, mmapNormalize twoPages 8 (fun _ => ⟨0, 0, .invalid, 0⟩) = some (m, out) ∧
      cells out m = [⟨0x1000, 0x2000, .usable, 0⟩] ∧
      Normalized (cells out m) [⟨7, 0x2000, 1⟩, ⟨3, 0x1000, 1⟩] := by
  have hlist : nonEmpty twoPages.descriptors = [⟨7, 0x2000, 1⟩, ⟨3, 0x1000, 1⟩] := by decide
  have hfirmware : Firmware (nonEmpty twoPages.descriptors) := by
    rw [hlist]
    refine ⟨by decide, List.pairwise_pair.mpr fun x hx => ?_⟩
    simp only [Descriptor.Covers, efiPageSize] at hx
    omega
  have hcorrect := (mmapNormalize_correct twoPages 8 (fun _ => ⟨0, 0, .invalid, 0⟩) hfirmware).2
  rw [hlist] at hcorrect
  exact ⟨_, _, rfl, by decide, hcorrect _ _ rfl⟩

end TocinOS.BootMap

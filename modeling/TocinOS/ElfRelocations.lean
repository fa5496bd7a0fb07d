import TocinOS.WordPatches

/-! The relocations of an `ET_EXEC` image: `elf_process_relocations` of `kernel/elf.c`, which takes
`load_base` 0x400000 for the base, and after it `process_relocations` of `user/ld.so/ld.c` with base
0. The segments of such an image are loaded at their own addresses. -/

namespace TocinOS.ElfRelocations

open WordPatches (Apart Covers Memory byteOf byteOf_word patch store store_word word word_congr word_eq_iff)

abbrev loadBase : BitVec 32 := 0x400000

inductive RelType
  | none
  | abs32
  | pc32
  | copy
  | globDat
  | jmpSlot
  | relative
  | other
  deriving DecidableEq

structure Rel where
  offset : BitVec 32
  info : BitVec 32

def Rel.type (rel : Rel) : RelType :=
  match (rel.info &&& 0xFF#32).toNat with
  | 0 => .none
  | 1 => .abs32
  | 2 => .pc32
  | 5 => .copy
  | 6 => .globDat
  | 7 => .jmpSlot
  | 8 => .relative
  | _ => .other

def Rel.sym (rel : Rel) : Nat := (rel.info >>> 8).toNat

structure Sym where
  name : BitVec 32
  value : BitVec 32
  shndx : BitVec 16

structure Image where
  symtab : Option (Nat → Sym)
  rel : List Rel
  pltRel : List Rel

def Image.table (image : Image) : List Rel := image.rel ++ image.pltRel

def symbolValue (base : BitVec 32) (lookup : BitVec 32 → BitVec 32) (image : Image) (rel : Rel) :
    Option (BitVec 32) :=
  match image.symtab with
  | none => some 0
  | some symtab =>
    if rel.sym = 0 then some 0
    else if (symtab rel.sym).shndx ≠ 0 then some (base + (symtab rel.sym).value)
    else if lookup (symtab rel.sym).name = 0 then none
    else some (lookup (symtab rel.sym).name)

/-- The two functions differ in the base and in what they know of external symbols. Neither copies
for `R_386_COPY`. -/
def applyRelocation (base : BitVec 32) (lookup : BitVec 32 → BitVec 32) (image : Image) (m : Memory)
    (rel : Rel) : Memory :=
  let target := base + rel.offset
  match symbolValue base lookup image rel with
  | none => m
  | some symVal =>
    match rel.type with
    | .none | .copy | .other => m
    | .abs32 => store m target (word m target + symVal)
    | .pc32 => store m target (word m target + (symVal - target))
    | .globDat | .jmpSlot => store m target symVal
    | .relative => store m target (word m target + base)

def elfApplyRelocation (image : Image) : Memory → Rel → Memory :=
  applyRelocation loadBase (fun _ => 0) image

def elfProcessRelocations (image : Image) (m : Memory) : Memory :=
  image.table.foldl (elfApplyRelocation image) m

def processRelocations (lookup : BitVec 32 → BitVec 32) (image : Image) (m : Memory) : Memory :=
  image.table.foldl (applyRelocation 0 lookup image) m

def started (lookup : BitVec 32 → BitVec 32) (image : Image) (m : Memory) : Memory :=
  processRelocations lookup image (elfProcessRelocations image m)

/-- The value that the i386 ABI defines for a symbol at `S`, the addend `A`, the place `P` and an
image loaded at `B`. -/
def abiValue (S A P B : BitVec 32) : RelType → BitVec 32
  | .abs32 => S + A
  | .pc32 => S + A - P
  | .globDat | .jmpSlot => S
  | .relative => B + A
  | .none | .copy | .other => A

/-- The entries that `ld.so` patches a word for. -/
def Patches (lookup : BitVec 32 → BitVec 32) (image : Image) (rel : Rel) : Prop :=
  rel.type ≠ .none ∧ rel.type ≠ .copy ∧ rel.type ≠ .other ∧ symbolValue 0 lookup image rel ≠ none

instance (lookup : BitVec 32 → BitVec 32) (image : Image) (rel : Rel) :
    Decidable (Patches lookup image rel) :=
  inferInstanceAs (Decidable (_ ∧ _))

def Image.patches (lookup : BitVec 32 → BitVec 32) (image : Image) : List Rel :=
  image.table.filter fun rel => decide (Patches lookup image rel)

/-- Every target holds its value, and no other byte has changed. `extra` has the bytes that the ABI
defines for entries of other types, such as `R_386_COPY`, and for symbols that are not found. -/
structure Relocated (extra : BitVec 32 → Option (BitVec 8)) (lookup : BitVec 32 → BitVec 32)
    (image : Image) (m m' : Memory) : Prop where
  targets : ∀ rel ∈ image.patches lookup, ∀ S, symbolValue 0 lookup image rel = some S →
    word m' rel.offset = abiValue S (word m rel.offset) rel.offset 0 rel.type
  others : ∀ b, (∀ rel ∈ image.patches lookup, ¬ Covers rel.offset b) → m' b = (extra b).getD (m b)

def Rel.Sets (rel : Rel) : Prop := rel.type = .globDat ∨ rel.type = .jmpSlot

/-- What the ABI defines for an entry of an image at `base`, the addend where the symbol is not
known. -/
def abiWord (base : BitVec 32) (lookup : BitVec 32 → BitVec 32) (image : Image) (rel : Rel)
    (A : BitVec 32) : BitVec 32 :=
  match symbolValue base lookup image rel with
  | none => A
  | some S => abiValue S A (base + rel.offset) base rel.type

/-- Byte `b` is right for `ld.so`: it need not change, and of the words at 0x400000 and the offset of
an entry one that covers it has the value for this base already, as far as `b` is concerned. -/
structure Settled (extra : BitVec 32 → Option (BitVec 8)) (lookup : BitVec 32 → BitVec 32)
    (image : Image) (m : Memory) (b : BitVec 32) : Prop where
  patched : ∀ rel ∈ image.patches lookup, Covers (loadBase + rel.offset) b →
    byteOf (abiWord loadBase (fun _ => 0) image rel (word m (loadBase + rel.offset)))
      (b - (loadBase + rel.offset)) = (extra b).getD (m b)
  kept : (∀ rel ∈ image.patches lookup, ¬ Covers (loadBase + rel.offset) b) →
    m b = (extra b).getD (m b)

variable {base : BitVec 32} {lookup lookup' : BitVec 32 → BitVec 32} {image : Image} {m : Memory}
  {rel : Rel} {extra : BitVec 32 → Option (BitVec 8)}

/-! ### Each pass as a list of changes -/

theorem applyRelocation_eq (base : BitVec 32) (lookup : BitVec 32 → BitVec 32) (image : Image) :
    applyRelocation base lookup image = patch (fun rel => base + rel.offset) (abiWord base lookup image) := by
  funext m rel
  simp only [applyRelocation, patch, abiWord]
  cases symbolValue base lookup image rel with
  | none => exact (store_word ..).symm
  | some S =>
    cases rel.type with
    | abs32 =>
      dsimp only [abiValue]
      rw [BitVec.add_comm S]
    | pc32 =>
      dsimp only [abiValue]
      congr 1
      bv_omega
    | relative =>
      dsimp only [abiValue]
      rw [BitVec.add_comm base (word m _)]
    | globDat => rfl
    | jmpSlot => rfl
    | none => exact (store_word ..).symm
    | copy => exact (store_word ..).symm
    | other => exact (store_word ..).symm

theorem abiWord_inj (hsets : ¬ rel.Sets) {A A' : BitVec 32}
    (h : abiWord base lookup image rel A = abiWord base lookup image rel A') : A = A' := by
  simp only [abiWord] at h
  cases hsym : symbolValue base lookup image rel with
  | none => simpa only [hsym] using h
  | some S =>
    simp only [hsym] at h
    cases htype : rel.type with
    | globDat => exact absurd (.inl htype) hsets
    | jmpSlot => exact absurd (.inr htype) hsets
    | _ =>
      simp only [htype, abiValue] at h
      bv_omega

theorem abiWord_sets (hsets : rel.Sets) (hsym : symbolValue base lookup image rel ≠ none)
    (A A' : BitVec 32) : abiWord base lookup image rel A = abiWord base lookup image rel A' := by
  obtain ⟨S, hS⟩ := Option.ne_none_iff_exists'.mp hsym
  simp only [abiWord, hS]
  rcases hsets with htype | htype
  · rw [htype]
    rfl
  · rw [htype]
    rfl

theorem apart_shift {a b : BitVec 32} (h : Apart a b) (c : BitVec 32) : Apart (c + a) (c + b) := by
  intro d hd hd'
  refine h (d - c) ?_ ?_
  · rw [Covers] at hd ⊢
    bv_omega
  · rw [Covers] at hd' ⊢
    bv_omega

theorem zero_base (a : BitVec 32) : 0 + a = a := BitVec.zero_add a

theorem applyRelocation_of_not_patches (h : ¬ Patches lookup image rel)
    (hsym : symbolValue 0 lookup image rel = none → symbolValue base lookup' image rel = none) :
    applyRelocation base lookup' image m rel = m := by
  simp only [applyRelocation]
  cases hS : symbolValue base lookup' image rel with
  | none => rfl
  | some S =>
    have hknown : symbolValue 0 lookup image rel ≠ none := fun hnone => by simp [hsym hnone] at hS
    cases htype : rel.type with
    | none => rfl
    | copy => rfl
    | other => rfl
    | _ => exact absurd ⟨by simp [htype], by simp [htype], by simp [htype], hknown⟩ h

/-- The kernel knows no symbol that `ld.so` does not. -/
theorem kernel_symbolValue (h : symbolValue 0 lookup image rel = none) :
    symbolValue loadBase (fun _ => 0) image rel = none := by
  simp only [symbolValue] at h ⊢
  split at h
  · cases h
  · split_ifs at h ⊢
    simp_all

section Passes

variable (hsym : ∀ rel, symbolValue 0 lookup image rel = none → symbolValue base lookup' image rel = none)
include hsym

theorem pass_eq : image.table.foldl (applyRelocation base lookup' image) m =
    (image.patches lookup).foldl (patch (fun rel => base + rel.offset) (abiWord base lookup' image)) m := by
  rw [← applyRelocation_eq, Image.patches, List.foldl_filter]
  congr 1
  funext m rel
  split
  · rfl
  · next h => exact applyRelocation_of_not_patches (by simpa using h) (hsym rel)

theorem word_pass (hapart : (image.patches lookup).Pairwise fun rel rel' => Apart rel.offset rel'.offset)
    (hrel : rel ∈ image.patches lookup) :
    word (image.table.foldl (applyRelocation base lookup' image) m) (base + rel.offset) =
      abiWord base lookup' image rel (word m (base + rel.offset)) := by
  rw [pass_eq hsym]
  have hshifted := hapart.imp fun {rel rel'} h => apart_shift h base
  exact WordPatches.foldl_patch_word hshifted hrel

theorem pass_outside {b : BitVec 32} (hb : ∀ rel ∈ image.patches lookup, ¬ Covers (base + rel.offset) b) :
    image.table.foldl (applyRelocation base lookup' image) m b = m b := by
  rw [pass_eq hsym]
  exact WordPatches.foldl_patch_outside hb

end Passes

theorem started_outside {b : BitVec 32} (hb : ∀ rel ∈ image.patches lookup, ¬ Covers rel.offset b) :
    started lookup image m b = elfProcessRelocations image m b := by
  refine pass_outside (fun _ => id) fun rel hrel => ?_
  rw [zero_base]
  exact hb rel hrel

theorem abiWord_of_symbolValue {S : BitVec 32} (hS : symbolValue 0 lookup image rel = some S)
    (A : BitVec 32) : abiWord 0 lookup image rel A = abiValue S A rel.offset 0 rel.type := by
  simp only [abiWord, hS, zero_base]

section Targets

variable (hapart : (image.patches lookup).Pairwise fun rel rel' => Apart rel.offset rel'.offset)
include hapart

theorem elfProcessRelocations_covered (hrel : rel ∈ image.patches lookup) {b : BitVec 32}
    (hb : Covers (loadBase + rel.offset) b) : elfProcessRelocations image m b =
      byteOf (abiWord loadBase (fun _ => 0) image rel (word m (loadBase + rel.offset)))
        (b - (loadBase + rel.offset)) := by
  have hword : word (elfProcessRelocations image m) (loadBase + rel.offset) = _ :=
    word_pass (fun _ => kernel_symbolValue) hapart hrel
  rw [← hword, byteOf_word hb]

theorem word_started (hrel : rel ∈ image.patches lookup) :
    word (started lookup image m) rel.offset =
      abiWord 0 lookup image rel (word (elfProcessRelocations image m) rel.offset) := by
  have h : word (started lookup image m) (0 + rel.offset) = abiWord 0 lookup image rel
      (word (elfProcessRelocations image m) (0 + rel.offset)) := word_pass (fun _ => id) hapart hrel
  rwa [zero_base] at h

/-- What `ld.so` finds outside the words that it sets has to be right already. -/
theorem relocated_iff_kept
    (hextra : ∀ rel ∈ image.patches lookup, ∀ b, Covers rel.offset b → extra b = none) :
    Relocated extra lookup image m (started lookup image m) ↔
      ∀ b, (∀ rel ∈ image.patches lookup, rel.Sets → ¬ Covers rel.offset b) →
        elfProcessRelocations image m b = (extra b).getD (m b) := by
  have hknown {rel : Rel} (hrel : rel ∈ image.patches lookup) : symbolValue 0 lookup image rel ≠ none :=
    (of_decide_eq_true (List.mem_filter.mp hrel).2).2.2.2
  constructor
  · intro h b hb
    by_cases hin : ∃ rel ∈ image.patches lookup, Covers rel.offset b
    · obtain ⟨rel, hrel, hcovers⟩ := hin
      have hsets : ¬ rel.Sets := fun hsets => hb rel hrel hsets hcovers
      obtain ⟨S, hS⟩ := Option.ne_none_iff_exists'.mp (hknown hrel)
      have hword := h.targets rel hrel S hS
      rw [word_started hapart hrel, ← abiWord_of_symbolValue hS] at hword
      rw [hextra rel hrel b hcovers]
      exact word_eq_iff.mp (abiWord_inj hsets hword) b hcovers
    · have hout : ∀ rel ∈ image.patches lookup, ¬ Covers rel.offset b :=
        fun rel hrel hc => hin ⟨rel, hrel, hc⟩
      rw [← started_outside hout]
      exact h.others b hout
  · intro hkept
    refine ⟨fun rel hrel S hS => ?_, fun b hb => ?_⟩
    · rw [word_started hapart hrel, ← abiWord_of_symbolValue hS]
      by_cases hsets : rel.Sets
      · exact abiWord_sets hsets (hknown hrel) ..
      · congr 1
        refine word_congr fun b hb => (hkept b fun rel' hrel' hsets' hb' => ?_).trans ?_
        · have hne : rel ≠ rel' := fun h => hsets (h ▸ hsets')
          have : Std.Symm fun rel rel' : Rel => Apart rel.offset rel'.offset :=
            ⟨fun _ _ h c hc hc' => h c hc' hc⟩
          exact hapart.forall hrel hrel' hne b hb hb'
        · rw [hextra rel hrel b hb, Option.getD_none]
    · rw [started_outside hb]
      exact hkept b fun rel hrel _ => hb rel hrel

end Targets

/-- Two empty entries for one word, a copied word that has its bytes already, and a call to a
library. -/
def importing : Image where
  symtab := some fun _ => ⟨1, 0, 0⟩
  rel := [⟨0x8049000, 0⟩, ⟨0x8049000, 0⟩, ⟨0x8049004, 0x105⟩]
  pltRel := [⟨0x8049000, 0x107⟩]

def relative : Image where
  symtab := none
  rel := [⟨0x8049000, 8⟩]
  pltRel := []

end TocinOS.ElfRelocations

import TocinOS.ElfInterp

/-! The stores of `kernel/elf.c` through the context pointer of `elf_load_file`. The loader fills in
the `elf_context_t` of `elf.h`; `sys_spawn` hands over an object of a type of its own that has the
same name. -/

namespace TocinOS.ElfContext

open MemoryWords (Memory)
open ElfFormat ElfInterp

abbrev ptDynamic : Nat := 2
abbrev ptInterp : Nat := 3

/-- The fields that are stored to, those of `elf_dyn_context_t` included. -/
inductive Field where
  | elfData | elfSize | entryPoint | loadBase | is64bit | isDynamic | phdr | phnum | phent
  | dynamic | strtab | symtab | hash | rel | relCount | pltRel | pltRelCount | got | initFunc
  | finiFunc | initArray | finiArray | initArraySz | finiArraySz | needsInterp | sonameOffset
  | interpPath (j : Nat)

def Field.offset : Field → Nat
  | .elfData => 0 | .elfSize => 4 | .entryPoint => 8 | .loadBase => 12 | .is64bit => 16
  | .isDynamic => 20 | .phdr => 24 | .phnum => 28 | .phent => 32 | .dynamic => 48 | .strtab => 52
  | .symtab => 56 | .hash => 60 | .rel => 64 | .relCount => 68 | .pltRel => 72 | .pltRelCount => 76
  | .got => 80 | .initFunc => 88 | .finiFunc => 92 | .initArray => 96 | .finiArray => 100
  | .initArraySz => 104 | .finiArraySz => 108 | .interpPath j => 112 + j | .needsInterp => 368
  | .sonameOffset => 372

def Field.width : Field → Nat
  | .interpPath _ => 1
  | _ => 4

def Field.Within (size : Nat) (f : Field) : Prop := f.offset + f.width ≤ size

abbrev contextSize : Nat := 376

/-- `elf_data`, `elf_size`, `entry_point`, `load_base` and `is_64bit`. -/
abbrev spawnContextSize : Nat := 20

/-! ### The stores, in order -/

def segments (data : Memory) : List Phdr := (List.range (ehdr32 data 0).phnum).map (interpPhdr data)

def pathLength (interp : Nat → BitVec 8) : Nat :=
  ((List.range 255).find? fun j => interp j == 0).getD 255

def elfFindInterp (data : Memory) : List Field :=
  [.needsInterp, .interpPath 0] ++
    match (segments data).find? fun ph => ph.type == ptInterp with
    | none => []
    | some ph =>
      let n := pathLength fun j => data ((ph.offset + j) % addressSpace)
      (List.range n).map .interpPath ++ [.interpPath n, .needsInterp]

/-- Tag and value of each entry before the first `DT_NULL`. Behind as many entries as the address
space has room for they come again. -/
def dynEntries (data : Memory) : Nat → Nat → List (Nat × Nat)
  | 0, _ => []
  | fuel + 1, a =>
    let tag := LittleEndian.get data (a % addressSpace) 4
    if tag = 0 then []
    else (tag, LittleEndian.get data ((a + 4) % addressSpace) 4) :: dynEntries data fuel (a + 8)

def dynField : Nat → Option Field
  | 3 => some .got
  | 4 => some .hash
  | 12 => some .initFunc
  | 13 => some .finiFunc
  | 14 => some .sonameOffset
  | 25 => some .initArray
  | 26 => some .finiArray
  | 27 => some .initArraySz
  | 28 => some .finiArraySz
  | _ => none

def dynValue (entries : List (Nat × Nat)) (tag : Nat) : Nat :=
  ((entries.reverse.find? fun e => e.1 == tag).map Prod.snd).getD 0

def Covers (ph : Phdr) (a : Nat) : Prop := ph.vaddr ≤ a ∧ a < (ph.vaddr + ph.memsz) % addressSpace

instance (ph : Phdr) (a : Nat) : Decidable (Covers ph a) := inferInstanceAs (Decidable (_ ∧ _))

/-- One round of the last loop of `elf_parse_dynamic`. -/
def tableFields (entries : List (Nat × Nat)) (ph : Phdr) : List Field :=
  let rel := dynValue entries 17
  let pltRel := dynValue entries 23
  if ph.type ≠ ptLoad then []
  else
    (if Covers ph (dynValue entries 5) then [.strtab] else []) ++
    (if Covers ph (dynValue entries 6) then [.symtab] else []) ++
    (if rel ≠ 0 ∧ Covers ph rel then [.rel, .relCount] else []) ++
    if pltRel ≠ 0 ∧ Covers ph pltRel then [.pltRel, .pltRelCount] else []

def elfParseDynamic (data : Memory) : List Field :=
  match (segments data).find? fun ph => ph.type == ptDynamic with
  | none => [.isDynamic]
  | some ph =>
    let entries := dynEntries data (2 ^ 29) ph.offset
    [.isDynamic, .dynamic] ++ entries.filterMap (fun e => dynField e.1) ++
      (segments data).flatMap (tableFields entries)

/-- `loaded` is whether `elf_load_segments` finds memory; it rejects 64-bit files. -/
def elfLoad (initialized : Bool) (data : Memory) (size : Nat) (loaded : Bool) : List Field :=
  if !initialized then []
  else if elfValidate data size ≠ 0 then []
  else
    [.is64bit, .entryPoint, .elfData, .elfSize, .loadBase, .phdr, .phnum, .phent] ++
      elfFindInterp data ++ if data 4 ≠ 2 ∧ loaded then elfParseDynamic data else []

/-- What `elf_load_file` meets: whether the file is opened and the first page for it is found, the
result of `vfs_read`, and the bytes of the buffer then. -/
structure File where
  opened : Bool
  page : Bool
  bytesRead : Int
  data : Memory

def elfLoadFile (initialized : Bool) (file : File) (loaded : Bool) : List Field :=
  if !initialized || !file.opened || !file.page || file.bytesRead ≤ 0 then []
  else elfLoad initialized file.data file.bytesRead.toNat loaded

/-! ### The object that `elf.h` declares -/

theorem within_context {f : Field} (h : ∀ j, f = .interpPath j → j ≤ 255) : f.Within contextSize := by
  cases f with
  | interpPath j =>
    have := h j rfl
    simp only [Field.Within, Field.offset, Field.width, contextSize]
    omega
  | _ =>
    show _ ≤ _
    decide

theorem pathLength_le (interp : Nat → BitVec 8) : pathLength interp ≤ 255 := by
  rw [pathLength]
  cases hfind : (List.range 255).find? fun j => interp j == 0 with
  | none => exact Nat.le_refl _
  | some j => exact Nat.le_of_lt (List.mem_range.mp (List.mem_of_find?_eq_some hfind))

theorem findInterp_within (data : Memory) : ∀ f ∈ elfFindInterp data, f.Within contextSize := by
  intro f hf
  refine within_context fun j hj => ?_
  subst hj
  rw [elfFindInterp] at hf
  split at hf
  · simp only [List.cons_append, List.nil_append, List.mem_cons, Field.interpPath.injEq, reduceCtorEq,
      List.not_mem_nil, or_false, false_or] at hf
    omega
  · next ph _ =>
    have hlength := pathLength_le fun j => data ((ph.offset + j) % addressSpace)
    simp at hf
    omega

theorem parseDynamic_within (data : Memory) : ∀ f ∈ elfParseDynamic data, f.Within contextSize := by
  intro f hf
  refine within_context fun j hj => ?_
  subst hj
  rw [elfParseDynamic] at hf
  split at hf
  · simp at hf
  · simp only [List.cons_append, List.nil_append, List.mem_cons, List.mem_append, List.mem_filterMap,
      List.mem_flatMap, reduceCtorEq, false_or] at hf
    rcases hf with ⟨e, -, he⟩ | ⟨ph, -, hph⟩
    · unfold dynField at he
      split at he <;> simp at he
    · simp only [tableFields] at hph
      split_ifs at hph <;> simp at hph

/-- All stores keep to the object that `elf.h` declares. They keep to the smaller one of `sys_spawn`
just if no file is read, or if the file is rejected at once. -/
theorem spawn_stores_inside_iff (initialized : Bool) (file : File) (loaded : Bool) :
    (∀ f ∈ elfLoadFile initialized file loaded, f.Within contextSize) ∧
      ((∀ f ∈ elfLoadFile initialized file loaded, f.Within spawnContextSize) ↔
        initialized = false ∨ file.opened = false ∨ file.page = false ∨ file.bytesRead ≤ 0 ∨
          elfValidate file.data file.bytesRead.toNat ≠ 0) := by
  rw [elfLoadFile]
  by_cases hread : (!initialized || !file.opened || !file.page || decide (file.bytesRead ≤ 0)) = true
  · rw [if_pos hread]
    simp only [Bool.or_eq_true, Bool.not_eq_true', decide_eq_true_eq] at hread
    exact ⟨nofun, iff_of_true nofun (by tauto)⟩
  rw [if_neg hread]
  simp only [Bool.or_eq_true, Bool.not_eq_true', decide_eq_true_eq, not_or] at hread
  obtain ⟨⟨⟨hinit, hopened⟩, hpage⟩, hbytes⟩ := hread
  rw [elfLoad, if_neg (by simpa using hinit)]
  by_cases hvalid : elfValidate file.data file.bytesRead.toNat = 0
  · rw [if_neg (not_not.mpr hvalid)]
    refine ⟨fun f hf => ?_, iff_of_false (fun h => ?_) (by tauto)⟩
    · rcases List.mem_append.mp hf with hf | hf
      · rcases List.mem_append.mp hf with hf | hf
        · simp only [List.mem_cons, List.not_mem_nil, or_false] at hf
          rcases hf with rfl | rfl | rfl | rfl | rfl | rfl | rfl | rfl <;> exact within_context nofun
        · exact findInterp_within _ f hf
      · split at hf
        · exact parseDynamic_within _ f hf
        · nomatch hf
    · have hphdr := h .phdr (by simp)
      exact absurd hphdr (by show ¬ _ ≤ _; decide)
  · rw [if_pos hvalid]
    exact ⟨nofun, iff_of_true nofun (by tauto)⟩

/-- An i386 executable without program headers. -/
def smallest : File where
  opened := true
  page := true
  bytesRead := 52
  data := fun i => [0x7F, 0x45, 0x4C, 0x46, 1, 1, 1, 0, 0, 0, 0, 0, 0, 0, 0, 0, 2, 0, 3].getD i 0

theorem smallest_leaves_context :
    elfValidate smallest.data 52 = 0 ∧
      ∃ f ∈ elfLoadFile true smallest true, ¬f.Within spawnContextSize := by
  refine ⟨by decide, .phdr, ?_, by show ¬ _ ≤ _; decide⟩
  rw [elfLoadFile, if_neg (by decide), elfLoad, if_neg (by decide), if_neg (by decide)]
  simp

end TocinOS.ElfContext

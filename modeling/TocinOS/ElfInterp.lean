import TocinOS.ElfFormat
import TocinOS.FatRoot

/-! How `elf_execute` of `kernel/elf.c` loads the interpreter that a program names and which entry
point it starts. -/

namespace TocinOS.ElfInterp

open MemoryWords (Memory)
open ElfFormat

abbrev pageSize : Nat := 4096
abbrev addressSpace : Nat := 2 ^ 32
abbrev interpBufSize : Nat := 64 * 1024

abbrev etExec : Nat := 2
abbrev etDyn : Nat := 3
abbrev em386 : Nat := 3
abbrev emX8664 : Nat := 62

def elfValidate (data : Memory) (size : Nat) : Int :=
  let header := ehdr32 data 0
  if size < ehdrSize32 then -1
  else if data 0 ≠ 0x7F ∨ data 1 ≠ 0x45 ∨ data 2 ≠ 0x4C ∨ data 3 ≠ 0x46 then -1
  else if data 4 ≠ 1 ∧ data 4 ≠ 2 then -1
  else if data 5 ≠ 1 then -1
  else if data 6 ≠ 1 then -1
  else if header.type ≠ etExec ∧ header.type ≠ etDyn then -1
  else if header.machine ≠ em386 ∧ header.machine ≠ emX8664 then -1
  else 0

/-- The bytes of the user's address space; none where nothing is mapped. -/
abbrev Space := Nat → Option (BitVec 8)

def mapPage (page : Nat) (m : Space) : Space := fun a => if a / pageSize = page then some 0 else m a

def pageAt (vaddr k : Nat) : Nat := (vaddr + k * pageSize) % addressSpace / pageSize

def mapRounds (alloc : Nat → Bool) (vaddr : Nat) : Nat → Space → Space
  | 0, m => m
  | k + 1, m =>
    let m := mapRounds alloc vaddr k m
    if alloc k then mapPage (pageAt vaddr k) m else m

def rounds (memsz : Nat) : Nat := (memsz + pageSize - 1) / pageSize

/-- Where `memsz` is more than the last page address, `off` wraps to 0 and the loop does not end. -/
def mapPages (alloc : Nat → Bool) (vaddr memsz : Nat) (m : Space) : Option Space :=
  if addressSpace - pageSize < memsz then none else some (mapRounds alloc vaddr (rounds memsz) m)

def copyBytes (src : Nat → BitVec 8) (dst : Nat) : Nat → Space → Option Space
  | 0, m => some m
  | j + 1, m => do
    let m ← copyBytes src dst j m
    let _ ← m ((dst + j) % addressSpace)
    return fun a => if a = (dst + j) % addressSpace then some (src j) else m a

def loadSegment (alloc : Nat → Bool) (buf : Memory) (base : Nat) (ph : Phdr) (m : Space) :
    Option Space :=
  if ph.type = ptLoad then do
    let vaddr := (base + ph.vaddr) % addressSpace
    let m ← mapPages alloc vaddr ph.memsz m
    copyBytes (fun j => buf ((ph.offset + j) % addressSpace)) vaddr ph.filesz m
  else some m

def interpPhdr (buf : Memory) (i : Nat) : Phdr :=
  phdr32 buf (((ehdr32 buf 0).phoff + i * phdrSize32) % addressSpace)

def interpLoadBase (buf : Memory) : Nat := if (ehdr32 buf 0).type = etDyn then 0x40000000 else 0

def loadSegments (alloc : Nat → Nat → Bool) (buf : Memory) : Nat → Space → Option Space
  | 0, m => some m
  | i + 1, m => do
    let m ← loadSegments alloc buf i m
    loadSegment (alloc i) buf (interpLoadBase buf) (interpPhdr buf i) m

def interpEntry (buf : Memory) : Nat := (interpLoadBase buf + (ehdr32 buf 0).entry) % addressSpace

/-- What surrounds the call. `elf.c` declares `fat_open` with one argument and a pointer for its
result, but the function linked in is that of `fat.c`, which returns an `int` and takes the record to
fill as a second argument. What it finds there is the word `stale` of the stack: none for zero,
otherwise the record that it points to, and `stored` is what filling it makes of the address space.
`word` and `read` are the words of memory and the answers of `fat_read`, with the buffer after it, for
a record at any address. -/
structure Env where
  ide : Fat.Ide
  fat : Fat.State
  stale : Option Fat.File
  stored : Space → Space
  word : BitVec 32 → Nat
  read : BitVec 32 → Int × Memory
  alloc : Nat → Nat → Bool

/-- `fat_open(interp_path)` as it is called: the pointer and the address space. -/
def openInterp (env : Env) (interpPath : Fat.Str) (m : Space) : BitVec 32 × Space :=
  match env.stale with
  | none => (-1, m)
  | some file =>
    let (_, _, ret) := Fat.fatOpen env.ide env.fat interpPath file
    (BitVec.ofInt 32 ret, if ret = 0 then env.stored m else m)

/-- The address space and `actual_entry` with which the program starts, if it does. -/
def elfExecute (env : Env) (entryPoint : Nat) (interpPath : Fat.Str) (m : Space) : Option (Space × Nat) :=
  if interpPath = [] then some (m, entryPoint)
  else
    let (interpFile, m) := openInterp env interpPath m
    if interpFile = 0 then some (m, entryPoint)
    else
      let interpSize := env.word (interpFile + 4)
      let (bytesRead, buf) := env.read interpFile
      if 0 < interpSize ∧ interpSize < interpBufSize ∧ 0 < bytesRead ∧ elfValidate buf bytesRead.toNat ≠ 0
      then do
        let m ← loadSegments env.alloc buf (ehdr32 buf 0).phnum m
        return (m, interpEntry buf)
      else some (m, entryPoint)

/-! ### The mapping loop -/

variable {alloc : Nat → Bool} {vaddr memsz n : Nat} {m m' : Space}

theorem isSome_mapRounds (a : Nat) : (mapRounds alloc vaddr n m a).isSome ↔
    (m a).isSome ∨ ∃ k < n, alloc k ∧ a / pageSize = pageAt vaddr k := by
  induction n with
  | zero => simp only [mapRounds, Nat.not_lt_zero, false_and, exists_false, or_false]
  | succ n ih =>
    have hlast : (∃ k < n + 1, alloc k ∧ a / pageSize = pageAt vaddr k) ↔
        (∃ k < n, alloc k ∧ a / pageSize = pageAt vaddr k) ∨
          (alloc n ∧ a / pageSize = pageAt vaddr n) := by
      grind
    rw [hlast, ← or_assoc, ← ih, mapRounds]
    by_cases halloc : alloc n
    · by_cases hpage : a / pageSize = pageAt vaddr n <;> simp [halloc, mapPage, hpage]
    · simp [halloc]

/-- With a page for every round, a range that does not wrap is mapped as a whole just if its last byte
is in a page of one of the rounds. From an unaligned address the last page may be missing. -/
theorem range_mapped_iff (hrange : vaddr + memsz ≤ addressSpace) (hsize : 0 < memsz)
    (hm : ∀ a, m a = none) (hend : mapPages (fun _ => true) vaddr memsz m = some m') :
    (∀ a, vaddr ≤ a → a < vaddr + memsz → (m' a).isSome) ↔
      vaddr % pageSize + memsz ≤ pageSize * rounds memsz := by
  have hpage {k : Nat} (hk : k < rounds memsz) : pageAt vaddr k = vaddr / pageSize + k := by
    have hoff : vaddr + k * pageSize < addressSpace := by
      simp only [rounds, pageSize] at hk ⊢
      omega
    rw [pageAt, Nat.mod_eq_of_lt hoff, Nat.add_mul_div_right _ _ (by decide)]
  have hmapped (a : Nat) (ha : vaddr ≤ a) :
      (m' a).isSome ↔ a / pageSize < vaddr / pageSize + rounds memsz := by
    have hdiv : vaddr / pageSize ≤ a / pageSize := Nat.div_le_div_right ha
    rw [mapPages] at hend
    split_ifs at hend
    cases hend
    rw [isSome_mapRounds, hm a]
    constructor
    · rintro (h | ⟨k, hk, -, h⟩)
      · cases h
      · rw [h, hpage hk]
        omega
    · intro h
      have hk : a / pageSize - vaddr / pageSize < rounds memsz := by omega
      exact .inr ⟨_, hk, rfl, by rw [hpage hk]; omega⟩
  constructor
  · intro h
    have hlast := (hmapped (vaddr + memsz - 1) (by omega)).mp (h _ (by omega) (by omega))
    simp only [pageSize] at hlast ⊢
    omega
  · intro h a ha hlt
    rw [hmapped a ha]
    simp only [pageSize] at h ⊢
    omega

/-- Two bytes at the end of a page: only the first is mapped. -/
theorem page_end_not_mapped : ∃ m', mapPages (fun _ => true) 4095 2 (fun _ => none) = some m' ∧
    ¬∀ a, 4095 ≤ a → a < 4095 + 2 → (m' a).isSome :=
  ⟨_, rfl, (range_mapped_iff (by decide) (by decide) (fun _ => rfl) rfl).not.mpr (by decide)⟩

/-! ### Which entry point is started -/

/-- Every range of the interpreter is mapped and holds its file bytes, followed by zeros. -/
def Loaded (buf : Memory) (m : Space) : Prop :=
  ∀ i < (ehdr32 buf 0).phnum, (interpPhdr buf i).type = ptLoad → ∀ j < (interpPhdr buf i).memsz,
    m ((interpLoadBase buf + (interpPhdr buf i).vaddr + j) % addressSpace) =
      some (if j < (interpPhdr buf i).filesz then buf ((interpPhdr buf i).offset + j) else 0)

def Valid (buf : Memory) (size : Nat) : Prop := elfValidate buf size = 0

instance (buf : Memory) (size : Nat) : Decidable (Valid buf size) :=
  inferInstanceAs (Decidable (_ = _))

/-- The program starts at the interpreter, as it should be in memory, if the file is valid, and at its
own entry point if it is not. -/
def Started (buf : Memory) (size entryPoint : Nat) (result : Option (Space × Nat)) : Prop :=
  ∃ m entry, result = some (m, entry) ∧
    if Valid buf size then entry = interpEntry buf ∧ Loaded buf m else entry = entryPoint

/-- The file with any bytes behind it. -/
def imageOf (file : List (BitVec 8)) (behind : Memory) : Memory := fun i => file.getD i (behind i)

/-- `fat_open` returns zero for a file that it finds, and that is taken for the null pointer. -/
theorem elfExecute_of_found {env : Env} {record : Fat.File} {interpPath : Fat.Str}
    (hstale : env.stale = some record)
    (hfound : (Fat.fatOpen env.ide env.fat interpPath record).2.2 = 0) (entryPoint : Nat) (m : Space) :
    ∃ m', elfExecute env entryPoint interpPath m = some (m', entryPoint) ∧
      (interpPath ≠ [] → m' = env.stored m) := by
  by_cases hpath : interpPath = []
  · exact ⟨m, if_pos hpath, fun hne => absurd hpath hne⟩
  · have hopen : openInterp env interpPath m = (0, env.stored m) := by
      rw [openInterp, hstale]
      simp [hfound]
    refine ⟨env.stored m, ?_, fun _ => rfl⟩
    rw [elfExecute, if_neg hpath, hopen]
    rfl

/-- A shared object for the i386 with its entry point at 0x54 and one segment of 16 bytes there. -/
def linker : List (BitVec 8) :=
  [0x7F, 0x45, 0x4C, 0x46, 1, 1, 1, 0, 0, 0, 0, 0, 0, 0, 0, 0,
    3, 0, 3, 0, 1, 0, 0, 0, 0x54, 0, 0, 0, 0x34, 0, 0, 0,
    0, 0, 0, 0, 0, 0, 0, 0, 0x34, 0, 0x20, 0, 1, 0, 0, 0, 0, 0, 0, 0,
    1, 0, 0, 0, 0x54, 0, 0, 0, 0x54, 0, 0, 0, 0x54, 0, 0, 0,
    16, 0, 0, 0, 16, 0, 0, 0, 5, 0, 0, 0, 0, 0x10, 0, 0] ++ List.replicate 16 0x90

/-- A FAT12 volume with a short file A in its first cluster. -/
def volumeOf (file : List (BitVec 8)) : Fat.Ide := fun _ _ lba => some fun i =>
  if lba = 1 then if i = 3 then 0xFF else if i = 4 then 0x0F else 0
  else if lba = 2 ∧ i = 26 then 2
  else if lba = 2 ∧ i = 28 then BitVec.ofNat 8 file.length
  else if lba = 3 then file.getD i 0
  else Fat.oneFile 0x20 lba i

def envOf (file : List (BitVec 8)) : Env where
  ide := volumeOf file
  fat := (Fat.fatMount (volumeOf file) Fat.unmounted 0).1
  stale := some ⟨0, 0, 0, 0, false⟩
  stored := id
  word := fun _ => 0
  read := fun _ => (-1, fun _ => 0)
  alloc := fun _ _ => true

def Found (file : List (BitVec 8)) : Prop :=
  (Fat.fatOpen (envOf file).ide (envOf file).fat [0x41] ⟨0, 0, 0, 0, false⟩).2.2 = 0

def script : List (BitVec 8) := [0x23, 0x21, 0x2F, 0x73, 0x68]

theorem script_found : Found script := rfl

theorem linker_found : Found linker := rfl

end TocinOS.ElfInterp

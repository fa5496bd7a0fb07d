import TocinOS.ElfRelocations

/-! Symbols by name: `elf_lookup_symbol` of `kernel/elf.c` and `lookup_symbol_in_lib` of
`user/ld.so/ld.c`, which follow a chain of the same hash table. A string is the memory from its
first byte on. -/

namespace TocinOS.ElfSymbols

open ElfRelocations (Sym)

abbrev Byte := BitVec 8

structure Image where
  base : BitVec 32
  symtab : Option (Nat → Sym)
  strtab : Option (List Byte)
  hash : Option (Nat → BitVec 32)

/-! ### The kernel -/

def kernelHash : List Byte → BitVec 32 → BitVec 32
  | [], hash => hash
  | c :: p, hash =>
    if c = 0 then hash
    else
      let hash := hash <<< 4 + c.setWidth 32
      let g := hash &&& 0xf0000000
      let hash := if g ≠ 0 then hash ^^^ g >>> 24 else hash
      kernelHash p (hash &&& ~~~g)

def namesMatch : List Byte → List Byte → Bool
  | c :: a, d :: b =>
    if c ≠ 0 ∧ d ≠ 0 then
      if c ≠ d then false else namesMatch a b
    else c == d
  | a, b => a.headD 0 == b.headD 0

def bucket (hash : Nat → BitVec 32) (h : BitVec 32) : BitVec 32 := hash (2 + (h % hash 0).toNat)

def chain (hash : Nat → BitVec 32) (idx : BitVec 32) : BitVec 32 :=
  hash ((2 + hash 0).toNat + idx.toNat)

/-- `none` without enough fuel. -/
def walk (same : List Byte → List Byte → Bool) (base : BitVec 32) (symtab : Nat → Sym)
    (strtab : List Byte) (hash : Nat → BitVec 32) (name : List Byte) :
    Nat → BitVec 32 → Option (BitVec 32)
  | 0, _ => none
  | fuel + 1, idx =>
    if idx ≠ 0 ∧ idx < hash 1 then
      let sym := symtab idx.toNat
      if same name (strtab.drop sym.name.toNat) = true ∧ sym.shndx ≠ 0 then some (base + sym.value)
      else walk same base symtab strtab hash name fuel (chain hash idx)
    else some 0

def elfLookupSymbol (fuel : Nat) (context : Option Image) (name : Option (List Byte)) :
    Option (BitVec 32) :=
  match context, name with
  | some ⟨loadBase, some symtab, some strtab, some hash⟩, some name =>
    walk namesMatch loadBase symtab strtab hash name fuel (bucket hash (kernelHash name 0))
  | _, _ => some 0

/-! ### The dynamic linker -/

def elfHash : List Byte → BitVec 32 → BitVec 32
  | [], h => h
  | c :: name, h =>
    if c = 0 then h
    else
      let h := h <<< 4 + c.setWidth 32
      let g := h &&& 0xf0000000
      elfHash name ((if g ≠ 0 then h ^^^ g >>> 24 else h) &&& ~~~g)

def ldStrcmp : List Byte → List Byte → Int
  | c :: a, d :: b =>
    if c ≠ 0 ∧ d ≠ 0 ∧ c = d then ldStrcmp a b else (c.toNat : Int) - d.toNat
  | a, b => ((a.headD 0).toNat : Int) - (b.headD 0).toNat

def lookupSymbolInLib (fuel : Nat) (lib : Image) (name : List Byte) : Option (BitVec 32) :=
  match lib with
  | ⟨base, some symtab, some strtab, some hash⟩ =>
    walk (fun a b => ldStrcmp a b == 0) base symtab strtab hash name fuel
      (bucket hash (elfHash name 0))
  | _ => some 0

/-! ### Strings -/

def cString (s : List Byte) : List Byte := s.takeWhile (· ≠ 0)

theorem cString_cons (c : Byte) (s : List Byte) :
    cString (c :: s) = if c = 0#8 then [] else c :: cString s := by
  by_cases hc : c = 0#8 <;> simp [cString, hc]

theorem elfHash_eq (s : List Byte) (h : BitVec 32) : elfHash s h = kernelHash s h := by
  induction s generalizing h with
  | nil => rfl
  | cons c s ih => simp only [elfHash, kernelHash, ih]

theorem kernelHash_cString (s : List Byte) (h : BitVec 32) :
    kernelHash (cString s) h = kernelHash s h := by
  induction s generalizing h with
  | nil => rfl
  | cons c s ih =>
    rw [cString_cons]
    by_cases hc : c = 0#8 <;> simp [kernelHash, hc, ih]

theorem namesMatch_iff (a b : List Byte) : namesMatch a b = true ↔ cString b = cString a := by
  induction a generalizing b with
  | nil =>
    cases b with
    | nil => simp [namesMatch]
    | cons d b => by_cases hd : d = 0#8 <;> simp [namesMatch, cString, hd, Ne.symm]
  | cons c a ih =>
    cases b with
    | nil => by_cases hc : c = 0#8 <;> simp [namesMatch, cString, hc]
    | cons d b =>
      rw [namesMatch, cString_cons, cString_cons]
      by_cases hc : c = 0#8 <;> by_cases hd : d = 0#8 <;> by_cases he : c = d <;>
        simp_all [Ne.symm]

theorem ldStrcmp_eq (a b : List Byte) : (ldStrcmp a b == 0) = namesMatch a b := by
  have hsub (c d : Byte) : ((c.toNat : Int) - d.toNat == 0) = (c == d) := by
    rw [Bool.eq_iff_iff, beq_iff_eq, beq_iff_eq, ← BitVec.toNat_inj]
    omega
  fun_induction namesMatch a b with
  | case1 c a d b hcd hne => rw [ldStrcmp, if_neg fun h => hne h.2.2, hsub, beq_false_of_ne hne]
  | case2 c a d b hcd heq ih => rw [ldStrcmp, if_pos ⟨hcd.1, hcd.2, not_not.mp heq⟩, ih]
  | case3 c a d b hcd => rw [ldStrcmp, if_neg fun h => hcd ⟨h.1, h.2.1⟩, hsub]
  | case4 a b hshort => rw [ldStrcmp, hsub]; exact hshort

/-! ### Tables -/

section

variable (symtab : Nat → Sym) (strtab : List Byte) (hash : Nat → BitVec 32)

/-- From `idx` on the chain has the symbols of the list, and then it ends. -/
def Linked : BitVec 32 → List (BitVec 32) → Prop
  | idx, [] => ¬ (idx ≠ 0 ∧ idx < hash 1)
  | idx, i :: rest => idx = i ∧ i ≠ 0 ∧ i < hash 1 ∧ Linked (chain hash i) rest

def nameOf (i : BitVec 32) : List Byte := cString (strtab.drop (symtab i.toNat).name.toNat)

def Defined (name : List Byte) (i : BitVec 32) : Prop :=
  nameOf symtab strtab i = cString name ∧ (symtab i.toNat).shndx ≠ 0

instance (name : List Byte) (i : BitVec 32) : Decidable (Defined symtab strtab name i) :=
  inferInstanceAs (Decidable (_ ∧ _))

structure WellFormed : Prop where
  buckets : hash 0 ≠ 0
  chains : ∀ h, ∃ l, Linked hash (bucket hash h) l ∧ ∀ i, i ≠ 0 → i < hash 1 →
    (symtab i.toNat).shndx ≠ 0 → kernelHash (nameOf symtab strtab i) 0 % hash 0 = h % hash 0 → i ∈ l

/-- What the choice of a symbol is turned into. -/
def address (base : BitVec 32) : Option (BitVec 32) → BitVec 32
  | none => 0
  | some i => base + (symtab i.toNat).value

variable {symtab strtab hash} {name : List Byte} {idx : BitVec 32} {l : List (BitVec 32)}

theorem Linked.mem (h : Linked hash idx l) {i : BitVec 32} (hi : i ∈ l) : i ≠ 0 ∧ i < hash 1 := by
  induction l generalizing idx with
  | nil => cases hi
  | cons j rest ih =>
    obtain ⟨-, hne, hlt, hrest⟩ := h
    obtain rfl | hi := List.mem_cons.mp hi
    · exact ⟨hne, hlt⟩
    · exact ih hrest hi

theorem walk_eq (base : BitVec 32) (h : Linked hash idx l) {fuel : Nat} (hfuel : l.length < fuel) :
    walk namesMatch base symtab strtab hash name fuel idx =
      some (address symtab base (l.find? (Defined symtab strtab name))) := by
  induction l generalizing idx fuel with
  | nil =>
    obtain ⟨fuel, rfl⟩ := Nat.exists_eq_succ_of_ne_zero (Nat.ne_of_gt hfuel)
    exact if_neg h
  | cons i rest ih =>
    obtain ⟨fuel, rfl⟩ := Nat.exists_eq_succ_of_ne_zero (Nat.ne_of_gt (Nat.zero_lt_of_lt hfuel))
    obtain ⟨rfl, hne, hlt, hrest⟩ := h
    rw [walk, if_pos ⟨hne, hlt⟩]
    by_cases hd : Defined symtab strtab name idx
    · rw [if_pos ⟨(namesMatch_iff ..).mpr hd.1, hd.2⟩, List.find?_cons_of_pos (by simpa using hd)]
      rfl
    · rw [if_neg fun h => hd ⟨(namesMatch_iff ..).mp h.1, h.2⟩,
        List.find?_cons_of_neg (by simpa using hd)]
      exact ih hrest (Nat.lt_of_succ_lt_succ hfuel)

end

theorem lookups_agree (symtab : Nat → Sym) (strtab : List Byte) (hash : Nat → BitVec 32)
    (h : WellFormed symtab strtab hash) (name : List Byte) :
    elfHash name 0 = kernelHash name 0 ∧ ∃ choice : Option (BitVec 32),
      (∀ i, choice = some i → i ≠ 0 ∧ i < hash 1 ∧ Defined symtab strtab name i) ∧
      (choice = none → ∀ i, i ≠ 0 → i < hash 1 → ¬ Defined symtab strtab name i) ∧
      ∃ n, ∀ fuel ≥ n, ∀ base,
        elfLookupSymbol fuel (some ⟨base, symtab, strtab, hash⟩) name =
          some (address symtab base choice) ∧
        lookupSymbolInLib fuel ⟨base, symtab, strtab, hash⟩ name =
          some (address symtab base choice) := by
  have hsame : (fun a b => ldStrcmp a b == 0) = namesMatch := by
    funext a b
    exact ldStrcmp_eq a b
  obtain ⟨l, hlinked, hall⟩ := h.chains (kernelHash name 0)
  refine ⟨elfHash_eq name 0, l.find? (Defined symtab strtab name), fun i hi => ?_,
    fun hnone i h0 hlt hd => ?_, l.length + 1, fun fuel hfuel base => ?_⟩
  · obtain ⟨h0, hlt⟩ := hlinked.mem (List.mem_of_find?_eq_some hi)
    exact ⟨h0, hlt, by simpa using List.find?_some hi⟩
  · have hmem := hall i h0 hlt hd.2 (by rw [hd.1, kernelHash_cString])
    simpa [hd] using List.find?_eq_none.mp hnone i hmem
  · rw [elfLookupSymbol, lookupSymbolInLib, hsame, elfHash_eq]
    exact ⟨walk_eq base hlinked hfuel, walk_eq base hlinked hfuel⟩

/-- The table of the one symbol `f`. -/
theorem one_symbol_found : ∃ n, ∀ fuel ≥ n,
    elfLookupSymbol fuel (some ⟨0x1000, some fun _ => ⟨1, 16, 1⟩, some [0, 102],
      some ([1, 2, 1, 0, 0].getD · 0)⟩) (some [102, 0]) = some 0x1010 := by
  obtain ⟨-, choice, -, hnone, n, hrun⟩ := lookups_agree (fun _ => ⟨1, 16, 1⟩) [0, 102]
    ([1, 2, 1, 0, 0].getD · 0)
    ⟨by decide, fun h => ⟨[1], by simp [Linked, bucket, chain], fun i h0 hlt _ _ => by
      simp at hlt ⊢; bv_omega⟩⟩ [102, 0]
  cases choice with
  | none => exact absurd (by decide) (hnone rfl 1 (by decide) (by decide))
  | some i => exact ⟨n, fun fuel hfuel => (hrun fuel hfuel 0x1000).1⟩

end TocinOS.ElfSymbols

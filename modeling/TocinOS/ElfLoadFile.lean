import TocinOS.VmmExhausted

/-! The buffer of `elf_load_file` in `kernel/elf.c`: sixteen pages are allocated one by one, and
the file is read to 64 KiB at the address of the first. -/

namespace TocinOS.ElfLoadFile

open Pmm (pageSize pmmAllocPage)
open Vmm (Exhausted Used)

def allocPages : Nat → Pmm.State → Pmm.State
  | 0, m => m
  | n + 1, m => allocPages n (pmmAllocPage m).1

/-- What is left of a call: its result, the page allocator at its end and when the file is read,
the address of the buffer and the number of bytes stored there. -/
structure Outcome where
  result : Int
  final : Pmm.State
  reading : Pmm.State
  buffer : Nat := 0
  stored : Nat := 0

/-- `opened` and `bytesRead` are what `vfs_open` and `vfs_read` report, `loadResult` is the result
of `elf_load` and `loadPmm` what it does to the page allocator. -/
def elfLoadFile (m : Pmm.State) (opened : Bool) (bytesRead loadResult : Int)
    (loadPmm : Pmm.State → Pmm.State) : Outcome :=
  if !opened then { result := -1, final := m, reading := m }
  else
    let (m, buffer) := pmmAllocPage m
    if buffer = 0 then { result := -1, final := m, reading := m }
    else
      let m := allocPages 15 m
      if bytesRead ≤ 0 then { result := -1, final := m, reading := m, buffer }
      else
        { result := loadResult, final := loadPmm m, reading := m, buffer, stored := bytesRead.toNat }

/-- The bytes of the file are in pages that the call took, and a call that fails has given its
pages back. -/
structure Safe (m : Pmm.State) (o : Outcome) : Prop where
  inside : ∀ i < o.stored, ¬ Used m ((o.buffer + i) / pageSize) ∧
    Used o.reading ((o.buffer + i) / pageSize)
  undone : o.result ≠ 0 → ∀ p, ¬ Used m p → Used o.reading p → ¬ Used o.final p

/-! ### The pages allocated -/

structure FirstFree (m : Pmm.State) (p : Nat) : Prop where
  lt : p < m.totalPages
  free : ¬ Used m p
  below : ∀ q < p, Used m q

variable {m : Pmm.State} {p q n : Nat}

theorem alloc_cases (m : Pmm.State) :
    Exhausted m ∧ pmmAllocPage m = (m, 0) ∨
      ∃ p, FirstFree m p ∧ pmmAllocPage m = (Pmm.pmmSetPageUsed m p, p * pageSize) := by
  rcases Pmm.allocFrom_spec m m.totalPages 0 with ⟨he, hall⟩ | ⟨p, -, hp, hfree, hbelow, he⟩
  · exact .inl ⟨fun p hp => hall p (Nat.zero_le _) (by omega), he⟩
  · exact .inr ⟨p, ⟨by omega, by simp [Used, hfree], fun q hq => hbelow q (Nat.zero_le _) hq⟩, he⟩

theorem totalPages_alloc (m : Pmm.State) : (pmmAllocPage m).1.totalPages = m.totalPages := by
  rcases alloc_cases m with ⟨-, he⟩ | ⟨p, -, he⟩
  · rw [he]
  · rw [he]
    rfl

theorem used_alloc (h : Used m q) : Used (pmmAllocPage m).1 q := by
  rcases alloc_cases m with ⟨-, he⟩ | ⟨p, -, he⟩
  · rwa [he]
  · rw [he]
    exact Vmm.used_setUsed.mpr (.inl h)

theorem used_allocPages (h : Used m q) : Used (allocPages n m) q := by
  induction n generalizing m with
  | zero => exact h
  | succ n ih => exact ih (used_alloc h)

theorem lt_of_used_alloc (h : Used (pmmAllocPage m).1 q) (hfree : ¬ Used m q) :
    q < m.totalPages := by
  rcases alloc_cases m with ⟨-, he⟩ | ⟨p, hp, he⟩
  · rw [he] at h
    exact absurd h hfree
  · rw [he, Vmm.used_setUsed] at h
    obtain h | rfl := h
    · exact absurd h hfree
    · exact hp.lt

theorem lt_of_used_allocPages (h : Used (allocPages n m) q) (hfree : ¬ Used m q) :
    q < m.totalPages := by
  induction n generalizing m with
  | zero => exact absurd h hfree
  | succ n ih =>
    by_cases hone : Used (pmmAllocPage m).1 q
    · exact lt_of_used_alloc hone hfree
    · exact totalPages_alloc m ▸ ih h hone

theorem full_allocPages (h : ∀ q < p, Used m q) :
    ∀ q < p + n, q < m.totalPages → Used (allocPages n m) q := by
  induction n generalizing m p with
  | zero => exact fun q hq _ => h q hq
  | succ n ih =>
    intro q hq htotal
    rw [← totalPages_alloc m] at htotal
    by_cases hp : p < m.totalPages
    · refine ih (p := p + 1) (fun r hr => ?_) q (by omega) htotal
      by_cases hused : Used m r
      · exact used_alloc hused
      · obtain rfl : r = p := by
          by_contra hne
          exact hused (h r (by omega))
        rcases alloc_cases m with ⟨hall, -⟩ | ⟨first, hfirst, he⟩
        · exact absurd (hall r hp) hused
        · obtain rfl : first = r := by
            by_contra hne
            rcases Nat.lt_or_gt_of_ne hne with hlt | hlt
            · exact hfirst.free (h first hlt)
            · exact hused (hfirst.below r hlt)
          rw [he]
          exact Vmm.used_setUsed.mpr (.inr rfl)
    · rw [totalPages_alloc] at htotal
      exact used_allocPages (n := n + 1) (h q (by omega))

theorem FirstFree.unique (h : FirstFree m p) (h' : FirstFree m q) : p = q := by
  by_contra hne
  rcases Nat.lt_or_gt_of_ne hne with hlt | hlt
  · exact h.free (h'.below p hlt)
  · exact h'.free (h.below q hlt)

theorem FirstFree.alloc (h : FirstFree m p) :
    pmmAllocPage m = (Pmm.pmmSetPageUsed m p, p * pageSize) := by
  rcases alloc_cases m with ⟨hall, -⟩ | ⟨q, hq, he⟩
  · exact absurd (hall p h.lt) h.free
  · rw [h.unique hq]
    exact he

theorem FirstFree.used_reading_iff (h : FirstFree m p) {j : Nat} (hj : j < 16) :
    ¬ Used m (p + j) ∧ Used (allocPages 16 m) (p + j) ↔
      p + j < m.totalPages ∧ ¬ Used m (p + j) := by
  constructor
  · rintro ⟨hfree, hused⟩
    exact ⟨lt_of_used_allocPages hused hfree, hfree⟩
  · rintro ⟨hlt, hfree⟩
    exact ⟨hfree, full_allocPages h.below _ (by omega) hlt⟩

/-! ### When a call is safe -/

theorem elfLoadFile_of_firstFree (h : FirstFree m p) (hp : p ≠ 0) (bytesRead loadResult : Int)
    (loadPmm : Pmm.State → Pmm.State) :
    elfLoadFile m true bytesRead loadResult loadPmm =
      if bytesRead ≤ 0 then
        { result := -1, final := allocPages 16 m, reading := allocPages 16 m, buffer := p * pageSize }
      else
        { result := loadResult, final := loadPmm (allocPages 16 m), reading := allocPages 16 m
          buffer := p * pageSize, stored := bytesRead.toNat } := by
  have hbuffer : p * pageSize ≠ 0 := Nat.mul_ne_zero hp (by decide)
  have hsixteen : allocPages 16 m = allocPages 15 (Pmm.pmmSetPageUsed m p) := by
    rw [allocPages, h.alloc]
  simp only [elfLoadFile, h.alloc, hsixteen, hbuffer, Bool.not_true, Bool.false_eq_true, if_false]

/-- No page is given back, so a call that has taken one is safe only if it succeeds. -/
theorem FirstFree.not_undone (h : FirstFree m p) {o : Outcome} (hsafe : Safe m o)
    (hreading : Used o.reading p) (hfinal : Used o.final p) : o.result = 0 := by
  by_contra hfail
  exact hsafe.undone hfail p h.free hreading hfinal

variable {bytesRead loadResult : Int} {loadPmm : Pmm.State → Pmm.State}

theorem FirstFree.succeeds (h : FirstFree m p) (hp : p ≠ 0)
    (hload : ∀ m p, Used m p → Used (loadPmm m) p)
    (hsafe : Safe m (elfLoadFile m true bytesRead loadResult loadPmm)) :
    0 < bytesRead ∧ loadResult = 0 := by
  have hused : Used (allocPages 16 m) p := full_allocPages h.below p (by omega) h.lt
  rw [elfLoadFile_of_firstFree h hp] at hsafe
  generalize allocPages 16 m = reading at hused hsafe
  by_cases hnone : bytesRead ≤ 0
  · rw [if_pos hnone] at hsafe
    have hfailed : (-1 : Int) ≠ 0 := by decide
    exact absurd (h.not_undone hsafe hused hused) hfailed
  · rw [if_neg hnone] at hsafe
    exact ⟨by omega, h.not_undone hsafe hused (hload _ p hused)⟩

theorem page_of_byte (p i : Nat) : (p * pageSize + i) / pageSize = p + i / pageSize := by
  rw [Nat.add_comm, Nat.add_mul_div_right _ _ (by decide), Nat.add_comm]

theorem FirstFree.free_of_safe (h : FirstFree m p) (hp : p ≠ 0) (hread : bytesRead ≤ 65536)
    (hsafe : Safe m (elfLoadFile m true bytesRead loadResult loadPmm)) {j : Nat}
    (hj : j * pageSize < bytesRead) : p + j < m.totalPages ∧ ¬ Used m (p + j) := by
  have hrange : 0 < bytesRead ∧ j < 16 := by
    simp only [pageSize] at hj
    omega
  have hreading := h.used_reading_iff hrange.2
  rw [elfLoadFile_of_firstFree h hp, if_neg (by omega)] at hsafe
  generalize allocPages 16 m = reading at hreading hsafe
  have hinside := hsafe.inside (j * pageSize) (by dsimp only; omega)
  dsimp only at hinside
  rw [page_of_byte, Nat.mul_div_cancel _ (by decide)] at hinside
  exact hreading.mp hinside

/-- A call is safe just when it takes no page, or when it succeeds and the pages that the file
fills from the lowest free one on are all free. -/
theorem load_file_safe_iff (m : Pmm.State) (opened : Bool) (hread : bytesRead ≤ 65536)
    (loadResult : Int) (hload : ∀ m p, Used m p → Used (loadPmm m) p) :
    Safe m (elfLoadFile m opened bytesRead loadResult loadPmm) ↔
      opened = false ∨ Exhausted m ∨ ∃ p, FirstFree m p ∧ p ≠ 0 ∧ 0 < bytesRead ∧ loadResult = 0 ∧
        ∀ j : Nat, j * pageSize < bytesRead → p + j < m.totalPages ∧ ¬ Used m (p + j) := by
  have hnothing : Safe m { result := -1, final := m, reading := m } :=
    ⟨fun i hi => (nomatch hi), fun _ p hfree hused => absurd hused hfree⟩
  cases opened with
  | false => exact ⟨fun _ => .inl rfl, fun _ => hnothing⟩
  | true =>
    rw [or_iff_right (by decide)]
    rcases alloc_cases m with ⟨hall, he⟩ | ⟨p, hp, he⟩
    · refine ⟨fun _ => .inl hall, fun _ => ?_⟩
      have hempty : elfLoadFile m true bytesRead loadResult loadPmm =
          { result := -1, final := m, reading := m } := by
        simp [elfLoadFile, he]
      rw [hempty]
      exact hnothing
    rw [or_iff_right fun hall => hp.free (hall p hp.lt)]
    by_cases hzero : p = 0
    · -- page 0 is taken and its address read as a failure
      subst hzero
      have hlost : elfLoadFile m true bytesRead loadResult loadPmm =
          { result := -1, final := Pmm.pmmSetPageUsed m 0, reading := Pmm.pmmSetPageUsed m 0 } := by
        simp [elfLoadFile, he]
      have hset : Used (Pmm.pmmSetPageUsed m 0) 0 := Vmm.used_setUsed.mpr (.inr rfl)
      have hfailed : (-1 : Int) ≠ 0 := by decide
      rw [hlost]
      refine ⟨fun hsafe => absurd (hp.not_undone hsafe hset hset) hfailed, ?_⟩
      rintro ⟨q, hq, hne, -⟩
      exact absurd (hq.unique hp) hne
    constructor
    · intro hsafe
      obtain ⟨hpos, hloaded⟩ := hp.succeeds hzero hload hsafe
      exact ⟨p, hp, hzero, hpos, hloaded, fun j hj => hp.free_of_safe hzero hread hsafe hj⟩
    · rintro ⟨q, hq, -, hpos, hloaded, hall⟩
      obtain rfl := hq.unique hp
      have hreading {j : Nat} (hj : j < 16) := hq.used_reading_iff hj
      rw [elfLoadFile_of_firstFree hq hzero, if_neg (by omega)]
      generalize allocPages 16 m = reading at hreading
      refine ⟨fun i hi => ?_, fun hfail => absurd hloaded hfail⟩
      dsimp only at hi ⊢
      rw [page_of_byte]
      refine (hreading (by simp only [pageSize]; omega)).mpr (hall _ ?_)
      simp only [pageSize] at *
      omega

def fragmented : Pmm.State where
  memoryBitmap i := if i < 64 then 0xFF else if i = 64 then 0xFA else 0xFF
  totalPages := 520
  usedPages := 518

theorem fragmented_firstFree : FirstFree fragmented 512 :=
  ⟨by decide, by decide +kernel, by decide +kernel⟩

theorem short_file_safe : Safe fragmented (elfLoadFile fragmented true 4096 0 id) :=
  (load_file_safe_iff fragmented true (by decide) 0 fun _ _ h => h).mpr
    (.inr (.inr ⟨512, fragmented_firstFree, by decide, by decide, rfl, fun j hj => by
      obtain rfl : j = 0 := by simp only [pageSize] at hj; omega
      exact ⟨by decide, by decide +kernel⟩⟩))

/-- A file of 4097 bytes ends in page 513, which belongs to someone else; and when the image is
bad the two free pages are gone. -/
theorem longer_file_unsafe : ¬ Safe fragmented (elfLoadFile fragmented true 4097 0 id) ∧
    ¬ Safe fragmented (elfLoadFile fragmented true 4096 (-1) id) := by
  constructor
  · intro h
    have hfree := fragmented_firstFree.free_of_safe (by decide) (by decide) h (j := 1) (by decide)
    exact hfree.2 (by decide +kernel)
  · intro h
    have hloaded := (fragmented_firstFree.succeeds (by decide) (fun _ _ hused => hused) h).2
    exact absurd hloaded (by decide)

end TocinOS.ElfLoadFile

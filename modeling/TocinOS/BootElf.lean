import TocinOS.ElfFormat

/-! The kernel loaders `elf32_load` and `elf64_load` of `boot/uefi/tocinboot.c`. -/

namespace TocinOS.BootElf

open MemoryWords (Memory)
open ElfFormat

abbrev efiPageSize : Nat := 4096

structure Class where
  minSize : Nat
  ehdrSize : Nat
  phdrSize : Nat
  machine : Nat
  machineError : String
  ehdr : Memory → Nat → Ehdr
  phdr : Memory → Nat → Phdr
  headersExceed : Ehdr → Nat → Bool
  dataExceeds : Phdr → Nat → Bool
  wraps : Phdr → Bool

def elf32 : Class where
  minSize := 0
  ehdrSize := ehdrSize32
  phdrSize := phdrSize32
  machine := 3
  machineError := "ELF32 kernel is not EM_386"
  ehdr := ehdr32
  phdr := phdr32
  headersExceed eh size := size < eh.phoff + eh.phnum * eh.phentsize
  dataExceeds ph size := size < ph.offset + ph.filesz
  wraps _ := false

def elf64 : Class where
  minSize := ehdrSize64
  ehdrSize := ehdrSize64
  phdrSize := phdrSize64
  machine := 62
  machineError := "ELF64 kernel is not EM_X86_64"
  ehdr := ehdr64
  phdr := phdr64
  headersExceed eh size := size < eh.phoff || size - eh.phoff < eh.phnum * eh.phentsize
  dataExceeds ph size := size < ph.offset || size - ph.offset < ph.filesz
  wraps ph := 2 ^ 64 - 1 - ph.paddr < ph.memsz

/-- Memory, the reads of the file by offset and length, the stores by address and length,
and the pages claimed from the firmware by address and length. -/
structure Loader where
  memory : Memory
  reads : List (Nat × Nat) := []
  stores : List (Nat × Nat) := []
  claimed : List (Nat × Nat) := []

structure Info where
  kernelPhysBase : Nat
  kernelPhysEnd : Nat
  kernelEntry : Nat
  deriving DecidableEq

section

variable (c : Class) (img : Nat)

def readPhdr (eh : Ehdr) (i : Nat) (s : Loader) : Phdr × Loader :=
  let off := eh.phoff + i * eh.phentsize
  (c.phdr s.memory (img + off), { s with reads := (off, c.phdrSize) :: s.reads })

def loadable (ph : Phdr) : Bool := ph.type = ptLoad && ph.memsz ≠ 0

def scanRound (size : Nat) (eh : Ehdr) (acc : Nat × Nat × Loader) (i : Nat) :
    Except String (Nat × Nat × Loader) :=
  let (lo, hi, s) := acc
  let (ph, s) := readPhdr c img eh i s
  if !loadable ph then .ok (lo, hi, s)
  else if ph.memsz < ph.filesz then .error "PT_LOAD filesz > memsz"
  else if c.dataExceeds ph size then .error "PT_LOAD data exceeds file size"
  else if c.wraps ph then .error "PT_LOAD wraps physical address space"
  else
    let top := (ph.paddr + ph.memsz) % 2 ^ 64
    .ok (if ph.paddr < lo then ph.paddr else lo, if hi < top then top else hi, s)

def placeRound (eh : Ehdr) (s : Loader) (i : Nat) : Loader :=
  let (ph, s) := readPhdr c img eh i s
  if !loadable ph then s
  else
    { s with
      memory := placeBytes s.memory ph.paddr (img + ph.offset) ph.filesz ph.memsz
      reads := (ph.offset, ph.filesz) :: s.reads
      stores := (ph.paddr + ph.filesz, ph.memsz - ph.filesz) :: (ph.paddr, ph.filesz) :: s.stores }

def pageDown (a : Nat) : Nat := a / efiPageSize * efiPageSize

def pageUp (a : Nat) : Nat := (a + efiPageSize - 1) % 2 ^ 64 / efiPageSize * efiPageSize

/-- `firmware addr pages` tells whether `AllocatePages(AllocateAddress)` succeeds. The
header is read once: the file buffer does not change. -/
def elfLoad (firmware : Nat → Nat → Bool) (size : Nat) (memory : Memory) :
    Except String (Info × Loader) :=
  if size < c.minSize then .error "ELF64 kernel smaller than its header"
  else
    let eh := c.ehdr memory img
    let s : Loader := { memory, reads := [(0, c.ehdrSize)] }
    if eh.type ≠ 2 then .error "kernel is not ET_EXEC"
    else if eh.machine ≠ c.machine then .error c.machineError
    else if eh.phnum = 0 ∨ eh.phentsize < c.phdrSize then
      .error "kernel has no usable program headers"
    else if c.headersExceed eh size then .error "kernel program headers exceed file size"
    else
      match (List.range eh.phnum).foldlM (scanRound c img size eh) (2 ^ 64 - 1, 0, s) with
      | .error e => .error e
      | .ok (lo, hi, s) =>
        if hi ≤ lo then .error "kernel has no PT_LOAD segments"
        else
          let lo := pageDown lo
          let hi := pageUp hi
          if 0xFFFFFFFF + 1 < hi then .error "kernel span crosses 4 GiB"
          else
            let pages := (hi + 2 ^ 64 - lo) % 2 ^ 64 / efiPageSize
            if !firmware lo pages then .error "firmware owns part of kernel span"
            else
              let s := { s with claimed := [(lo, pages * efiPageSize)] }
              .ok (⟨lo, hi, eh.entry⟩, (List.range eh.phnum).foldl (placeRound c img eh) s)

end

def elf32Load := elfLoad elf32
def elf64Load := elfLoad elf64

/-! ### What the checks give -/

structure Checked (c : Class) : Prop where
  ehdrSize : ∀ size, ehdrSize32 ≤ size → ¬ size < c.minSize → c.ehdrSize ≤ size
  phdr_congr : ∀ m m' a, (∀ x, a ≤ x → x < a + c.phdrSize → m' x = m x) → c.phdr m' a = c.phdr m a
  headers : ∀ eh size, c.headersExceed eh size = false → eh.phoff + eh.phnum * eh.phentsize ≤ size
  data : ∀ ph size, c.dataExceeds ph size = false → ph.offset + ph.filesz ≤ size
  noWrap : ∀ m a, c.wraps (c.phdr m a) = false →
    (c.phdr m a).paddr + (c.phdr m a).memsz < 2 ^ 64

theorem checked_elf32 : Checked elf32 where
  ehdrSize _ h _ := h
  phdr_congr _ _ _ h := phdr32_congr h
  headers eh size h := by
    have := of_decide_eq_false h
    omega
  data ph size h := by
    have := of_decide_eq_false h
    omega
  noWrap m a _ := by
    have hpaddr := LittleEndian.get_lt m (a + 12) 4
    have hmemsz := LittleEndian.get_lt m (a + 20) 4
    simp only [elf32, phdr32]
    omega

theorem checked_elf64 : Checked elf64 where
  ehdrSize _ _ h := Nat.le_of_not_lt h
  phdr_congr _ _ _ h := phdr64_congr h
  headers eh size h := by
    simp only [elf64, Bool.or_eq_false_iff, decide_eq_false_iff_not] at h
    omega
  data ph size h := by
    simp only [elf64, Bool.or_eq_false_iff, decide_eq_false_iff_not] at h
    omega
  noWrap m a h := by
    have hpaddr := LittleEndian.get_lt m (a + 24) 8
    simp only [elf64, decide_eq_false_iff_not, phdr64] at h ⊢
    omega

/-! ### The two passes -/

variable {n lo hi : Nat} {s : Loader}

section Passes

variable {c : Class} {img size : Nat} {m : Memory} {eh : Ehdr}

def segment (c : Class) (img : Nat) (m : Memory) (eh : Ehdr) (i : Nat) : Phdr :=
  c.phdr m (img + (eh.phoff + i * eh.phentsize))

theorem header_inside (hsize : c.phdrSize ≤ eh.phentsize)
    (hfit : eh.phoff + eh.phnum * eh.phentsize ≤ size) {i : Nat} (hi : i < eh.phnum) :
    eh.phoff + i * eh.phentsize + c.phdrSize ≤ size := by
  have := Nat.mul_le_mul_right eh.phentsize (Nat.succ_le_of_lt hi)
  rw [Nat.succ_mul] at this
  omega

def Within (size lo hi : Nat) (ph : Phdr) : Prop :=
  ph.filesz ≤ ph.memsz ∧ ph.offset + ph.filesz ≤ size ∧ lo ≤ ph.paddr ∧ ph.paddr + ph.memsz ≤ hi

structure Scanned (c : Class) (img size : Nat) (m : Memory) (eh : Ehdr) (n lo hi : Nat)
    (s : Loader) : Prop where
  memory : s.memory = m
  stores : s.stores = []
  reads : ∀ r ∈ s.reads, r.1 + r.2 ≤ size
  checked : ∀ i < n, loadable (segment c img m eh i) → Within size lo hi (segment c img m eh i)
  top_lt : hi < 2 ^ 64
  attained : hi = 0 ∨ ∃ i < n, loadable (segment c img m eh i) ∧
    hi = (segment c img m eh i).paddr + (segment c img m eh i).memsz

theorem Scanned.round (hc : Checked c) (hsize : c.phdrSize ≤ eh.phentsize)
    (hfit : eh.phoff + eh.phnum * eh.phentsize ≤ size) {lo' hi' : Nat} {s' : Loader}
    (hn : n < eh.phnum) (h : Scanned c img size m eh n lo hi s)
    (he : scanRound c img size eh (lo, hi, s) n = .ok (lo', hi', s')) :
    Scanned c img size m eh (n + 1) lo' hi' s' := by
  have hread : ∀ r ∈ (readPhdr c img eh n s).2.reads, r.1 + r.2 ≤ size := by
    intro r hr
    rcases List.mem_cons.mp hr with rfl | hr
    · exact header_inside hsize hfit hn
    · exact h.reads r hr
  have hph : (readPhdr c img eh n s).1 = segment c img m eh n := by
    rw [segment, ← h.memory]
    rfl
  simp only [scanRound, hph] at he
  by_cases hload : loadable (segment c img m eh n) = true
  · simp only [hload, Bool.not_true, Bool.false_eq_true, if_false] at he
    split at he
    · exact nomatch he
    next hfile =>
    split at he
    · exact nomatch he
    next hdata =>
    split at he
    · exact nomatch he
    next hwrap =>
    have hdata := hc.data _ _ (eq_false_of_ne_true hdata)
    have hwrap : (segment c img m eh n).paddr + (segment c img m eh n).memsz < 2 ^ 64 :=
      hc.noWrap _ _ (eq_false_of_ne_true hwrap)
    simp only [Except.ok.injEq, Prod.mk.injEq, Nat.mod_eq_of_lt hwrap] at he
    obtain ⟨rfl, rfl, rfl⟩ := he
    refine ⟨h.memory, h.stores, hread, fun i hi hl => ?_, ?_, ?_⟩
    · rcases Nat.lt_succ_iff_lt_or_eq.mp hi with hi | rfl
      · obtain ⟨hfile, hdata, hlo, hhi⟩ := h.checked i hi hl
        exact ⟨hfile, hdata, by split_ifs <;> omega, by split_ifs <;> omega⟩
      · exact ⟨by omega, hdata, by split_ifs <;> omega, by split_ifs <;> omega⟩
    · have := h.top_lt
      split_ifs <;> omega
    · right
      by_cases htop : hi < (segment c img m eh n).paddr + (segment c img m eh n).memsz
      · exact ⟨n, Nat.lt_succ_self n, hload, if_pos htop⟩
      · rw [if_neg htop]
        rcases h.attained with hzero | ⟨i, hi, hrest⟩
        · simp only [loadable, Bool.and_eq_true, decide_eq_true_eq] at hload
          omega
        · exact ⟨i, Nat.lt_succ_of_lt hi, hrest⟩
  · simp only [hload, Bool.not_false, if_true, Except.ok.injEq, Prod.mk.injEq] at he
    obtain ⟨rfl, rfl, rfl⟩ := he
    refine ⟨h.memory, h.stores, hread, fun i hi hl => ?_, h.top_lt, ?_⟩
    · rcases Nat.lt_succ_iff_lt_or_eq.mp hi with hi | rfl
      · exact h.checked i hi hl
      · exact absurd hl hload
    · rcases h.attained with hzero | ⟨i, hi, hrest⟩
      · exact .inl hzero
      · exact .inr ⟨i, Nat.lt_succ_of_lt hi, hrest⟩

theorem Scanned.run (hc : Checked c) (hsize : c.phdrSize ≤ eh.phentsize)
    (hfit : eh.phoff + eh.phnum * eh.phentsize ≤ size) {lo₀ : Nat} {s₀ : Loader} (hn : n ≤ eh.phnum)
    (h₀ : Scanned c img size m eh 0 lo₀ 0 s₀)
    (he : (List.range n).foldlM (scanRound c img size eh) (lo₀, 0, s₀) = .ok (lo, hi, s)) :
    Scanned c img size m eh n lo hi s := by
  induction n generalizing lo hi s with
  | zero =>
    obtain ⟨rfl, hrest⟩ := Prod.mk.inj (Except.ok.inj he)
    cases hrest
    exact h₀
  | succ n ih =>
    rw [List.range_succ, List.foldlM_append] at he
    cases hinit : (List.range n).foldlM (scanRound c img size eh) (lo₀, 0, s₀) with
    | error e =>
      rw [hinit] at he
      exact nomatch he
    | ok acc =>
      obtain ⟨lo₁, hi₁, s₁⟩ := acc
      rw [hinit] at he
      refine Scanned.round hc hsize hfit hn (ih (by omega) hinit) ?_
      change (List.foldlM (scanRound c img size eh) (lo₁, hi₁, s₁) [n]) = _ at he
      simp only [List.foldlM_cons, List.foldlM_nil, bind_pure] at he
      exact he

def DisjointSegments (c : Class) (img : Nat) (m : Memory) (eh : Ehdr) : Prop :=
  ∀ i < eh.phnum, ∀ j < eh.phnum, i ≠ j →
    let p := segment c img m eh i
    let q := segment c img m eh j
    loadable p → loadable q → p.paddr + p.memsz ≤ q.paddr ∨ q.paddr + q.memsz ≤ p.paddr

def Loaded (img : Nat) (m m' : Memory) (ph : Phdr) : Prop :=
  ∀ k < ph.memsz, m' (ph.paddr + k) = if k < ph.filesz then m (img + ph.offset + k) else 0

structure Stored (c : Class) (img size : Nat) (m : Memory) (eh : Ehdr) (lo hi n : Nat)
    (s : Loader) : Prop where
  file : ∀ x, img ≤ x → x < img + size → s.memory x = m x
  reads : ∀ r ∈ s.reads, r.1 + r.2 ≤ size
  stores : ∀ r ∈ s.stores, lo ≤ r.1 ∧ r.1 + r.2 ≤ hi
  claimed : s.claimed = [(lo, hi - lo)]
  loaded : DisjointSegments c img m eh → ∀ i < n,
    loadable (segment c img m eh i) → Loaded img m s.memory (segment c img m eh i)

theorem Stored.round (hc : Checked c) (hsize : c.phdrSize ≤ eh.phentsize)
    (hfit : eh.phoff + eh.phnum * eh.phentsize ≤ size)
    (hspan : ∀ x, lo ≤ x → x < hi → x < img ∨ img + size ≤ x)
    (hcheck : ∀ i < eh.phnum, loadable (segment c img m eh i) →
      Within size lo hi (segment c img m eh i))
    (hn : n < eh.phnum) (h : Stored c img size m eh lo hi n s) :
    Stored c img size m eh lo hi (n + 1) (placeRound c img eh s n) := by
  have hinside := header_inside hsize hfit hn
  have hread : ∀ r ∈ (readPhdr c img eh n s).2.reads, r.1 + r.2 ≤ size := by
    intro r hr
    rcases List.mem_cons.mp hr with rfl | hr
    · exact hinside
    · exact h.reads r hr
  have hph : (readPhdr c img eh n s).1 = segment c img m eh n :=
    hc.phdr_congr _ _ _ fun x hx hx' => h.file x (by omega) (by omega)
  by_cases hload : loadable (segment c img m eh n) = true
  · obtain ⟨hfile, hdata, hlo, hhi⟩ := hcheck n hn hload
    have hround : placeRound c img eh s n =
        { (readPhdr c img eh n s).2 with
          memory := placeBytes s.memory (segment c img m eh n).paddr
            (img + (segment c img m eh n).offset) (segment c img m eh n).filesz
            (segment c img m eh n).memsz
          reads := ((segment c img m eh n).offset, (segment c img m eh n).filesz) ::
            (readPhdr c img eh n s).2.reads
          stores := ((segment c img m eh n).paddr + (segment c img m eh n).filesz,
              (segment c img m eh n).memsz - (segment c img m eh n).filesz) ::
            ((segment c img m eh n).paddr, (segment c img m eh n).filesz) :: s.stores } := by
      simp only [placeRound, hph, hload, Bool.not_true, Bool.false_eq_true, if_false]
      rfl
    rw [hround]
    refine ⟨fun x hx hx' => ?_, ?_, ?_, h.claimed, fun hdisj i hi hl k hk => ?_⟩
    · have hout : x < (segment c img m eh n).paddr ∨
          (segment c img m eh n).paddr + (segment c img m eh n).memsz ≤ x := by
        by_contra hin
        have := hspan x (by omega) (by omega)
        omega
      exact (placeBytes_of_outside hfile hout).trans (h.file x hx hx')
    · intro r hr
      rcases List.mem_cons.mp hr with rfl | hr
      · exact hdata
      · exact hread r hr
    · intro r hr
      rcases List.mem_cons.mp hr with rfl | hr
      · dsimp only
        omega
      · rcases List.mem_cons.mp hr with rfl | hr
        · dsimp only
          omega
        · exact h.stores r hr
    · dsimp only
      rcases Nat.lt_succ_iff_lt_or_eq.mp hi with hlt | rfl
      · have := hdisj i (by omega) n hn (by omega) hl hload
        rw [placeBytes_of_outside hfile (by omega)]
        exact h.loaded hdisj i hlt hl k hk
      · rw [placeBytes_inside hfile hk]
        split_ifs with hkf
        · exact h.file _ (by omega) (by omega)
        · rfl
  · have hround : placeRound c img eh s n = (readPhdr c img eh n s).2 := by
      simp only [placeRound, hph, hload, Bool.not_false, if_true]
    rw [hround]
    refine ⟨h.file, hread, h.stores, h.claimed, fun hdisj i hi hl => ?_⟩
    rcases Nat.lt_succ_iff_lt_or_eq.mp hi with hlt | rfl
    · exact h.loaded hdisj i hlt hl
    · exact absurd hl hload

theorem Stored.run (hc : Checked c) (hsize : c.phdrSize ≤ eh.phentsize)
    (hfit : eh.phoff + eh.phnum * eh.phentsize ≤ size)
    (hspan : ∀ x, lo ≤ x → x < hi → x < img ∨ img + size ≤ x)
    (hcheck : ∀ i < eh.phnum, loadable (segment c img m eh i) →
      Within size lo hi (segment c img m eh i))
    (hn : n ≤ eh.phnum) (h : Stored c img size m eh lo hi 0 s) :
    Stored c img size m eh lo hi n ((List.range n).foldl (placeRound c img eh) s) := by
  induction n with
  | zero => exact h
  | succ n ih =>
    rw [List.range_succ, List.foldl_append]
    exact (ih (by omega)).round hc hsize hfit hspan hcheck hn

end Passes

/-! ### The result -/

/-- `AllocatePages` claims the pages it is asked for, none of which holds the file. -/
def ClaimsFreePages (firmware : Nat → Nat → Bool) (img size : Nat) : Prop :=
  ∀ addr pages, firmware addr pages = true →
    ∀ x, addr ≤ x → x < addr + pages * efiPageSize → x < img ∨ img + size ≤ x

structure Sound (c : Class) (img size : Nat) (m : Memory) (info : Info) (s : Loader) : Prop where
  reads : ∀ r ∈ s.reads, r.1 + r.2 ≤ size
  claimed : s.claimed = [(info.kernelPhysBase, info.kernelPhysEnd - info.kernelPhysBase)]
  stores : ∀ r ∈ s.stores, info.kernelPhysBase ≤ r.1 ∧ r.1 + r.2 ≤ info.kernelPhysEnd
  base_lt : info.kernelPhysBase < info.kernelPhysEnd
  end_le : info.kernelPhysEnd ≤ 2 ^ 32
  loaded : DisjointSegments c img m (c.ehdr m img) → ∀ i < (c.ehdr m img).phnum,
    (segment c img m (c.ehdr m img) i).type = ptLoad →
      Loaded img m s.memory (segment c img m (c.ehdr m img) i)

theorem pageDown_spec (a : Nat) : pageDown a ≤ a ∧ efiPageSize ∣ pageDown a :=
  ⟨Nat.div_mul_le_self a _, Nat.dvd_mul_left _ _⟩

theorem pageUp_spec {a : Nat} (h : a ≤ 2 ^ 64 - efiPageSize) :
    a ≤ pageUp a ∧ efiPageSize ∣ pageUp a := by
  refine ⟨?_, Nat.dvd_mul_left _ _⟩
  simp only [pageUp, efiPageSize] at *
  omega

theorem pageUp_wrap {a : Nat} (h : 2 ^ 64 - efiPageSize < a) (h' : a < 2 ^ 64) : pageUp a = 0 := by
  simp only [pageUp, efiPageSize] at *
  omega

theorem span_size {base top : Nat} (hbase : efiPageSize ∣ base) (htop : efiPageSize ∣ top)
    (h : base ≤ top) (hlt : top < 2 ^ 64) :
    (top + 2 ^ 64 - base) % 2 ^ 64 / efiPageSize * efiPageSize = top - base := by
  simp only [efiPageSize] at *
  omega

theorem Scanned.sound {c : Class} (hc : Checked c) {img size : Nat} {m : Memory}
    (hsize : c.phdrSize ≤ (c.ehdr m img).phentsize)
    (hfit : (c.ehdr m img).phoff + (c.ehdr m img).phnum * (c.ehdr m img).phentsize ≤ size)
    {base top entry : Nat} (h : Scanned c img size m (c.ehdr m img) (c.ehdr m img).phnum lo hi s)
    (hbase : base ≤ lo) (htop : hi ≤ top) (hlt : base < top) (hle : top ≤ 2 ^ 32)
    (hspan : ∀ x, base ≤ x → x < top → x < img ∨ img + size ≤ x) :
    Sound c img size m ⟨base, top, entry⟩
      ((List.range (c.ehdr m img).phnum).foldl (placeRound c img (c.ehdr m img))
        { s with claimed := [(base, top - base)] }) := by
  have hcheck : ∀ i < (c.ehdr m img).phnum, loadable (segment c img m (c.ehdr m img) i) →
      Within size base top (segment c img m (c.ehdr m img) i) := by
    intro i hi' hload
    obtain ⟨hfile, hdata, hlo, hhi⟩ := h.checked i hi' hload
    exact ⟨hfile, hdata, by omega, by omega⟩
  have hstored := Stored.run (s := { s with claimed := [(base, top - base)] }) hc hsize hfit
    hspan hcheck (Nat.le_refl _)
    ⟨fun x _ _ => congrFun h.memory x, h.reads, by simp [h.stores], rfl,
      fun _ i hi' => absurd hi' (Nat.not_lt_zero i)⟩
  refine ⟨hstored.reads, hstored.claimed, hstored.stores, hlt, hle, ?_⟩
  intro hdisj i hi' hload k hk
  refine hstored.loaded hdisj i hi' ?_ k hk
  simp only [loadable, hload, decide_true, Bool.true_and, decide_eq_true_eq]
  omega

def BelowLastPage (c : Class) (img : Nat) (m : Memory) : Prop :=
  ∀ i < (c.ehdr m img).phnum, loadable (segment c img m (c.ehdr m img) i) →
    (segment c img m (c.ehdr m img) i).paddr + (segment c img m (c.ehdr m img) i).memsz ≤
      2 ^ 64 - efiPageSize

/-- A successful load keeps its promise unless rounding up the end of the span wraps. -/
theorem elf_load_sound_iff {c : Class} (hclass : c = elf32 ∨ c = elf64)
    {firmware : Nat → Nat → Bool} {img size : Nat} {m : Memory} {info : Info} {s : Loader}
    (hmin : ehdrSize32 ≤ size) (hfirmware : ClaimsFreePages firmware img size)
    (h : elfLoad c img firmware size m = .ok (info, s)) :
    Sound c img size m info s ↔ BelowLastPage c img m := by
  have hc : Checked c := by
    rcases hclass with rfl | rfl
    · exact checked_elf32
    · exact checked_elf64
  simp only [elfLoad] at h
  split_ifs at h with hsmall htype hmachine hphdrs hexceed
  rw [Bool.not_eq_true] at hexceed
  have hfit := hc.headers _ _ hexceed
  have hsize : c.phdrSize ≤ (c.ehdr m img).phentsize := by omega
  split at h
  · exact nomatch h
  next lo hi s₁ hscan =>
  have hscanned := Scanned.run hc hsize hfit (Nat.le_refl _)
    (⟨rfl, rfl, by simpa using hc.ehdrSize size hmin hsmall, by simp,
      by decide, .inl rfl⟩ :
      Scanned c img size m (c.ehdr m img) 0 _ 0 _) hscan
  split_ifs at h with hempty hcross hclaim
  cases h
  rw [Bool.not_eq_true', Bool.not_eq_false] at hclaim
  constructor
  · intro hsound i hi' hload
    by_contra hlast
    -- the end of the span wraps to zero
    have hend := (hscanned.checked i hi' hload).2.2.2
    have hbase := hsound.base_lt
    rw [pageUp_wrap (by omega) hscanned.top_lt] at hbase
    exact Nat.not_lt_zero _ hbase
  · intro hbelow
    have hhi : hi ≤ 2 ^ 64 - efiPageSize := by
      rcases hscanned.attained with hzero | ⟨i, hi', hload, htop⟩
      · omega
      · rw [htop]
        exact hbelow i hi' hload
    obtain ⟨hdown, hdvd⟩ := pageDown_spec lo
    obtain ⟨hup, hdvd'⟩ := pageUp_spec hhi
    have hpages := span_size hdvd hdvd' (by omega) (by omega)
    rw [hpages]
    refine hscanned.sound hc hsize hfit hdown hup (by omega) (by omega) ?_
    intro x hx hx'
    refine hfirmware _ _ hclaim x hx ?_
    rw [hpages]
    omega

def fileAt (l : List (Nat × BitVec 8)) : Memory := fun x => (l.lookup (x - 0x200000)).getD 0

def smallKernel : Memory := fileAt
  [(16, 2), (18, 3), (28, 52), (42, 32), (44, 1),
    (52, 1), (56, 84), (66, 0x10), (68, 1), (72, 16), (84, 0x90)]

def onePage (free addr pages : Nat) : Bool := addr = free && pages = 1

theorem onePage_claims {free img size : Nat} (h : free + efiPageSize ≤ img ∨ img + size ≤ free) :
    ClaimsFreePages (onePage free) img size := by
  intro addr pages hclaim x hx hx'
  simp only [onePage, Bool.and_eq_true, decide_eq_true_eq] at hclaim
  obtain ⟨rfl, rfl⟩ := hclaim
  omega

theorem exists_loader {c : Class} {firmware : Nat → Nat → Bool} {img size : Nat} {m : Memory}
    {info : Info} (h : (elfLoad c img firmware size m).toOption.map Prod.fst = some info) :
    ∃ s, elfLoad c img firmware size m = .ok (info, s) := by
  cases heq : elfLoad c img firmware size m with
  | error e =>
    rw [heq] at h
    exact nomatch h
  | ok r =>
    rw [heq] at h
    cases h
    exact ⟨r.2, rfl⟩

theorem smallKernel_sound :
    ∃ s, elf32Load 0x200000 (onePage 0x100000) 85 smallKernel =
        .ok (⟨0x100000, 0x101000, 0⟩, s) ∧
      Sound elf32 0x200000 85 smallKernel ⟨0x100000, 0x101000, 0⟩ s := by
  obtain ⟨s, hs⟩ : ∃ s, elfLoad elf32 0x200000 (onePage 0x100000) 85 smallKernel =
      .ok (⟨0x100000, 0x101000, 0⟩, s) := exists_loader (by decide +kernel)
  refine ⟨s, hs, (elf_load_sound_iff (.inl rfl) (by decide) (onePage_claims (by decide)) hs).mpr ?_⟩
  have hsegment : ∀ i < (elf32.ehdr smallKernel 0x200000).phnum,
      (segment elf32 0x200000 smallKernel (elf32.ehdr smallKernel 0x200000) i).paddr +
        (segment elf32 0x200000 smallKernel (elf32.ehdr smallKernel 0x200000) i).memsz ≤
          2 ^ 64 - efiPageSize := by decide +kernel
  exact fun i hi _ => hsegment i hi

def topKernel : Memory := fileAt
  [(16, 2), (18, 62), (32, 64), (54, 56), (56, 1),
    (64, 1), (89, 0xF0), (90, 0xFF), (91, 0xFF), (92, 0xFF), (93, 0xFF), (94, 0xFF), (95, 0xFF),
    (104, 1)]

/-- The end of the span wraps to zero and so passes the test for 4 GiB. -/
theorem topKernel_unsound :
    ClaimsFreePages (onePage 0xFFFFFFFFFFFFF000) 0x200000 120 ∧
      ∃ s, elf64Load 0x200000 (onePage 0xFFFFFFFFFFFFF000) 120 topKernel =
          .ok (⟨0xFFFFFFFFFFFFF000, 0, 0⟩, s) ∧
        ¬ Sound elf64 0x200000 120 topKernel ⟨0xFFFFFFFFFFFFF000, 0, 0⟩ s := by
  refine ⟨onePage_claims (by decide), ?_⟩
  obtain ⟨s, hs⟩ : ∃ s, elfLoad elf64 0x200000 (onePage 0xFFFFFFFFFFFFF000) 120 topKernel =
      .ok (⟨0xFFFFFFFFFFFFF000, 0, 0⟩, s) := exists_loader (by decide +kernel)
  exact ⟨s, hs, fun h => Nat.not_lt_zero _ h.base_lt⟩

end TocinOS.BootElf

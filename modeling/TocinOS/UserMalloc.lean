import Mathlib

/-! `malloc` and `calloc` of `user/libc/libc.c` over the system call `SYS_BRK`, which `syscall.c`
answers with `process_brk` of `kernel/process.c`. A pointer is a word, and zero is the null
pointer. -/

namespace TocinOS.UserMalloc

abbrev Word := BitVec 32

structure Process where
  heapStart : Word
  heapEnd : Word
  stackBottom : Word

def Process.created : Process := ⟨0x08100000, 0x08100000, 0xBFFF0000⟩

def processBrk (current : Option Process) (addr : Word) : Word × Option Process :=
  match current with
  | none => (-1, none)
  | some p =>
    if addr = 0 then (p.heapEnd, some p)
    else if addr < p.heapStart ∨ p.stackBottom ≤ addr then (-1, some p)
    else (0, some { p with heapEnd := addr })

structure Program where
  heapStart : Word := 0
  heapEnd : Word := 0
  memory : Word → BitVec 8 := fun _ => 0
  current : Option Process

/-- A program at its start. `sys_spawn` runs it in the current process, with the break that earlier
programs left there. -/
def Program.spawned (b : Word) : Program := { current := some { Process.created with heapEnd := b } }

def brk (s : Program) (addr : Word) : Word × Program :=
  let (r, current) := processBrk s.current addr
  (r, { s with current := current })

def init (s : Program) : Program :=
  if s.heapStart = 0 then
    let (r, s) := brk s 0
    { s with heapStart := r, heapEnd := r }
  else s

def alignSize (size : Word) : Word := (size + 7) &&& ~~~7

def malloc (s : Program) (size : Word) : Word × Program :=
  let s := init s
  let result := s.heapEnd
  let s := { s with heapEnd := s.heapEnd + alignSize size }
  let (r, s) := brk s s.heapEnd
  if r ≠ s.heapEnd then (0, s) else (result, s)

def memset (s : Program) (ptr : Word) (value : BitVec 8) (size : Word) : Program :=
  { s with memory := fun a => if (a - ptr) < size then value else s.memory a }

def calloc (s : Program) (nmemb size : Word) : Word × Program :=
  let total := nmemb * size
  let (ptr, s) := malloc s total
  (ptr, if ptr ≠ 0 then memset s ptr 0 total else s)

/-! ### What a run of the allocator has to do -/

inductive Request where
  | malloc (size : Word)
  | calloc (nmemb size : Word)

def Request.bytes : Request → Nat
  | .malloc size => size.toNat
  | .calloc nmemb size => nmemb.toNat * size.toNat

def Request.run (s : Program) : Request → Word × Program
  | .malloc size => UserMalloc.malloc s size
  | .calloc nmemb size => UserMalloc.calloc s nmemb size

structure Block where
  start : Nat
  bytes : Nat

def roundUp (n : Nat) : Nat := (n + 7) / 8 * 8

def Block.end (b : Block) : Nat := b.start + roundUp b.bytes

/-- The end of the blocks returned so far, over the break `b` of the start. Calls that fail return no
block, so they do not move it. -/
def top (b : Word) (blocks : List Block) : Nat := blocks.foldr (fun b n => max b.end n) b.toNat

def Accepts (p : Process) (addr : Nat) : Prop :=
  p.heapStart.toNat ≤ addr ∧ addr < p.stackBottom.toNat

structure Served (b : Word) (blocks : List Block) (r : Request) (answer : Word × Program) : Prop where
  answered : Accepts .created (top b blocks + roundUp r.bytes) → answer.1 ≠ 0
  below : answer.1 ≠ 0 → ∃ p, answer.2.current = some p ∧
    answer.1.toNat + r.bytes ≤ p.heapEnd.toNat
  apart : answer.1 ≠ 0 → ∀ b ∈ blocks,
    b.start + b.bytes ≤ answer.1.toNat ∨ answer.1.toNat + r.bytes ≤ b.start

def Serves (b : Word) (s : Program) (blocks : List Block) : List Request → Prop
  | [] => True
  | r :: rs =>
    Served b blocks r (r.run s) ∧ Serves b (r.run s).2
      (if (r.run s).1 = 0 then blocks else ⟨(r.run s).1.toNat, r.bytes⟩ :: blocks) rs

/-! ### The answers -/

/-- How far a request moves the break that the library asks for. -/
def Request.aligned : Request → Word
  | .malloc size => alignSize size
  | .calloc nmemb size => alignSize (nmemb * size)

theorem alignSize_toNat (size : Word) : (alignSize size).toNat = (size.toNat + 7) % 2 ^ 32 / 8 * 8 := by
  have hmask : ~~~(7 : Word) = BitVec.allOnes 32 <<< 3 := by decide
  rw [alignSize, hmask, ← BitVec.shiftLeft_ushiftRight, BitVec.toNat_shiftLeft, BitVec.toNat_ushiftRight,
    Nat.shiftRight_eq_div_pow, Nat.shiftLeft_eq, BitVec.toNat_add]
  show (size.toNat + 7) % 2 ^ 32 / 8 * 8 % 2 ^ 32 = _
  omega

theorem Request.aligned_le (r : Request) : r.aligned.toNat ≤ r.bytes + 7 := by
  cases r with
  | malloc size =>
    rw [aligned, alignSize_toNat, bytes]
    omega
  | calloc nmemb size =>
    rw [aligned, alignSize_toNat, bytes, BitVec.toNat_mul]
    omega

theorem Request.aligned_mod (r : Request) : r.aligned.toNat % 8 = 0 := by
  cases r <;> exact (congrArg (· % 8) (alignSize_toNat _)).trans (Nat.mul_mod_left _ _)

/-- The next block would start at `e`, and the process has some break that the kernel accepted. -/
structure Reached (s : Program) (e : Word) : Prop where
  next : (init s).heapEnd = e
  process : ∃ p, s.current = some p ∧ p.heapStart = 0x08100000 ∧ p.stackBottom = 0xBFFF0000 ∧
    0x08100000 ≤ p.heapEnd.toNat ∧ p.heapEnd.toNat < 0xBFFF0000

variable {s : Program} {e : Word}

theorem Reached.init (h : Reached s e) : Reached (init s) e ∧ (UserMalloc.init s).heapStart ≠ 0 := by
  obtain ⟨hnext, p, hp, hstart, hbottom, hlow, hhigh⟩ := h
  have hne : p.heapEnd ≠ 0 := fun hz => by simp [hz] at hlow
  have hsome : (UserMalloc.init s).heapStart ≠ 0 ∧ (UserMalloc.init s).current = some p := by
    rw [UserMalloc.init]
    split_ifs with hzero
    · rw [brk, hp, processBrk, if_pos rfl]
      exact ⟨hne, rfl⟩
    · exact ⟨hzero, hp⟩
  refine ⟨⟨?_, p, hsome.2, hstart, hbottom, hlow, hhigh⟩, hsome.1⟩
  rw [UserMalloc.init, if_neg hsome.1]
  exact hnext

/-- The kernel answers a new break with zero and a refused one with minus one, so that the library
takes only the break at the top of the address space for accepted. -/
theorem brk_eq_iff (h : Reached s e) (hinit : s.heapStart ≠ 0) (next : Word) :
    ((brk s next).1 = next ↔ next = -1) ∧ Reached (brk s next).2 e := by
  obtain ⟨hnext, p, hp, hstart, hbottom, hlow, hhigh⟩ := h
  rw [UserMalloc.init, if_neg hinit] at hnext
  have hend {q : Option Process} : (UserMalloc.init { s with current := q }).heapEnd = e := by
    rw [UserMalloc.init, if_neg hinit]
    exact hnext
  rw [brk, hp, processBrk]
  by_cases hzero : next = 0
  · rw [if_pos hzero]
    refine ⟨iff_of_false (fun he => ?_) (by rw [hzero]; decide), hend, p, rfl, hstart, hbottom, hlow, hhigh⟩
    simp [show p.heapEnd = 0 from he.trans hzero] at hlow
  rw [if_neg hzero, hstart, hbottom]
  split_ifs with hrange
  · exact ⟨eq_comm, hend, p, rfl, hstart, hbottom, hlow, hhigh⟩
  · obtain ⟨hge, hlt⟩ := not_or.mp hrange
    have hge := BitVec.not_lt.mp hge
    have hlt := BitVec.not_le.mp hlt
    refine ⟨iff_of_false (fun he => hzero he.symm) fun he => ?_, hend, _, rfl, rfl, rfl, hge, hlt⟩
    rw [he] at hlt
    exact absurd hlt (by decide)

theorem malloc_answer (h : Reached s e) (size : Word) :
    (malloc s size).1 = (if e + alignSize size = -1 then e else 0) ∧
      Reached (malloc s size).2 (e + alignSize size) := by
  obtain ⟨⟨hnext, hprocess⟩, hinit⟩ := h.init
  rw [UserMalloc.init, if_neg hinit] at hnext
  rw [malloc]
  generalize UserMalloc.init s = t at hnext hprocess hinit
  subst hnext
  have hmoved : Reached { t with heapEnd := t.heapEnd + alignSize size } (t.heapEnd + alignSize size) := by
    refine ⟨?_, hprocess⟩
    rw [UserMalloc.init, if_neg hinit]
  obtain ⟨hiff, hreached⟩ := brk_eq_iff hmoved hinit (t.heapEnd + alignSize size)
  dsimp only
  have hsame : (brk { t with heapEnd := t.heapEnd + alignSize size } (t.heapEnd + alignSize size)).2.heapEnd =
    t.heapEnd + alignSize size := rfl
  rw [hsame]
  by_cases htop : t.heapEnd + alignSize size = -1
  · rw [if_neg (not_not_intro (hiff.mpr htop)), if_pos htop]
    exact ⟨rfl, hreached⟩
  · rw [if_pos fun he => htop (hiff.mp he), if_neg htop]
    exact ⟨rfl, hreached⟩

theorem calloc_answer (h : Reached s e) (nmemb size : Word) :
    (calloc s nmemb size).1 = (if e + alignSize (nmemb * size) = -1 then e else 0) ∧
      Reached (calloc s nmemb size).2 (e + alignSize (nmemb * size)) := by
  obtain ⟨hptr, hnext, hprocess⟩ := malloc_answer h (nmemb * size)
  rw [calloc]
  refine ⟨hptr, ?_⟩
  dsimp only
  split_ifs
  · refine ⟨?_, hprocess⟩
    rw [← hnext, memset, UserMalloc.init, UserMalloc.init]
    split_ifs <;> rfl
  · exact ⟨hnext, hprocess⟩

theorem Request.run_answer (h : Reached s e) (r : Request) :
    (r.run s).1 = (if e + r.aligned = -1 then e else 0) ∧ Reached (r.run s).2 (e + r.aligned) := by
  cases r with
  | malloc size => exact malloc_answer h size
  | calloc nmemb size => exact calloc_answer h nmemb size

theorem spawned_reached {b : Word} (hlow : 0x08100000 ≤ b.toNat) (hhigh : b.toNat < 0xBFFF0000) :
    Reached (.spawned b) b :=
  ⟨rfl, _, rfl, rfl, rfl, hlow, hhigh⟩

/-- No request leads to the break at the top of the address space, which the refusal is mistaken
for. -/
def AvoidsTop (e : Word) : List Request → Prop
  | [] => True
  | r :: rs => e + r.aligned ≠ -1 ∧ AvoidsTop (e + r.aligned) rs

theorem not_served_top {b : Word} {r : Request} {answer : Word × Program} (htop : e + r.aligned = -1)
    (he : e ≠ -1) (hanswer : answer.1 = e) (hreached : Reached answer.2 (e + r.aligned)) :
    ¬ Served b [] r answer := by
  obtain ⟨-, p, hp, -, -, -, hhigh⟩ := hreached
  have hle := r.aligned_le
  have hmod := r.aligned_mod
  have hsum := congrArg BitVec.toNat htop
  rw [BitVec.toNat_add, show (-1 : Word).toNat = 2 ^ 32 - 1 from rfl] at hsum
  have hlt := e.isLt
  have hlt' := r.aligned.isLt
  intro h
  have hne : answer.1 ≠ 0 := by
    rw [hanswer]
    rintro rfl
    rw [show (0 : Word).toNat = 0 from rfl] at hsum
    omega
  obtain ⟨q, hq, hbelow⟩ := h.below hne
  rw [hp, Option.some.injEq] at hq
  rw [← hq, hanswer] at hbelow
  omega

theorem served_iff {b : Word} {r : Request} {answer : Word × Program} (hlow : 0x08100000 ≤ b.toNat)
    (hnull : answer.1 = 0) : Served b [] r answer ↔ 0xBFFF0000 ≤ b.toNat + roundUp r.bytes := by
  have hfits : Accepts .created (top b [] + roundUp r.bytes) ↔ ¬ 0xBFFF0000 ≤ b.toNat + roundUp r.bytes := by
    rw [Accepts, top, List.foldr_nil]
    show 0x08100000 ≤ b.toNat + roundUp r.bytes ∧ b.toNat + roundUp r.bytes < 0xBFFF0000 ↔ _
    omega
  constructor
  · intro h
    by_contra hno
    exact h.answered (hfits.mpr hno) hnull
  · intro hlarge
    exact ⟨fun h => absurd hlarge (hfits.mp h), fun hne => absurd hnull hne, fun hne => absurd hnull hne⟩

theorem serves_iff {b : Word} (hlow : 0x08100000 ≤ b.toNat) (h : Reached s e) (he : e ≠ -1)
    (rs : List Request) : Serves b s [] rs ↔
      (∀ r ∈ rs, 0xBFFF0000 ≤ b.toNat + roundUp r.bytes) ∧ AvoidsTop e rs := by
  induction rs generalizing s e with
  | nil => simp [Serves, AvoidsTop]
  | cons r rs ih =>
    obtain ⟨hanswer, hreached⟩ := r.run_answer h
    rw [Serves, AvoidsTop]
    by_cases htop : e + r.aligned = -1
    · rw [if_pos htop] at hanswer
      exact iff_of_false (fun hs => not_served_top htop he hanswer hreached hs.1)
        fun hs => hs.2.1 htop
    · rw [if_neg htop] at hanswer
      rw [if_pos hanswer, served_iff hlow hanswer, ih hreached htop, List.forall_mem_cons]
      tauto

/-- A program's requests are served exactly if the kernel could serve none of them, as each one asks
for more than what is left of the heap, and the library never takes a refusal for an accepted break. -/
theorem requests_served_iff {b : Word} (hlow : 0x08100000 ≤ b.toNat) (hhigh : b.toNat < 0xBFFF0000)
    (rs : List Request) : Serves b (.spawned b) [] rs ↔
      (∀ r ∈ rs, 0xBFFF0000 ≤ b.toNat + roundUp r.bytes) ∧ AvoidsTop b rs := by
  refine serves_iff hlow (spawned_reached hlow hhigh) (fun he => ?_) rs
  rw [he] at hhigh
  exact absurd hhigh (by decide)

theorem large_requests_served :
    Serves 0x80000000 (.spawned 0x80000000) [] [.malloc 0x40000000, .calloc 0x10000 0x10000] := by
  refine (requests_served_iff (by decide) (by decide) _).mpr ⟨by decide, ?_⟩
  rw [AvoidsTop, AvoidsTop, AvoidsTop]
  decide

/-- Whatever a program has asked for, its next request is answered by the null pointer, unless the
break it started with is one below a multiple of eight. -/
theorem requests_answered_null {b : Word} (hlow : 0x08100000 ≤ b.toNat) (hhigh : b.toNat < 0xBFFF0000)
    (hmod : b.toNat % 8 ≠ 7) (rs : List Request) (r : Request) :
    (r.run (rs.foldl (fun s r => (r.run s).2) (.spawned b))).1 = 0 := by
  have hstep {e : Word} (he : e.toNat % 8 ≠ 7) (r : Request) :
      e + r.aligned ≠ -1 ∧ (e + r.aligned).toNat % 8 ≠ 7 := by
    have hmul := r.aligned_mod
    have hsum : (e + r.aligned).toNat % 8 ≠ 7 := by
      rw [BitVec.toNat_add]
      omega
    exact ⟨fun htop => hsum (by rw [htop]; rfl), hsum⟩
  have hreached : ∃ e, Reached (rs.foldl (fun s (r : Request) => (r.run s).2) (.spawned b)) e ∧
      e.toNat % 8 ≠ 7 := by
    refine List.foldlRecOn (motive := fun s => ∃ e, Reached s e ∧ e.toNat % 8 ≠ 7) rs _
      ⟨b, spawned_reached hlow hhigh, hmod⟩ fun s hs r _ => ?_
    obtain ⟨e, he, hmod⟩ := hs
    exact ⟨_, (r.run_answer he).2, (hstep hmod r).2⟩
  obtain ⟨e, he, hmod⟩ := hreached
  exact (r.run_answer he).1.trans (if_neg (hstep hmod r).1)

theorem third_request_answered_null :
    ((Request.malloc 24).run
      ([Request.malloc 1, .calloc 3 8].foldl (fun s r => (r.run s).2) (.spawned 0x08100100))).1 = 0 :=
  requests_answered_null (by decide) (by decide) (by decide) [.malloc 1, .calloc 3 8] (.malloc 24)

/-- The kernel moves the break for one byte, and `malloc` returns the null pointer. -/
theorem one_byte_not_served : ¬ Serves 0x08100000 (.spawned 0x08100000) [] [.malloc 1] := by
  rw [Serves]
  intro h
  exact h.1.answered ⟨by decide, by decide⟩ (by decide)

end TocinOS.UserMalloc

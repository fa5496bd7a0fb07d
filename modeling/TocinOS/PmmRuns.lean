import TocinOS.Pmm

/-! The bitmap records exactly the reserved and the outstanding pages, for every
boot information and after any calls that free only pages they were given. -/

namespace TocinOS.Pmm

structure Counts (s : State) (used : Nat → Prop) : Prop where
  total : s.totalPages = maxPages
  bits : ∀ p < maxPages, Bitmap.test s.memoryBitmap p = true ↔ used p
  count : s.usedPages = Bitmap.count maxPages s.memoryBitmap

variable {p : Nat}

namespace Counts

variable {s : State} {used used' : Nat → Prop}

theorem congr (h : Counts s used) (hu : ∀ p < maxPages, used p ↔ used' p) : Counts s used' where
  total := h.total
  bits := fun p hp => (h.bits p hp).trans (hu p hp)
  count := h.count

theorem not_test (h : Counts s used) (hp : p < maxPages) (hu : ¬ used p) :
    Bitmap.test s.memoryBitmap p = false :=
  Bool.eq_false_iff.mpr fun ht => hu ((h.bits p hp).mp ht)

theorem setUsed (h : Counts s used) (hp : p < maxPages) (hu : ¬ used p) :
    Counts (pmmSetPageUsed s p) (fun q => used q ∨ q = p) where
  total := h.total
  bits := by
    intro q hq
    simp [pmmSetPageUsed, Bitmap.test_set, h.bits q hq]
  count := by
    have hfree := h.not_test hp hu
    have hlt := Bitmap.count_lt hp hfree
    have hcount := h.count
    simp only [pmmSetPageUsed, Bitmap.count_set hp hfree]
    simp only [maxPages, memorySize, pageSize] at hlt hcount ⊢
    omega

theorem clearUsed (h : Counts s used) (hp : p < maxPages) (hu : used p) :
    Counts (pmmFreePage s (p * pageSize)) (fun q => used q ∧ q ≠ p) := by
  have hpage : p * pageSize / pageSize = p := Nat.mul_div_cancel p (by decide)
  have htest : Bitmap.test s.memoryBitmap p = true := (h.bits p hp).mpr hu
  simp only [pmmFreePage, hpage, htest, if_true]
  constructor
  · exact h.total
  · intro q hq
    simp [Bitmap.test_clear, h.bits q hq]
  · have hclear := Bitmap.count_clear hp htest
    have hle := Bitmap.count_le maxPages s.memoryBitmap
    have hcount := h.count
    simp only [maxPages, memorySize, pageSize] at hclear hle hcount ⊢
    omega

theorem reservePage (h : Counts s used) (hp : p < maxPages) :
    Counts (reservePage s p) (fun q => used q ∨ q = p) := by
  unfold Pmm.reservePage
  cases ht : Bitmap.test s.memoryBitmap p with
  | false => exact h.setUsed hp (fun hu => by simp [(h.bits p hp).mpr hu] at ht)
  | true =>
    apply h.congr
    intro q _
    refine ⟨Or.inl, ?_⟩
    rintro (hu | rfl)
    · exact hu
    · exact (h.bits q hp).mp ht

theorem reservePages {l : List Nat} (hl : ∀ p ∈ l, p < maxPages) (h : Counts s used) :
    Counts (l.foldl Pmm.reservePage s) (fun q => used q ∨ q ∈ l) := by
  induction l generalizing s used with
  | nil => simpa using h
  | cons p l ih =>
    have hstep := h.reservePage (hl p List.mem_cons_self)
    apply (ih (fun q hq => hl q (List.mem_cons_of_mem p hq)) hstep).congr
    intro q _
    simp only [List.mem_cons, or_assoc]

end Counts

theorem setLowPages {n : Nat} (hn : n ≤ maxPages) {s : State} (h : Counts s (fun _ => False)) :
    Counts ((List.range n).foldl pmmSetPageUsed s) (· < n) := by
  induction n with
  | zero => simpa using h
  | succ n ih =>
    have hrec := ih (Nat.le_of_succ_le hn)
    simp only [List.range_succ, List.foldl_append, List.foldl_cons, List.foldl_nil]
    apply (hrec.setUsed hn (Nat.lt_irrefl n)).congr
    intro q _
    exact (Nat.lt_succ_iff_lt_or_eq).symm

theorem pmmInit_counts (s : State) : Counts (pmmInit s) (· < lowPages) := by
  apply setLowPages (by decide)
  have hzero : ∀ p < maxPages,
      Bitmap.test (fun i => if i < bitmapSize then 0#8 else s.memoryBitmap i) p = false := by
    intro p hp
    have hbyte : p / 8 < bitmapSize := by
      simp only [bitmapSize, maxPages, memorySize, pageSize] at hp ⊢
      omega
    simp [Bitmap.test_eq, hbyte]
  refine ⟨rfl, fun p hp => by simp [hzero p hp], ?_⟩
  symm
  apply List.countP_eq_zero.mpr
  intro p hp
  simp [hzero p (List.mem_range.mp hp)]

def Overlaps (base length page : Nat) : Prop :=
  ∃ x, x / pageSize = page ∧ base ≤ x ∧ x < base + length

theorem overlaps_iff {base length page : Nat} :
    Overlaps base length page ↔
      0 < length ∧ base < (page + 1) * pageSize ∧ page * pageSize < base + length := by
  constructor
  · rintro ⟨x, hx, hb, hl⟩
    simp only [pageSize] at hx ⊢
    omega
  · rintro ⟨h0, hb, hl⟩
    refine ⟨max base (page * pageSize), ?_, ?_, ?_⟩ <;> simp only [pageSize] at hb hl ⊢ <;> omega

theorem clamp_eq (base length : BitVec 64) :
    (if base + length < base ∨ memorySize < (base + length).toNat then memorySize
      else (base + length).toNat) = min (base.toNat + length.toNat) memorySize := by
  have hb := base.isLt
  have hl := length.isLt
  simp only [BitVec.lt_def, BitVec.toNat_add, memorySize]
  split_ifs <;> omega

theorem Counts.reserveRange {s : State} {used : Nat → Prop} (h : Counts s used)
    (base length : BitVec 64) :
    Counts (pmmReserveRange s base length)
      (fun p => used p ∨ Overlaps base.toNat length.toNat p) := by
  unfold pmmReserveRange
  split_ifs with hskip
  · apply h.congr
    intro p hp
    refine ⟨Or.inl, ?_⟩
    rintro (hu | hover)
    · exact hu
    · obtain ⟨h0, hlt, _⟩ := overlaps_iff.mp hover
      rcases hskip with rfl | hskip
      · simp at h0
      · simp only [maxPages, memorySize, pageSize] at *
        omega
  · simp only [clamp_eq]
    obtain ⟨hlength, hbase⟩ := not_or.mp hskip
    have hpos : 0 < length.toNat := Nat.pos_of_ne_zero fun h0 => hlength (BitVec.eq_of_toNat_eq h0)
    apply (h.reservePages ?_).congr
    · intro p _
      rw [overlaps_iff, List.mem_range'_1]
      simp only [memorySize, pageSize, maxPages] at *
      apply or_congr_right
      omega
    · intro p hp
      rw [List.mem_range'_1] at hp
      simp only [memorySize, pageSize, maxPages] at *
      omega

def MmapEntry.Reserves (e : MmapEntry) (page : Nat) : Prop :=
  e.type ≠ memUsable ∧ Overlaps e.base.toNat e.length.toNat page

theorem Counts.reserveEntries {mem : Memory} {stride : BitVec 32} {n : Nat} {s : State}
    {used : Nat → Prop} (h : Counts s used) (p : BitVec 32) :
    Counts (reserveEntries mem stride n p s)
      (fun q => used q ∨ ∃ i < n, (mem.entry (p + BitVec.ofNat 32 i * stride)).Reserves q) := by
  induction n generalizing p s used with
  | zero => simpa [Pmm.reserveEntries] using h
  | succ n ih =>
    have hentry : Counts
        (if (mem.entry p).type ≠ memUsable then
          pmmReserveRange s (mem.entry p).base (mem.entry p).length else s)
        (fun q => used q ∨ (mem.entry p).Reserves q) := by
      split_ifs with htype
      · simpa [MmapEntry.Reserves, htype] using h.reserveRange _ _
      · simpa [MmapEntry.Reserves, htype] using h
    have hnext (i : Nat) :
        p + stride + BitVec.ofNat 32 i * stride = p + BitVec.ofNat 32 (i + 1) * stride := by
      rw [BitVec.ofNat_add, BitVec.add_mul, BitVec.one_mul, BitVec.add_assoc,
        BitVec.add_comm stride]
    apply (ih hentry (p + stride)).congr
    intro q _
    simp only [hnext, Nat.exists_lt_succ_left, or_assoc, BitVec.zero_mul, BitVec.add_zero]

def BootInfo.entries (info : BootInfo) (mem : Memory) : List MmapEntry :=
  if info.memmapAddr ≠ 0 ∧ mmapEntrySize ≤ info.memmapEntrySize.toNat then
    (List.range info.memmapCount.toNat).map fun i =>
      mem.entry (info.memmapAddr.setWidth 32 + BitVec.ofNat 32 i * info.memmapEntrySize)
  else []

def BootInfo.FramebufferAt (info : BootInfo) (page : Nat) : Prop :=
  info.flags &&& flagFb ≠ 0 ∧ info.fbBase ≠ 0 ∧
    Overlaps info.fbBase.toNat (info.fbPitch.toNat * info.fbHeight.toNat) page

def Reserved (mem : Memory) (info : Option BootInfo) (page : Nat) : Prop :=
  page < lowPages ∨ ∃ b, info = some b ∧
    ((∃ e ∈ b.entries mem, e.Reserves page) ∨ b.FramebufferAt page)

theorem Counts.memmap {s : State} {used : Nat → Prop} (h : Counts s used) (mem : Memory)
    (info : BootInfo) :
    Counts
      (if info.memmapAddr ≠ 0 ∧ info.memmapCount ≠ 0 ∧
          mmapEntrySize ≤ info.memmapEntrySize.toNat then
        Pmm.reserveEntries mem info.memmapEntrySize info.memmapCount.toNat
          (info.memmapAddr.setWidth 32) s
      else s)
      (fun q => used q ∨ ∃ e ∈ info.entries mem, e.Reserves q) := by
  split_ifs with hmap
  · apply (h.reserveEntries _).congr
    intro q _
    have hused : info.memmapAddr ≠ 0 ∧ mmapEntrySize ≤ info.memmapEntrySize.toNat :=
      ⟨hmap.1, hmap.2.2⟩
    unfold BootInfo.entries
    rw [if_pos hused]
    simp
  · have hnil : info.entries mem = [] := by
      unfold BootInfo.entries
      split_ifs with hused
      · have hcount : info.memmapCount = 0 := by
          by_contra hne
          exact hmap ⟨hused.1, hne, hused.2⟩
        simp [hcount]
      · rfl
    simpa [hnil] using h

theorem Counts.framebuffer {s : State} {used : Nat → Prop} (h : Counts s used)
    (info : BootInfo) :
    Counts
      (if info.flags &&& flagFb ≠ 0 ∧ info.fbBase ≠ 0 then
        pmmReserveRange s info.fbBase (info.fbPitch.setWidth 64 * info.fbHeight.setWidth 64)
      else s)
      (fun q => used q ∨ info.FramebufferAt q) := by
  have hlen : (info.fbPitch.setWidth 64 * info.fbHeight.setWidth 64 : BitVec 64).toNat =
      info.fbPitch.toNat * info.fbHeight.toNat := by
    have hp := info.fbPitch.isLt
    have hh := info.fbHeight.isLt
    have hprod : info.fbPitch.toNat * info.fbHeight.toNat < 2 ^ 64 :=
      Nat.lt_of_lt_of_le (Nat.mul_lt_mul'' hp hh) (by decide)
    simp only [BitVec.toNat_mul, BitVec.toNat_setWidth]
    rw [Nat.mod_eq_of_lt (a := info.fbPitch.toNat) (by omega),
      Nat.mod_eq_of_lt (a := info.fbHeight.toNat) (by omega), Nat.mod_eq_of_lt hprod]
  split_ifs with hfb
  · apply (h.reserveRange _ _).congr
    intro q _
    simp only [BootInfo.FramebufferAt, hlen, hfb.1, hfb.2, ne_eq, not_false_eq_true, true_and]
  · apply h.congr
    intro q _
    refine ⟨Or.inl, ?_⟩
    rintro (hu | ⟨hflag, hbase, _⟩)
    · exact hu
    · exact absurd ⟨hflag, hbase⟩ hfb

theorem pmmInitFromBootinfo_counts (mem : Memory) (info : Option BootInfo) (s : State) :
    Counts (pmmInitFromBootinfo mem info s) (Reserved mem info) := by
  cases info with
  | none =>
    apply (pmmInit_counts s).congr
    intro q _
    simp [Reserved]
  | some info =>
    apply (((pmmInit_counts s).memmap mem info).framebuffer info).congr
    intro q _
    simp [Reserved, or_assoc]

theorem allocFrom_spec (s : State) (n i : Nat) :
    (allocFrom s n i = (s, 0) ∧ ∀ p, i ≤ p → p < i + n → Bitmap.test s.memoryBitmap p = true) ∨
    ∃ p, i ≤ p ∧ p < i + n ∧ Bitmap.test s.memoryBitmap p = false ∧
      (∀ q, i ≤ q → q < p → Bitmap.test s.memoryBitmap q = true) ∧
      allocFrom s n i = (pmmSetPageUsed s p, p * pageSize) := by
  induction n generalizing i with
  | zero => exact Or.inl ⟨rfl, fun p hi hp => by omega⟩
  | succ n ih =>
    cases ht : Bitmap.test s.memoryBitmap i with
    | false =>
      refine Or.inr ⟨i, Nat.le_refl i, by omega, ht, fun q hi hq => by omega, ?_⟩
      simp [allocFrom, ht]
    | true =>
      have hnext : allocFrom s (n + 1) i = allocFrom s n (i + 1) := by simp [allocFrom, ht]
      have hfirst {q : Nat} (hi : i ≤ q) (hq : ¬ i + 1 ≤ q) : Bitmap.test s.memoryBitmap q = true := by
        obtain rfl : q = i := by omega
        exact ht
      rcases ih (i + 1) with ⟨he, hall⟩ | ⟨p, hi, hp, hfree, hall, he⟩
      · refine Or.inl ⟨hnext.trans he, fun q hq hlt => ?_⟩
        by_cases hq' : i + 1 ≤ q
        · exact hall q hq' (by omega)
        · exact hfirst hq hq'
      · refine Or.inr ⟨p, by omega, by omega, hfree, fun q hq hlt => ?_, hnext.trans he⟩
        by_cases hq' : i + 1 ≤ q
        · exact hall q hq' hlt
        · exact hfirst hq hq'

structure Inv (s : State) (reserved : Nat → Prop) (out : List Nat) : Prop where
  low : ∀ p < lowPages, reserved p
  counts : Counts s (fun p => reserved p ∨ p * pageSize ∈ out)
  nodup : out.Nodup
  given : ∀ a ∈ out, ∃ p < maxPages, ¬ reserved p ∧ a = p * pageSize

theorem page_inj {q : Nat} : p * pageSize = q * pageSize ↔ p = q :=
  Nat.mul_left_inj (by decide)

namespace Inv

variable {s : State} {reserved : Nat → Prop} {out : List Nat}

theorem alloc (h : Inv s reserved out) :
    (pmmAllocPage s = (s, 0) ∧ ∀ p < maxPages, reserved p ∨ p * pageSize ∈ out) ∨
    ∃ p < maxPages, ¬ reserved p ∧ p * pageSize ∉ out ∧ p * pageSize ≠ 0 ∧
      (∀ q < p, reserved q ∨ q * pageSize ∈ out) ∧
      pmmAllocPage s = (pmmSetPageUsed s p, p * pageSize) ∧
      Inv (pmmSetPageUsed s p) reserved (p * pageSize :: out) := by
  have hspec := allocFrom_spec s s.totalPages 0
  rw [h.counts.total, Nat.zero_add] at hspec
  unfold pmmAllocPage
  rw [h.counts.total]
  rcases hspec with ⟨he, hall⟩ | ⟨p, _, hp, hfree, hall, he⟩
  · exact Or.inl ⟨he, fun p hp => (h.counts.bits p hp).mp (hall p (Nat.zero_le p) hp)⟩
  · have hnot : ¬ (reserved p ∨ p * pageSize ∈ out) := by
      intro hu
      simp [(h.counts.bits p hp).mpr hu] at hfree
    obtain ⟨hres, hout⟩ := not_or.mp hnot
    have hlow : ¬ p < lowPages := fun hlt => hres (h.low p hlt)
    refine Or.inr ⟨p, hp, hres, hout, ?_, fun q hq => ?_, he, h.low, ?_, ?_, ?_⟩
    · simp only [lowPages, pageSize] at hlow ⊢
      omega
    · exact (h.counts.bits q (Nat.lt_trans hq hp)).mp (hall q (Nat.zero_le q) hq)
    · apply (h.counts.setUsed hp hnot).congr
      intro q _
      simp only [List.mem_cons, page_inj]
      exact or_assoc.trans (or_congr_right or_comm)
    · exact List.nodup_cons.mpr ⟨hout, h.nodup⟩
    · intro a ha
      rcases List.mem_cons.mp ha with rfl | ha
      · exact ⟨p, hp, hres, rfl⟩
      · exact h.given a ha

theorem free (h : Inv s reserved out) {a : Nat} (ha : a ∈ out) :
    Inv (pmmFreePage s a) reserved (out.erase a) := by
  obtain ⟨p, hp, hres, rfl⟩ := h.given a ha
  refine ⟨h.low, (h.counts.clearUsed hp (Or.inr ha)).congr fun q _ => ?_, h.nodup.erase _,
    fun b hb => h.given b (List.mem_of_mem_erase hb)⟩
  simp only [h.nodup.mem_erase_iff, ne_eq, page_inj]
  constructor
  · rintro ⟨hq | hq, hne⟩
    · exact Or.inl hq
    · exact Or.inr ⟨hne, hq⟩
  · rintro (hq | ⟨hne, hq⟩)
    · exact ⟨Or.inl hq, fun he => hres (he ▸ hq)⟩
    · exact ⟨Or.inr hq, hne⟩

theorem available (h : Inv s reserved out) (hp : p < maxPages) (hres : ¬ reserved p)
    (hout : p * pageSize ∉ out) :
    ∃ n, (pmmAllocPage ((fun s => (pmmAllocPage s).1)^[n] s)).2 = p * pageSize := by
  obtain ⟨k, hk⟩ := Nat.exists_eq_add_of_le (Bitmap.count_le maxPages s.memoryBitmap)
  induction k generalizing s out with
  | zero =>
    have hfree := h.counts.not_test hp (not_or.mpr ⟨hres, hout⟩)
    have hlt := Bitmap.count_lt hp hfree
    omega
  | succ k ih =>
    rcases h.alloc with ⟨_, hall⟩ | ⟨q, hq, hqres, hqout, _, _, he, hinv⟩
    · exact absurd (hall p hp) (not_or.mpr ⟨hres, hout⟩)
    · by_cases hqp : q = p
      · exact ⟨0, by rw [Function.iterate_zero, id, he, hqp]⟩
      · have hset := Bitmap.count_set hq (h.counts.not_test hq (not_or.mpr ⟨hqres, hqout⟩))
        have hmem : p * pageSize ∉ q * pageSize :: out := by
          simp only [List.mem_cons, page_inj, not_or]
          exact ⟨Ne.symm hqp, hout⟩
        obtain ⟨n, hn⟩ := ih hinv hmem (by
          change maxPages = Bitmap.count maxPages (Bitmap.set s.memoryBitmap q) + k
          omega)
        refine ⟨n + 1, ?_⟩
        rw [Function.iterate_succ_apply, he]
        exact hn

end Inv

inductive Step : State × List Nat → State × List Nat → Prop
  | allocFailed {s t : State} {out : List Nat} (h : pmmAllocPage s = (t, 0)) :
      Step (s, out) (t, out)
  | alloc {s t : State} {out : List Nat} {addr : Nat} (h : pmmAllocPage s = (t, addr))
      (ha : addr ≠ 0) : Step (s, out) (t, addr :: out)
  | free {s : State} {out : List Nat} {addr : Nat} (ha : addr ∈ out) :
      Step (s, out) (pmmFreePage s addr, out.erase addr)

def Reachable (mem : Memory) (info : Option BootInfo) (s : State) (out : List Nat) : Prop :=
  ∃ s₀, Relation.ReflTransGen Step (pmmInitFromBootinfo mem info s₀, []) (s, out)

theorem Inv.step {s t : State} {reserved : Nat → Prop} {out out' : List Nat}
    (h : Inv s reserved out) (hs : Step (s, out) (t, out')) : Inv t reserved out' := by
  cases hs with
  | allocFailed he =>
    rcases h.alloc with ⟨he', _⟩ | ⟨p, _, _, _, hne, _, he', _⟩
    · rw [he] at he'
      cases he'
      exact h
    · rw [he] at he'
      exact absurd (Prod.mk.inj he').2.symm hne
  | alloc he ha =>
    rcases h.alloc with ⟨he', _⟩ | ⟨p, _, _, _, _, _, he', hinv⟩
    · rw [he] at he'
      exact absurd (Prod.mk.inj he').2 ha
    · rw [he] at he'
      cases he'
      exact hinv
  | free ha => exact h.free ha

theorem pmmInitFromBootinfo_inv (mem : Memory) (info : Option BootInfo) (s : State) :
    Inv (pmmInitFromBootinfo mem info s) (Reserved mem info) [] where
  low := fun _ hp => Or.inl hp
  counts := (pmmInitFromBootinfo_counts mem info s).congr fun _ _ => by simp
  nodup := List.nodup_nil
  given := fun _ ha => absurd ha List.not_mem_nil

theorem Reachable.inv {mem : Memory} {info : Option BootInfo} {s : State} {out : List Nat}
    (h : Reachable mem info s out) : Inv s (Reserved mem info) out := by
  obtain ⟨s₀, h⟩ := h
  generalize he : (s, out) = c at h
  induction h generalizing s out with
  | refl =>
    cases he
    exact pmmInitFromBootinfo_inv mem info s₀
  | tail _ hs ih =>
    subst he
    exact (ih rfl).step hs

structure Sound (mem : Memory) (info : Option BootInfo) (s : State) (out : List Nat) : Prop where
  alloc : ∀ t addr, pmmAllocPage s = (t, addr) → addr ≠ 0 →
    addr ∉ out ∧ ∃ p < maxPages, addr = p * pageSize ∧ ¬ Reserved mem info p
  usedPages : s.usedPages = Bitmap.count maxPages s.memoryBitmap
  zero : (pmmAllocPage s).2 = 0 ↔ ∀ p < maxPages, Bitmap.test s.memoryBitmap p = true
  bits : ∀ p < maxPages,
    Bitmap.test s.memoryBitmap p = true ↔ Reserved mem info p ∨ p * pageSize ∈ out
  available : ∀ p < maxPages, ¬ Reserved mem info p → p * pageSize ∉ out →
    ∃ n, (pmmAllocPage ((fun s => (pmmAllocPage s).1)^[n] s)).2 = p * pageSize

/-- The page allocator keeps reserved and outstanding pages apart and finds all
others, whatever the memory map; a map with too short entries is ignored. -/
theorem reachable_sound (mem : Memory) (info : Option BootInfo) :
    (∀ b s, info = some b → b.memmapEntrySize.toNat < mmapEntrySize →
      pmmInitFromBootinfo mem info s =
        pmmInitFromBootinfo mem (some { b with memmapCount := 0 }) s) ∧
    ∀ s out, Reachable mem info s out → Sound mem info s out := by
  constructor
  · rintro b s rfl hshort
    have hskip : ¬ mmapEntrySize ≤ b.memmapEntrySize.toNat := Nat.not_le_of_lt hshort
    simp only [pmmInitFromBootinfo, hskip, and_false, if_false]
  · intro s out h
    have hinv := h.inv
    have hbits := hinv.counts.bits
    refine ⟨?_, hinv.counts.count, ?_, hbits, fun p hp => hinv.available hp⟩
    · intro t addr he hne
      rcases hinv.alloc with ⟨he', _⟩ | ⟨p, hp, hres, hout, _, _, he', _⟩
      · rw [he] at he'
        exact absurd (Prod.mk.inj he').2 hne
      · rw [he] at he'
        cases he'
        exact ⟨hout, p, hp, rfl, hres⟩
    · rcases hinv.alloc with ⟨he, hall⟩ | ⟨p, hp, hres, hout, hne, _, he, _⟩
      · exact iff_of_true (by rw [he]) fun p hp => (hbits p hp).mpr (hall p hp)
      · refine iff_of_false (by rw [he]; exact hne) fun hall => ?_
        exact not_or.mpr ⟨hres, hout⟩ ((hbits p hp).mp (hall p hp))

def regionMemory : Memory := fun a =>
  if a = 0x1002 then 0x20 else if a = 0x100A then 0xA0 else if a = 0x100B then 0x07
  else if a = 0x1010 then 2 else 0

def regionInfo : BootInfo where
  flags := 0
  memmapAddr := 0x1000
  memmapCount := 1
  memmapEntrySize := 24
  fbBase := 0
  fbHeight := 0
  fbPitch := 0

def zeroState : State := ⟨fun _ => 0, 0, 0⟩

theorem region_sound :
    pmmInitFromBootinfo regionMemory (some { regionInfo with memmapEntrySize := 16 }) zeroState =
      pmmInitFromBootinfo regionMemory
        (some { regionInfo with memmapEntrySize := 16, memmapCount := 0 }) zeroState ∧
    Sound regionMemory (some regionInfo)
      (pmmInitFromBootinfo regionMemory (some regionInfo) zeroState) [] :=
  ⟨(reachable_sound regionMemory _).1 { regionInfo with memmapEntrySize := 16 } zeroState rfl
      (by decide),
    (reachable_sound regionMemory (some regionInfo)).2 _ _ ⟨zeroState, .refl⟩⟩

end TocinOS.Pmm

import TocinOS.Swap
import TocinOS.VmmTables

/-! Pages that go to swap and come back, in any order. -/

namespace TocinOS.Swap

open Function (update)
open Pmm (pageSize lowPages maxPages)
open Vmm (pagePresent pageWrite pageUser pagesPerTable Sane dirIndex)

structure Record where
  virt : BitVec 32
  entry : BitVec 32
  page : Nat → BitVec 32
  writable : Bool
  slot : BitVec 32

structure World where
  state : State
  out : List Record

def frameOf (vm : Vmm.State) (virt : BitVec 32) : Nat := (vm.entry virt &&& ~~~ 0xFFF#32).toNat

def isWritable (vm : Vmm.State) (virt : BitVec 32) : Bool := vm.entry virt &&& pageWrite != 0

def recordOf (s s' : State) (virt : BitVec 32) : Record where
  virt := virt
  entry := s'.vm.mem (s.vm.entryAddr virt)
  page j := s.vm.mem (frameOf s.vm virt + 4 * j)
  writable := isWritable s.vm virt
  slot := (swapAllocSlot s).2

/-- Successful calls, where `ok` says which pages may be swapped out; whatever else runs in
between leaves the tables sane. -/
inductive Step (ok : State → BitVec 32 → Prop) : World → World → Prop
  | addArea {w : World} {allocated : Bool} {start size : BitVec 32} {s : State}
      (h : swapAddArea w.state allocated (-1) start size = (s, 0)) :
      Step ok w { w with state := s }
  | swapOut {w : World} {virt : BitVec 32} {s : State}
      (htable : w.state.vm.dirEntry (dirIndex virt) &&& pagePresent ≠ 0) (hok : ok w.state virt)
      (h : swapOutPage w.state virt (w.state.vm.entryAddr virt) = (s, 0)) :
      Step ok w ⟨s, recordOf w.state s virt :: w.out⟩
  | swapIn {w : World} {r : Record} {rest : List Record} {s : State}
      (hr : w.out.Perm (r :: rest)) (h : swapInPage w.state r.virt r.entry = (s, 0)) :
      Step ok w ⟨s, rest⟩
  | other {w : World} {vm : Vmm.State} (h : Sane vm) :
      Step ok w { w with state := { w.state with vm } }

structure Start (w : World) : Prop where
  init : ∃ s : State, s.initialized = false ∧ w.state = swapInit s
  sane : Sane w.state.vm
  out : w.out = []

structure Ordinary (vm : Vmm.State) (virt : BitVec 32) : Prop where
  low : lowPages ≤ frameOf vm virt / pageSize
  managed : frameOf vm virt / pageSize < maxPages
  noTable : ∀ i < pagesPerTable, ¬ vm.IsTable i (frameOf vm virt / pageSize)

structure Served (s : State) (virt : BitVec 32) : Prop where
  ordinary : Ordinary s.vm virt
  writable : isWritable s.vm virt = true
  room : ∃ sa ∈ s.areas.head?, sa.freePages ≠ 0

structure Restored (r : Record) (vm : Vmm.State) : Prop where
  mapped : Vmm.vmmGetPhysical vm r.virt ≠ 0
  page : ∀ j < pagesPerTable, vm.mem ((Vmm.vmmGetPhysical vm r.virt).toNat + 4 * j) = r.page j
  writable : isWritable vm r.virt = r.writable

structure Preserved (w : World) : Prop where
  separate : w.out.Pairwise fun r r' => storageOffset r.slot ≠ storageOffset r'.slot
  restored : ∀ r ∈ w.out, ∀ s, swapInPage w.state r.virt r.entry = (s, 0) → Restored r s.vm

/-! Slots of the first area. -/

abbrev embeddedPages : Nat := swapStorageSize / pageSize

def swapEntry (k : Nat) : BitVec 32 :=
  (BitVec.ofNat 32 k <<< pteSwapSlotShift) ||| pteSwapped

structure FirstSlot (k : Nat) : Prop where
  packed : (BitVec.ofNat 32 0 <<< 24) ||| BitVec.ofNat 32 k = BitVec.ofNat 32 k
  valid : BitVec.ofNat 32 k ≠ noSlot
  area : areaIndex (BitVec.ofNat 32 k) = 0
  index : pageSlot (BitVec.ofNat 32 k) = k
  fits : fitsStorage (storageOffset (BitVec.ofNat 32 k)) = true
  offset : (storageOffset (BitVec.ofNat 32 k)).toNat = k * pageSize
  swapped : swapEntry k &&& pteSwapped ≠ 0
  unpacked : swapEntry k >>> pteSwapSlotShift = BitVec.ofNat 32 k

theorem firstSlot {k : Nat} (hk : k < embeddedPages) : FirstSlot k := by
  have hall : ∀ k < 256,
      (BitVec.ofNat 32 0 <<< 24) ||| BitVec.ofNat 32 k = BitVec.ofNat 32 k ∧
      BitVec.ofNat 32 k ≠ noSlot ∧ areaIndex (BitVec.ofNat 32 k) = 0 ∧
      pageSlot (BitVec.ofNat 32 k) = k ∧
      fitsStorage (storageOffset (BitVec.ofNat 32 k)) = true ∧
      (storageOffset (BitVec.ofNat 32 k)).toNat = k * pageSize ∧
      swapEntry k &&& pteSwapped ≠ 0 ∧
      swapEntry k >>> pteSwapSlotShift = BitVec.ofNat 32 k := by
    decide +kernel
  obtain ⟨h1, h2, h3, h4, h5, h6, h7, h8⟩ := hall k hk
  exact ⟨h1, h2, h3, h4, h5, h6, h7, h8⟩

theorem bitmapFindFree_some {b : Nat → BitVec 8} {n k : Nat} (h : bitmapFindFree b n = some k) :
    k < n ∧ Bitmap.test b k = false := by
  have hmem := List.mem_of_find?_eq_some h
  have hbit := List.find?_some h
  exact ⟨List.mem_range.mp hmem, by simpa using hbit⟩

theorem bitmapFindFree_none {b : Nat → BitVec 8} {n : Nat} (h : bitmapFindFree b n = none) :
    Bitmap.count n b = n := by
  have hall := List.find?_eq_none.mp h
  have hcount : (List.range n).countP (Bitmap.test b) = (List.range n).length :=
    List.countP_eq_length.mpr fun i hi => by simpa using hall i hi
  rwa [List.length_range] at hcount

theorem copyPage_inside {m m' : Nat → BitVec 32} {src dst j : Nat} (hj : j < pagesPerTable) :
    copyPage m src m' dst (dst + 4 * j) = m (src + 4 * j) := by
  rw [copyPage, if_pos (by simp only [pageSize, pagesPerTable] at *; omega), Nat.add_sub_cancel_left]

theorem copyPage_of_page_ne {m m' : Nat → BitVec 32} {src p q j : Nat} (hne : p ≠ q)
    (hj : j < pagesPerTable) :
    copyPage m src m' (p * pageSize) (q * pageSize + 4 * j) = m' (q * pageSize + 4 * j) := by
  rw [copyPage, if_neg]
  simp only [pageSize, pagesPerTable] at *
  omega

structure Embedded (a : Area) (used : List Nat) : Prop where
  totalPages : a.totalPages = embeddedPages
  device : a.device = -1
  freePages : a.freePages + Bitmap.count embeddedPages a.bitmap = embeddedPages
  bits : ∀ k < embeddedPages, Bitmap.test a.bitmap k = true ↔ k ∈ used

def takeSlot (a : Area) (k : Nat) : Area :=
  { a with bitmap := Bitmap.set a.bitmap k, freePages := a.freePages - 1 }

def giveSlot (a : Area) (k : Nat) : Area :=
  { a with bitmap := Bitmap.clear a.bitmap k, freePages := (a.freePages + 1) % 2 ^ 32 }

variable {a : Area} {rest : List Area} {used : List Nat} {k : Nat}

theorem Embedded.take (h : Embedded a used) (hk : k < embeddedPages)
    (hfree : Bitmap.test a.bitmap k = false) : Embedded (takeSlot a k) (k :: used) where
  totalPages := h.totalPages
  device := h.device
  freePages := by
    have hcount := h.freePages
    have hset := Bitmap.count_set hk hfree
    have hlt := Bitmap.count_lt hk hfree
    simp only [takeSlot]
    omega
  bits j hj := by
    simp only [takeSlot, Bitmap.test_set, Bool.or_eq_true, decide_eq_true_eq, List.mem_cons,
      h.bits j hj]
    exact Or.comm

theorem Embedded.give (h : Embedded a (k :: used)) (hk : k < embeddedPages) (hnot : k ∉ used) :
    Embedded (giveSlot a k) used where
  totalPages := h.totalPages
  device := h.device
  freePages := by
    have hcount := h.freePages
    have htaken := (h.bits k hk).mpr (List.mem_cons_self ..)
    have hclear := Bitmap.count_clear hk htaken
    have hsmall : embeddedPages = 256 := rfl
    simp only [giveSlot]
    omega
  bits j hj := by
    simp only [giveSlot, Bitmap.test_clear, Bool.and_eq_true, h.bits j hj, List.mem_cons,
      Bool.not_eq_true', decide_eq_false_iff_not]
    constructor
    · rintro ⟨rfl | hj, hne⟩
      · exact absurd rfl hne
      · exact hj
    · intro hj
      exact ⟨.inr hj, fun he => hnot (he ▸ hj)⟩

theorem Embedded.congr {used' : List Nat} (h : Embedded a used) (hu : ∀ k, k ∈ used ↔ k ∈ used') :
    Embedded a used' :=
  ⟨h.totalPages, h.device, h.freePages, fun k hk => (h.bits k hk).trans (hu k)⟩

theorem Embedded.alloc (h : Embedded a used) {s : State} (hinit : s.initialized = true)
    (hareas : s.areas = a :: rest) (hroom : a.freePages ≠ 0) :
    ∃ k < embeddedPages, Bitmap.test a.bitmap k = false ∧
      swapAllocSlot s = ({ s with areas := takeSlot a k :: rest }, BitVec.ofNat 32 k) := by
  cases hfind : bitmapFindFree a.bitmap a.totalPages with
  | none =>
    have hfull := bitmapFindFree_none hfind
    have hcount := h.freePages
    rw [h.totalPages] at hfull
    omega
  | some k =>
    obtain ⟨hk, hfree⟩ := bitmapFindFree_some hfind
    rw [h.totalPages] at hk
    refine ⟨k, hk, hfree, ?_⟩
    simp only [swapAllocSlot, hinit, hareas, allocIn, if_neg hroom, hfind, (firstSlot hk).packed,
      takeSlot, Bool.not_true, Bool.false_eq_true, if_false]

variable {s' : State} {virt : BitVec 32}

theorem swapOutPage_first {s : State} {pte : Nat} (hk : k < embeddedPages) (hdevice : a.device = -1)
    (halloc : swapAllocSlot s = ({ s with areas := takeSlot a k :: rest }, BitVec.ofNat 32 k))
    (h : swapOutPage s virt pte = (s', 0)) : s' = { s with
      areas := takeSlot a k :: rest
      storage := copyPage s.vm.mem (s.vm.mem pte &&& ~~~ 0xFFF#32).toNat s.storage (k * pageSize)
      vm :=
        { mem := update s.vm.mem pte (swapEntry k)
          pmm := Pmm.pmmFreePage s.vm.pmm (s.vm.mem pte &&& ~~~ 0xFFF#32).toNat } } := by
  have hs := firstSlot hk
  rw [swapOutPage] at h
  split at h
  · simp at h
  · split at h
    · simp at h
    · have htaken : (takeSlot a k).device = -1 := hdevice
      simp only [halloc, if_neg hs.valid, swapWritePage, hs.area, List.getElem?_cons_zero, htaken,
        hs.fits, hs.offset, if_true] at h
      exact (Prod.mk.inj h).1.symm

def filled (s : State) (k p : Nat) : Vmm.State where
  mem := copyPage s.storage (k * pageSize) s.vm.mem (p * pageSize)
  pmm := Pmm.pmmSetPageUsed s.vm.pmm p

def broughtIn (s : State) (virt : BitVec 32) (k p : Nat) : Vmm.State :=
  Vmm.vmmMapPage (filled s k p) (virt &&& ~~~ 0xFFF#32) (BitVec.ofNat 32 (p * pageSize))
    (pagePresent ||| pageWrite ||| pageUser)

theorem swapInPage_first {s : State} (hk : k < embeddedPages) (hareas : s.areas = a :: rest)
    (hdevice : a.device = -1) (htotal : a.totalPages = embeddedPages) (hsane : Sane s.vm)
    (h : swapInPage s virt (swapEntry k) = (s', 0)) :
    ∃ p, lowPages ≤ p ∧ p < maxPages ∧ ¬ Vmm.Used s.vm.pmm p ∧
      s' = { s with areas := giveSlot a k :: rest, vm := broughtIn s virt k p } := by
  have hs := firstSlot hk
  rw [swapInPage] at h
  split at h
  · simp at h
  rw [if_neg hs.swapped] at h
  rcases hsane.alloc with hfail | ⟨p, hlow, hp, hfree, halloc⟩
  · simp [hfail] at h
  · have hne : p * pageSize ≠ 0 := by
      simp only [pageSize, lowPages] at *
      omega
    have hlt : ¬ embeddedPages ≤ k := Nat.not_le_of_lt hk
    simp only [halloc, if_neg hne, hs.unpacked, swapReadPage, hs.area, hareas, hdevice, hs.fits,
      hs.offset, List.getElem?_cons_zero, Vmm.toNat_page hp, swapFreeSlot, if_neg hs.valid, htotal,
      hs.index, if_neg hlt, List.set_cons_zero, if_true] at h
    refine ⟨p, hlow, hp, hfree, ?_⟩
    simp only [giveSlot, htotal, hdevice, broughtIn, filled]
    exact (Prod.mk.inj h).1.symm

section BroughtIn

variable {s : State} {p : Nat} (h : Sane s.vm) (hlow : lowPages ≤ p) (k)

include hlow

theorem ne_directoryPage : p ≠ Vmm.directoryPage := by
  simp only [lowPages, pageSize, Vmm.directoryPage, Vmm.kernelDirectory] at *
  omega

theorem filled_dirEntry {i : Nat} (hi : i < pagesPerTable) :
    (filled s k p).dirEntry i = s.vm.dirEntry i := by
  rw [Vmm.State.dirEntry, Vmm.State.dirEntry, Vmm.directory_word]
  exact copyPage_of_page_ne (ne_directoryPage hlow) hi

include h

theorem filled_sane : Sane (filled s k p) := by
  have hword : ∀ i < pagesPerTable, (filled s k p).mem (Vmm.kernelDirectory + 4 * i) =
      s.vm.mem (Vmm.kernelDirectory + 4 * i) := fun i hi => filled_dirEntry k hlow hi
  exact (h.setUsed p).store hword

theorem filled_ne_table (hfree : ¬ Vmm.Used s.vm.pmm p) {s' : Vmm.State} {v entry : BitVec 32}
    {t : Nat} (hmap : Vmm.Mapped (filled s k p) s' v entry t) : p ≠ t := by
  rintro rfl
  by_cases habsent : (filled s k p).dirEntry (dirIndex v) &&& pagePresent = 0
  · rcases hmap.fresh habsent with ⟨hzero, -⟩ | ⟨-, hnot⟩
    · simp only [lowPages, pageSize] at hlow
      omega
    · exact hnot (Vmm.used_setUsed.mpr (.inr rfl))
  · -- a table that was there is a used page of the state before
    have hkept := hmap.kept habsent
    rw [Vmm.State.IsTable, filled_dirEntry k hlow (Vmm.dirIndex_lt v)] at hkept
    obtain ⟨q, -, hq, -, hqu⟩ := h.table _ (Vmm.dirIndex_lt v) hkept.1
    have heq : q = p := by
      have := hq.2.symm.trans hkept.2
      simp only [pageSize] at this
      omega
    exact hfree (heq ▸ hqu)

theorem broughtIn_spec (hp : p < maxPages) (hfree : ¬ Vmm.Used s.vm.pmm p) (virt : BitVec 32) :
    Sane (broughtIn s virt k p) ∧
      Vmm.vmmGetPhysical (broughtIn s virt k p) virt = BitVec.ofNat 32 (p * pageSize) ∧
      isWritable (broughtIn s virt k p) virt = true ∧
      ∀ j < pagesPerTable,
        (broughtIn s virt k p).mem (p * pageSize + 4 * j) = s.storage (k * pageSize + 4 * j) := by
  obtain ⟨t, hmap⟩ : ∃ t, Vmm.Mapped (filled s k p) (broughtIn s virt k p)
      (virt &&& ~~~ 0xFFF#32) (BitVec.ofNat 32 (p * pageSize) ||| pagePresent |||
        (pagePresent ||| pageWrite ||| pageUser)) t :=
    (filled_sane k h hlow).map _ _ _
  have hentry : (broughtIn s virt k p).entry virt = BitVec.ofNat 32 (p * pageSize) |||
      pagePresent ||| (pagePresent ||| pageWrite ||| pageUser) := by
    have := hmap.entry
    rwa [Vmm.State.entry, Vmm.State.entryAddr_page] at this
  have hpresent : (broughtIn s virt k p).dirEntry (dirIndex virt) &&& pagePresent ≠ 0 := by
    have := hmap.table.1
    rwa [(Vmm.entry_page_index virt).1] at this
  refine ⟨hmap.sane, ?_, ?_, fun j hj => ?_⟩
  · rw [Vmm.vmmGetPhysical_eq, if_neg hpresent, hentry,
      if_neg (Vmm.or_present_and_present _ _), BitVec.or_assoc,
      Vmm.frame_and_mask (Vmm.frameAligned_page hp) (by decide)]
  · rw [isWritable, hentry, bne_iff_ne]
    intro hzero
    have hbit := congrArg (fun w => w.getLsbD 1) hzero
    simp at hbit
  · exact (hmap.mem p j (filled_ne_table k h hlow hfree hmap) (ne_directoryPage hlow) hj).trans
      (copyPage_inside hj)

end BroughtIn

/-! The invariant. -/

def Record.index (r : Record) : Nat := pageSlot r.slot

structure Kept (storage : Nat → BitVec 32) (r : Record) : Prop where
  index_lt : r.index < embeddedPages
  slot : r.slot = BitVec.ofNat 32 r.index
  entry : r.entry = swapEntry r.index
  writable : r.writable = true
  page : ∀ j < pagesPerTable, storage (r.index * pageSize + 4 * j) = r.page j

structure Inv (w : World) : Prop where
  sane : Sane w.state.vm
  initialized : w.state.initialized = true
  area : ∃ a rest, w.state.areas = a :: rest ∧ Embedded a (w.out.map Record.index)
  kept : ∀ r ∈ w.out, Kept w.state.storage r
  nodup : (w.out.map Record.index).Nodup

variable {w w' : World}

theorem Start.inv (h : Start w) : Inv w := by
  obtain ⟨s, hs, hstate⟩ := h.init
  have hinit : w.state.initialized = true := by
    rw [hstate, swapInit, hs]
    rfl
  refine ⟨h.sane, hinit, ?_, by simp [h.out], by simp [h.out]⟩
  refine ⟨⟨0, embeddedPages, embeddedPages, fun _ => 0, -1, 0⟩, [], ?_, rfl, rfl, ?_, ?_⟩
  · rw [hstate, swapInit, hs]
    rfl
  · have hzero : Bitmap.count embeddedPages (fun _ => 0) = 0 :=
      List.countP_eq_zero.mpr fun i _ => by simp [Bitmap.test]
    simp only [hzero, Nat.add_zero]
  · intro k _
    simp [h.out, Bitmap.test]

theorem Inv.swapOut (h : Inv w) {s : State}
    (htable : w.state.vm.dirEntry (dirIndex virt) &&& pagePresent ≠ 0) (hok : Served w.state virt)
    (hcall : swapOutPage w.state virt (w.state.vm.entryAddr virt) = (s, 0)) :
    Inv ⟨s, recordOf w.state s virt :: w.out⟩ := by
  obtain ⟨a, rest, hareas, harea⟩ := h.area
  obtain ⟨sa, hsa, hroom⟩ := hok.room
  rw [hareas] at hsa
  obtain rfl : a = sa := by simpa using hsa
  obtain ⟨k, hk, hfree, halloc⟩ := harea.alloc h.initialized hareas hroom
  have hs := swapOutPage_first hk harea.device halloc hcall
  have hslot : (recordOf w.state s virt).slot = BitVec.ofNat 32 k := by
    simp only [recordOf, halloc]
  have hindex : (recordOf w.state s virt).index = k := by
    rw [Record.index, hslot, (firstSlot hk).index]
  have hnew : k ∉ w.out.map Record.index := by
    intro hmem
    have := (harea.bits k hk).mpr hmem
    rw [hfree] at this
    exact Bool.false_ne_true this
  obtain ⟨t, ht, htab, hdir, -⟩ := h.sane.table _ (Vmm.dirIndex_lt virt) htable
  have hsane : Sane s.vm := by
    have hfreed := h.sane.free hok.ordinary.low hok.ordinary.noTable
    have := (hfreed.setEntry (v := virt) (swapEntry k) htab ht hdir).sane
    rw [hs]
    exact this
  refine ⟨hsane, by rw [hs]; exact h.initialized, ?_, ?_, ?_⟩
  · refine ⟨takeSlot a k, rest, by rw [hs], ?_⟩
    rw [List.map_cons, hindex]
    exact harea.take hk hfree
  · intro r hr
    have hstorage : s.storage = copyPage w.state.vm.mem (frameOf w.state.vm virt) w.state.storage
        (k * pageSize) := by
      rw [hs]
      rfl
    rcases List.mem_cons.mp hr with rfl | hr
    · refine ⟨by rwa [hindex], by rw [hindex, hslot], ?_, hok.writable, fun j hj => ?_⟩
      · rw [hindex]
        simp only [recordOf, hs, Function.update_self]
      · rw [hindex, hstorage]
        exact copyPage_inside hj
    · have hkept := h.kept r hr
      refine ⟨hkept.index_lt, hkept.slot, hkept.entry, hkept.writable, fun j hj => ?_⟩
      have hne : k ≠ r.index := by
        rintro rfl
        exact hnew (List.mem_map_of_mem hr)
      rw [hstorage, copyPage_of_page_ne hne hj]
      exact hkept.page j hj
  · rw [List.map_cons, hindex]
    exact List.nodup_cons.mpr ⟨hnew, h.nodup⟩

theorem Inv.swapIn (h : Inv w) {r : Record} {out : List Record} {s : State}
    (hr : w.out.Perm (r :: out)) (hcall : swapInPage w.state r.virt r.entry = (s, 0)) :
    Inv ⟨s, out⟩ ∧ Restored r s.vm := by
  obtain ⟨a, rest, hareas, harea⟩ := h.area
  have hkept := h.kept r (hr.mem_iff.mpr (List.mem_cons_self ..))
  rw [hkept.entry] at hcall
  obtain ⟨p, hlow, hp, hfree, hs⟩ :=
    swapInPage_first hkept.index_lt hareas harea.device harea.totalPages h.sane hcall
  obtain ⟨hsane, hphys, hwrite, hpage⟩ :=
    broughtIn_spec r.index h.sane hlow hp hfree r.virt
  have hvm : s.vm = broughtIn w.state r.virt r.index p := by rw [hs]
  rw [← hvm] at hsane hphys hwrite hpage
  have hmap : (w.out.map Record.index).Perm (r.index :: out.map Record.index) :=
    hr.map Record.index
  have hnodup := List.nodup_cons.mp (hmap.nodup h.nodup)
  refine ⟨⟨hsane, by rw [hs]; exact h.initialized, ?_, fun q hq => ?_, hnodup.2⟩, ?_⟩
  · refine ⟨giveSlot a r.index, rest, by rw [hs], ?_⟩
    exact (harea.congr fun k => hmap.mem_iff).give hkept.index_lt hnodup.1
  · have hstorage : s.storage = w.state.storage := by rw [hs]
    rw [hstorage]
    exact h.kept q (hr.mem_iff.mpr (List.mem_cons_of_mem _ hq))
  · refine ⟨?_, fun j hj => ?_, hwrite.trans hkept.writable.symm⟩
    · rw [hphys]
      intro hzero
      have htoNat : p * pageSize = 0 := by
        rw [← Vmm.toNat_page hp, hzero]
        rfl
      simp only [pageSize, lowPages] at htoNat hlow
      omega
    · rw [hphys, Vmm.toNat_page hp, hpage j hj]
      exact hkept.page j hj

theorem swapAddArea_areas {s : State} {allocated : Bool} {device : Int} {start size : BitVec 32}
    (h : swapAddArea s allocated device start size = (s', 0)) :
    ∃ new, s' = { s with areas := s.areas ++ [new] } := by
  rw [swapAddArea] at h
  split at h
  · simp at h
  · dsimp only at h
    split at h
    · simp at h
    · exact ⟨_, (Prod.mk.inj h).1.symm⟩

theorem Inv.step (h : Inv w) (hs : Step Served w w') : Inv w' := by
  cases hs with
  | addArea hcall =>
    obtain ⟨a, rest, hareas, harea⟩ := h.area
    obtain ⟨new, rfl⟩ := swapAddArea_areas hcall
    refine ⟨h.sane, h.initialized, ⟨a, rest ++ [new], ?_, harea⟩, h.kept, h.nodup⟩
    show w.state.areas ++ [new] = _
    rw [hareas, List.cons_append]
  | swapOut htable hok hcall => exact h.swapOut htable hok hcall
  | swapIn hr hcall => exact (h.swapIn hr hcall).1
  | other hsane => exact ⟨hsane, h.initialized, h.area, h.kept, h.nodup⟩

theorem Inv.preserved (h : Inv w) : Preserved w where
  separate := by
    have hpair := List.pairwise_map.mp h.nodup
    refine hpair.imp_of_mem fun {r r'} hr hr' hne hoffset => hne ?_
    have hk := h.kept r hr
    have hk' := h.kept r' hr'
    have htoNat := congrArg BitVec.toNat hoffset
    rw [hk.slot, hk'.slot, (firstSlot hk.index_lt).offset, (firstSlot hk'.index_lt).offset] at htoNat
    simp only [pageSize] at htoNat
    omega
  restored r hr s hcall := by
    obtain ⟨pre, post, hout⟩ := List.append_of_mem hr
    have hperm : w.out.Perm (r :: (pre ++ post)) := by
      rw [hout]
      exact List.perm_middle
    exact (h.swapIn hperm hcall).2

/-- Pages go to different places and come back as they were, as long as only writable pages
leave and the first area has room for each of them. -/
theorem swap_preserved (h : Start w) (hr : Relation.ReflTransGen (Step Served) w w') :
    Preserved w' := by
  have hinv : Inv w' := by
    induction hr with
    | refl => exact h.inv
    | tail _ hs ih => exact ih.step hs
  exact hinv.preserved

/-- In every run the slots in use are those of the pages that are out, so that none is lost. -/
theorem swap_slots_accounted (h : Start w) (hr : Relation.ReflTransGen (Step Served) w w') :
    ∃ a rest, w'.state.areas = a :: rest ∧ a.freePages + w'.out.length = embeddedPages ∧
      ∀ k < embeddedPages, Bitmap.test a.bitmap k = true ↔ ∃ r ∈ w'.out, r.index = k := by
  have hinv : Inv w' := by
    induction hr with
    | refl => exact h.inv
    | tail _ hs ih => exact ih.step hs
  obtain ⟨a, rest, hareas, harea⟩ := hinv.area
  have hcount : Bitmap.count embeddedPages a.bitmap = w'.out.length := by
    have hused : ((List.range embeddedPages).filter (Bitmap.test a.bitmap)).Perm
        (w'.out.map Record.index) := by
      refine (List.perm_ext_iff_of_nodup (List.nodup_range.filter _) hinv.nodup).mpr fun k => ?_
      rw [List.mem_filter, List.mem_range]
      refine ⟨fun hk => (harea.bits k hk.1).mp hk.2, fun hk => ?_⟩
      obtain ⟨r, hr, rfl⟩ := List.mem_map.mp hk
      have hlt := (hinv.kept r hr).index_lt
      exact ⟨hlt, (harea.bits _ hlt).mpr hk⟩
    rw [Bitmap.count, List.countP_eq_length_filter, hused.length_eq, List.length_map]
  refine ⟨a, rest, hareas, hcount ▸ harea.freePages, fun k hk => ?_⟩
  rw [harea.bits k hk, List.mem_map]

def onePage (flags : BitVec 32) : Vmm.State where
  mem a :=
    if a = Vmm.kernelDirectory + 4 then Vmm.tableEntry 600
    else if a = 600 * pageSize then BitVec.ofNat 32 (700 * pageSize) ||| pagePresent ||| flags
    else 0
  pmm :=
    { memoryBitmap := fun i => if i < 128 then 0xFF else 0
      totalPages := maxPages
      usedPages := 1024 }

abbrev onePageAddr : BitVec 32 := 0x400000

theorem onePage_table (flags : BitVec 32) : (onePage flags).IsTable 1 600 := by
  have hentry : (onePage flags).dirEntry 1 = Vmm.tableEntry 600 := by
    simp only [Vmm.State.dirEntry, onePage, Nat.mul_one, if_true]
  rw [Vmm.State.IsTable, hentry]
  exact ⟨Vmm.tableEntry_present 600, Vmm.tableAddr_tableEntry (by decide)⟩

theorem onePage_dirEntry {flags : BitVec 32} {i : Nat} (hi : i < pagesPerTable)
    (hp : (onePage flags).dirEntry i &&& pagePresent ≠ 0) : (onePage flags).IsTable i 600 := by
  have hone : i = 1 := by
    by_contra hne
    refine hp ?_
    simp only [Vmm.State.dirEntry, onePage, Vmm.kernelDirectory, pageSize, pagesPerTable] at hi ⊢
    rw [if_neg (by omega), if_neg (by omega)]
    rfl
  subst hone
  exact onePage_table flags

theorem onePage_sane (flags : BitVec 32) : Sane (onePage flags) where
  total := rfl
  low := by
    show ∀ p < lowPages, Bitmap.test (fun i => if i < 128 then 0xFF else 0) p = true
    decide +kernel
  table i hi hp := by
    refine ⟨600, by decide, onePage_dirEntry hi hp, by decide, ?_⟩
    show Bitmap.test (fun i => if i < 128 then 0xFF else 0) 600 = true
    decide +kernel

def onePageWorld (flags : BitVec 32) : World where
  state := swapInit ⟨false, [], fun _ => 0, onePage flags⟩
  out := []

theorem onePageWorld_start (flags : BitVec 32) : Start (onePageWorld flags) :=
  ⟨⟨⟨false, [], fun _ => 0, onePage flags⟩, rfl, rfl⟩, onePage_sane flags, rfl⟩

def onePageOut (flags : BitVec 32) : World :=
  let s := (onePageWorld flags).state
  let s' := (swapOutPage s onePageAddr (s.vm.entryAddr onePageAddr)).1
  ⟨s', [recordOf s s' onePageAddr]⟩

theorem onePage_step {ok : State → BitVec 32 → Prop} {flags : BitVec 32}
    (hok : ok (onePageWorld flags).state onePageAddr)
    (h : (swapOutPage (onePageWorld flags).state onePageAddr
      ((onePageWorld flags).state.vm.entryAddr onePageAddr)).2 = 0) :
    Step ok (onePageWorld flags) (onePageOut flags) :=
  Step.swapOut (onePage_table flags).1 hok (Prod.ext rfl h)

theorem onePage_served : Served (onePageWorld pageWrite).state onePageAddr where
  ordinary :=
    { low := by decide +kernel
      managed := by decide +kernel
      noTable := by
        intro i hi htable
        have haddr := (onePage_dirEntry hi htable.1).2.symm.trans htable.2
        have hframe : frameOf (onePage pageWrite) onePageAddr / pageSize = 700 := by decide +kernel
        have hsame : frameOf (onePageWorld pageWrite).state.vm onePageAddr / pageSize = 700 := hframe
        rw [hsame] at haddr
        exact absurd haddr (by decide) }
  writable := by decide +kernel
  room := ⟨_, rfl, by decide⟩

theorem onePage_preserved :
    (onePageOut pageWrite).out.length = 1 ∧ Preserved (onePageOut pageWrite) :=
  ⟨rfl, swap_preserved (onePageWorld_start pageWrite)
    (.single (onePage_step onePage_served (by decide +kernel)))⟩

theorem onePage_accounted : ∃ a rest, (onePageOut pageWrite).state.areas = a :: rest ∧
    a.freePages + 1 = embeddedPages ∧ ∀ k < embeddedPages, Bitmap.test a.bitmap k = true ↔
      ∃ r ∈ (onePageOut pageWrite).out, r.index = k :=
  swap_slots_accounted (onePageWorld_start pageWrite)
    (.single (onePage_step onePage_served (by decide +kernel)))

/-- A page that was not writable is so when it comes back. -/
theorem readOnly_not_preserved :
    ∃ w w', Start w ∧ Relation.ReflTransGen (Step fun _ _ => True) w w' ∧ ¬ Preserved w' := by
  refine ⟨onePageWorld pageUser, onePageOut pageUser, onePageWorld_start pageUser,
    .single (onePage_step trivial (by decide +kernel)), fun h => ?_⟩
  let r := recordOf (onePageWorld pageUser).state (onePageOut pageUser).state onePageAddr
  let call := swapInPage (onePageOut pageUser).state r.virt r.entry
  have hcall : call = (call.1, 0) := Prod.ext rfl (by decide +kernel)
  have hback := (h.restored r (List.mem_cons_self ..) call.1 hcall).writable
  exact absurd hback (by decide +kernel)

end TocinOS.Swap

import TocinOS.Ext2File

/-! Writing to a file of a consistent volume: the direct blocks take the data, and nothing else
that is in use changes. -/

namespace TocinOS.Ext2

open SparseBlocks (copyAt copyAt_append copyAt_zero)
open LittleEndian (get_put_of_disjoint)

/-- Counters and bitmaps agree; the free blocks can be used, and the bitmaps are not among them. -/
structure Consistent (fs : AllocFs) (s : AllocState) : Prop where
  layout : Layout fs
  counted : Counted fs s
  zero : ¬ fs.Free s.drives 0
  addressable : ∀ c, fs.Free s.drives c → fs.Addressable c
  bitmaps : ∀ g < fs.numGroups.toNat, ¬ fs.Free s.drives (fs.blockBitmap g)

def Fs.Owns (fs : Fs) (drives : Drives) (inode : Bytes) (b : BitVec 32) : Prop :=
  b ≠ 0 ∧ ∃ k, b = fs.blockMap drives inode k ∨ b ∈ fs.path drives inode k

structure Intact (fs : AllocFs) (drives : Drives) (inode : Bytes) : Prop where
  addressable : ∀ b, fs.Owns drives inode b → fs.Addressable b
  used : ∀ b, fs.Owns drives inode b → ¬ fs.Free drives b
  plain : ∀ b, fs.Owns drives inode b → fs.Plain b
  once : ∀ k, fs.blockMap drives inode k ≠ 0 → ∀ j,
    fs.blockMap drives inode j = fs.blockMap drives inode k → j = k
  leaf : ∀ k, fs.blockMap drives inode k ≠ 0 → ∀ j,
    fs.blockMap drives inode k ∉ fs.path drives inode j

variable {fs : AllocFs} {s : AllocState} {inode : Bytes} {drives drives' : Drives}

/-! ### The inode -/

theorem iBlock_setIBlock (inode : Bytes) (k j : Nat) (b : BitVec 32) :
    iBlock (setIBlock inode k b) j = if j = k then b else iBlock inode j := by
  rw [iBlock, setIBlock]
  split
  · next h =>
    subst h
    rw [LittleEndian.get_put _ _ b.isLt, BitVec.ofNat_toNat, BitVec.setWidth_eq]
  · next h =>
    rw [get_put_of_disjoint _ _ (by omega)]
    rfl

variable {k i pos n w : Nat} {b c : BitVec 32} {inode' source : Bytes} {s' : AllocState}

theorem setIBlock_of_outside (inode : Bytes) (hk : k < 15) (b : BitVec 32) (h : i < 40 ∨ 100 ≤ i) :
    setIBlock inode k b i = inode i := if_neg (by omega)

/-! ### Routes -/

theorem Fs.route_of_lt (fs : Fs) (hk : k < 12) : fs.route k = (k, []) := if_pos hk

theorem Fs.route_of_le (fs : Fs) (hk : 12 ≤ k) : 12 ≤ (fs.route k).1 ∧ (fs.route k).1 < 15 := by
  simp only [Fs.route, if_neg (Nat.not_lt.mpr hk)]
  split
  · dsimp only
    omega
  split
  · dsimp only
    omega
  · dsimp only
    omega

theorem Fs.route_ne (fs : Fs) {j : Nat} (hk : k < 12) (hne : j ≠ k) : (fs.route j).1 ≠ k := by
  by_cases hj : j < 12
  · rw [fs.route_of_lt hj]
    exact hne
  · have := fs.route_of_le (Nat.le_of_not_lt hj)
    omega

theorem Fs.blockMap_of_lt (fs : Fs) (drives : Drives) (inode : Bytes) (hk : k < 12) :
    fs.blockMap drives inode k = iBlock inode k := by
  rw [Fs.blockMap, fs.route_of_lt hk]
  rfl

theorem Fs.path_of_lt (fs : Fs) (drives : Drives) (inode : Bytes) (hk : k < 12) :
    fs.path drives inode k = [] := by
  rw [Fs.path, fs.route_of_lt hk]
  rfl

theorem Fs.pointer_congr {fs : Fs} (h : fs.block drives' b = fs.block drives b) (index : Nat) :
    fs.pointer drives' b index = fs.pointer drives b index := by
  rw [Fs.pointer, Fs.pointer, h]

theorem Fs.visits_congr {fs : Fs} {indices : List Nat}
    (h : ∀ c ∈ fs.visits drives b indices, fs.block drives' c = fs.block drives c) :
    fs.visits drives' b indices = fs.visits drives b indices ∧
      indices.foldl (fs.pointer drives') b = indices.foldl (fs.pointer drives) b := by
  induction indices generalizing b with
  | nil => exact ⟨rfl, rfl⟩
  | cons index rest ih =>
    by_cases hzero : b = 0
    · subst hzero
      rw [foldl_pointer_zero, foldl_pointer_zero]
      exact ⟨rfl, rfl⟩
    rw [Fs.visits, if_neg hzero] at h
    have hpointer := Fs.pointer_congr (h b (List.mem_cons_self ..)) index
    obtain ⟨hvisits, hfold⟩ := ih fun c hc => h c (List.mem_cons_of_mem b hc)
    rw [Fs.visits, Fs.visits, if_neg hzero, if_neg hzero, List.foldl_cons, List.foldl_cons, hpointer,
      hvisits, hfold]
    exact ⟨rfl, rfl⟩

theorem Fs.map_congr {fs : Fs} {inode : Bytes}
    (hslot : iBlock inode' (fs.route k).1 = iBlock inode (fs.route k).1)
    (h : ∀ c ∈ fs.path drives inode k, fs.block drives' c = fs.block drives c) :
    fs.path drives' inode' k = fs.path drives inode k ∧
      fs.blockMap drives' inode' k = fs.blockMap drives inode k := by
  rw [Fs.path, Fs.blockMap, hslot]
  exact Fs.visits_congr h

/-! ### Steps that keep a volume consistent -/

theorem Layout.free_congr (hl : Layout fs)
    (h : ∀ g < fs.numGroups.toNat, fs.bitmap drives' g = fs.bitmap drives g) (c : BitVec 32) :
    fs.Free drives' c ↔ fs.Free drives c := by
  constructor
  · intro hc
    exact ⟨hc.1, h _ (hl.place_div_lt hc.1) ▸ hc.2⟩
  · intro hc
    exact ⟨hc.1, (h _ (hl.place_div_lt hc.1)).symm ▸ hc.2⟩

theorem Counted.io (h : Counted fs s) {io : State} (hcoherent : Coherent fs.toFs io)
    (hbitmap : ∀ g < fs.numGroups.toNat, fs.bitmap io.drives g = fs.bitmap s.drives g) :
    Counted fs { s with toState := io } := by
  refine ⟨hcoherent, fun g hg => ?_, ?_⟩
  · dsimp only
    rw [hbitmap g hg]
    exact h.group g hg
  · dsimp only
    rw [h.total]
    exact Finset.sum_congr rfl fun g hg => by rw [hbitmap g (Finset.mem_range.mp hg)]

theorem Consistent.io (h : Consistent fs s) {io : State} (hcoherent : Coherent fs.toFs io)
    (hbitmap : ∀ g < fs.numGroups.toNat, fs.bitmap io.drives g = fs.bitmap s.drives g) :
    Consistent fs { s with toState := io } := by
  have hfree := h.layout.free_congr hbitmap
  exact ⟨h.layout, h.counted.io hcoherent hbitmap, fun hc => h.zero ((hfree 0).mp hc),
    fun c hc => h.addressable c ((hfree c).mp hc), fun g hg hc => h.bitmaps g hg ((hfree _).mp hc)⟩

theorem block_writeBlock (hb : fs.Addressable b) (hc : fs.Addressable c) (buffer : Bytes) :
    fs.block (s.writeBlock fs b buffer).drives c =
      if c = b then fs.stored buffer else fs.block s.drives c := by
  rw [AllocState.writeBlock]
  dsimp only
  rw [ext2WriteBlock_drives]
  split
  · next h =>
    subst h
    exact block_writeSectors_self ..
  · next h => exact block_writeSectors_of_ne hb hc h ..

theorem bitmap_writeBlock (hl : Layout fs) (hb : fs.Addressable b) (hplain : fs.Plain b)
    (buffer : Bytes) {g : Nat} (hg : g < fs.numGroups.toNat) :
    fs.bitmap (s.writeBlock fs b buffer).drives g = fs.bitmap s.drives g := by
  rw [AllocFs.bitmap, block_writeBlock hb (hl.addressable g hg), if_neg (hplain g hg).symm]
  rfl

theorem free_writeBlock (hl : Layout fs) (hb : fs.Addressable b) (hplain : fs.Plain b)
    (buffer : Bytes) (c : BitVec 32) :
    fs.Free (s.writeBlock fs b buffer).drives c ↔ fs.Free s.drives c :=
  hl.free_congr (fun _ hg => bitmap_writeBlock hl hb hplain buffer hg) c

theorem Consistent.writeBlock (h : Consistent fs s) (hb : fs.Addressable b) (hplain : fs.Plain b)
    (buffer : Bytes) : Consistent fs (s.writeBlock fs b buffer) :=
  h.io (h.counted.coherent.write hb buffer) fun _ hg => bitmap_writeBlock h.layout hb hplain buffer hg

def Fs.HasInode (fs : Fs) (inodeNum : BitVec 32) : Prop :=
  inodeNum ≠ 0 ∧ ¬ fs.numGroups ≤ fs.inodeGroup inodeNum

theorem Consistent.writeInode (hc : Consistent fs s) {inodeNum : BitVec 32}
    (hplace : fs.HasInode inodeNum →
      fs.Addressable (fs.inodeBlock inodeNum) ∧ fs.Plain (fs.inodeBlock inodeNum))
    (inode : Bytes) {io : State} (hio : (ext2WriteInode fs.toFs inodeNum inode s.toState).2 = io) :
    Consistent fs { s with toState := io } ∧ (∀ c, fs.Free io.drives c ↔ fs.Free s.drives c) ∧
      ∀ c, fs.Addressable c → (fs.HasInode inodeNum → c ≠ fs.inodeBlock inodeNum) →
        fs.block io.drives c = fs.block s.drives c := by
  subst hio
  rw [ext2WriteInode]
  by_cases hzero : inodeNum = 0
  · rw [if_pos hzero]
    exact ⟨hc, fun _ => .rfl, fun _ _ _ => rfl⟩
  by_cases hgroup : fs.numGroups ≤ fs.inodeGroup inodeNum
  · rw [if_neg hzero, if_pos hgroup]
    exact ⟨hc, fun _ => .rfl, fun _ _ _ => rfl⟩
  obtain ⟨haddressable, hplain⟩ := hplace ⟨hzero, hgroup⟩
  rw [if_neg hzero, if_neg hgroup]
  obtain ⟨-, hcoherent⟩ := hc.counted.coherent.read haddressable fun _ => 0
  have hdrives := ext2ReadBlock_drives fs.toFs (fs.inodeBlock inodeNum) (fun _ => 0) s.toState
  have hread := hc.io hcoherent fun g _ => by rw [hdrives]
  generalize ext2ReadBlock fs.toFs (fs.inodeBlock inodeNum) (fun _ => 0) s.toState = result
    at hdrives hread
  obtain ⟨bytes, io⟩ := result
  dsimp only at hdrives hread ⊢
  generalize copyAt (fs.inodeOffset inodeNum) 128 inode bytes = buffer
  refine ⟨hread.writeBlock haddressable hplain buffer, fun c => ?_, fun c hc hne => ?_⟩
  · rw [← hdrives]
    exact free_writeBlock (s := { s with toState := io }) hc.layout haddressable hplain buffer c
  · refine ((block_writeBlock (s := { s with toState := io }) haddressable hc buffer).trans
      (if_neg (hne ⟨hzero, hgroup⟩))).trans ?_
    rw [hdrives]

theorem Takes.consistent (htakes : Takes fs s s' b) (h : Consistent fs s) :
    b ≠ 0 ∧ Consistent fs s' := by
  have hkept (c : BitVec 32) (hc : fs.Free s'.drives c) := ((htakes.free c).mp hc).1
  exact ⟨fun heq => h.zero (heq ▸ htakes.wasFree), h.layout, htakes.counted, fun hc => h.zero (hkept 0 hc),
    fun c hc => h.addressable c (hkept c hc), fun g hg hc => h.bitmaps g hg (hkept _ hc)⟩

/-! ### Steps that keep a file intact -/

theorem Fs.ne_zero_of_mem_visits {fs : Fs} {indices : List Nat}
    (h : c ∈ fs.visits drives b indices) : c ≠ 0 := by
  induction indices generalizing b with
  | nil => simp [Fs.visits] at h
  | cons index rest ih =>
    rw [Fs.visits] at h
    split at h
    · simp at h
    · next hb =>
      rcases List.mem_cons.mp h with rfl | h
      · exact hb
      · exact ih h

theorem Fs.owns_of_mem_path {fs : Fs} (h : b ∈ fs.path drives inode k) :
    fs.Owns drives inode b := ⟨Fs.ne_zero_of_mem_visits h, k, .inr h⟩

theorem Fs.owns_data {fs : Fs} (hne : fs.blockMap drives inode k ≠ 0) :
    fs.Owns drives inode (fs.blockMap drives inode k) := ⟨hne, k, .inl rfl⟩

theorem Intact.congr (h : Intact fs drives inode)
    (hmap : ∀ j, fs.path drives' inode' j = fs.path drives inode j ∧
      fs.blockMap drives' inode' j = fs.blockMap drives inode j)
    (hfree : ∀ c, fs.Free drives' c → fs.Free drives c) : Intact fs drives' inode' := by
  have howns (c : BitVec 32) : fs.Owns drives' inode' c ↔ fs.Owns drives inode c := by
    simp only [Fs.Owns, hmap]
  refine ⟨fun c hc => h.addressable c ((howns c).mp hc),
    fun c hc hf => h.used c ((howns c).mp hc) (hfree c hf),
    fun c hc => h.plain c ((howns c).mp hc), fun j hj i hi => ?_, fun j hj i hi => ?_⟩
  · rw [(hmap j).2] at hj hi
    rw [(hmap i).2] at hi
    exact h.once j hj i hi
  · rw [(hmap j).2] at hj hi
    rw [(hmap i).1] at hi
    exact h.leaf j hj i hi

theorem Intact.map_write (h : Intact fs s.drives inode) (hne : fs.blockMap s.drives inode k ≠ 0)
    (buffer : Bytes) (j : Nat) :
    fs.path (s.writeBlock fs (fs.blockMap s.drives inode k) buffer).drives inode j =
        fs.path s.drives inode j ∧
      fs.blockMap (s.writeBlock fs (fs.blockMap s.drives inode k) buffer).drives inode j =
        fs.blockMap s.drives inode j := by
  refine Fs.map_congr rfl fun c hmem => ?_
  rw [block_writeBlock (h.addressable _ (Fs.owns_data hne))
    (h.addressable c (Fs.owns_of_mem_path hmem)), if_neg]
  rintro rfl
  exact h.leaf k hne j hmem

theorem Intact.write (h : Intact fs s.drives inode) (hc : Consistent fs s)
    (hne : fs.blockMap s.drives inode k ≠ 0) (buffer : Bytes) :
    Intact fs (s.writeBlock fs (fs.blockMap s.drives inode k) buffer).drives inode :=
  have hown := Fs.owns_data hne
  h.congr (h.map_write hne buffer) fun c =>
    (free_writeBlock hc.layout (h.addressable _ hown) (h.plain _ hown) buffer c).mp

theorem Intact.map_alloc (h : Intact fs s.drives inode) (htakes : Takes fs s s' b) (hk : k < 12)
    (j : Nat) : fs.path s'.drives (setIBlock inode k b) j = fs.path s.drives inode j ∧
      fs.blockMap s'.drives (setIBlock inode k b) j =
        if j = k then b else fs.blockMap s.drives inode j := by
  by_cases hjk : j = k
  · subst hjk
    rw [Fs.path_of_lt _ _ _ hk, Fs.path_of_lt _ _ _ hk, Fs.blockMap_of_lt _ _ _ hk, iBlock_setIBlock]
    simp
  · rw [if_neg hjk]
    apply Fs.map_congr
    · rw [iBlock_setIBlock, if_neg (fs.route_ne hk hjk)]
    · intro c hmem
      have hown := Fs.owns_of_mem_path hmem
      exact htakes.blocks c (h.addressable c hown) (h.plain c hown)

theorem Intact.alloc (h : Intact fs s.drives inode) (hc : Consistent fs s)
    (htakes : Takes fs s s' b) (hk : k < 12) : Intact fs s'.drives (setIBlock inode k b) := by
  have hmap := h.map_alloc htakes hk
  have hown : ∀ c, fs.Owns s'.drives (setIBlock inode k b) c → c = b ∨ fs.Owns s.drives inode c := by
    rintro c ⟨hne, j, hj | hj⟩
    · rw [(hmap j).2] at hj
      split at hj
      · exact .inl hj
      · exact .inr ⟨hne, j, .inl hj⟩
    · rw [(hmap j).1] at hj
      exact .inr ⟨hne, j, .inr hj⟩
  have hb : b ≠ 0 := fun hzero => hc.zero (hzero ▸ htakes.wasFree)
  have hnew : ∀ c, fs.Owns s.drives inode c → c ≠ b := by
    rintro c hc rfl
    exact h.used c hc htakes.wasFree
  refine ⟨fun c hc' => ?_, fun c hc' hf => ?_, fun c hc' g hg => ?_, fun j hne i hi => ?_,
    fun j hne i hi => ?_⟩
  · rcases hown c hc' with rfl | hc'
    · exact hc.addressable c htakes.wasFree
    · exact h.addressable c hc'
  · rw [htakes.free] at hf
    exact (hown c hc').elim hf.2 fun hc' => h.used c hc' hf.1
  · rcases hown c hc' with rfl | hc'
    · rintro rfl
      exact hc.bitmaps g hg htakes.wasFree
    · exact h.plain c hc' g hg
  · rw [(hmap j).2] at hne hi
    rw [(hmap i).2] at hi
    by_cases hjk : j = k
    · rw [if_pos hjk] at hi
      split at hi
      · next hik => exact hik.trans hjk.symm
      · exact absurd rfl (hnew b ⟨hb, i, .inl hi.symm⟩)
    · rw [if_neg hjk] at hi hne
      split at hi
      · exact absurd hi.symm (hnew _ (Fs.owns_data hne))
      · exact h.once j hne i hi
  · rw [(hmap j).2] at hne hi
    rw [(hmap i).1] at hi
    by_cases hjk : j = k
    · rw [if_pos hjk] at hi
      exact hnew b (Fs.owns_of_mem_path hi) rfl
    · rw [if_neg hjk] at hi hne
      exact h.leaf j hne i hi

/-! ### One round -/

structure Outside (fs : AllocFs) (s : AllocState) (inode : Bytes) (c : BitVec 32) : Prop where
  addressable : fs.Addressable c
  used : ¬ fs.Free s.drives c
  plain : fs.Plain c
  foreign : c ≠ 0 → ∀ k, fs.blockMap s.drives inode k ≠ c

def AllocFs.byteAt (fs : AllocFs) (s : AllocState) (inode : Bytes) (p : Nat) : Byte :=
  fs.contents s.drives (fs.blockMap s.drives inode) p

theorem byteAt_congr (hmap : ∀ k, fs.blockMap s'.drives inode' k = fs.blockMap s.drives inode k)
    (hblocks : ∀ c, fs.Owns s.drives inode c → fs.block s'.drives c = fs.block s.drives c)
    (p : Nat) : fs.byteAt s' inode' p = fs.byteAt s inode p := by
  rw [AllocFs.byteAt, AllocFs.byteAt, Fs.contents, Fs.contents, hmap]
  split
  · rfl
  · next hne => rw [hblocks _ (Fs.owns_data hne)]

structure Wrote (fs : AllocFs) (inode : Bytes) (s : AllocState) (pos n : Nat) (source : Bytes)
    (inode' : Bytes) (s' : AllocState) : Prop where
  consistent : Consistent fs s'
  intact : Intact fs s'.drives inode'
  byteAt : ∀ p, fs.byteAt s' inode' p = copyAt pos n source (fs.byteAt s inode) p
  kept : ∀ k, fs.blockMap s.drives inode k ≠ 0 →
    fs.blockMap s'.drives inode' k = fs.blockMap s.drives inode k
  paths : ∀ k, fs.path s'.drives inode' k = fs.path s.drives inode k
  fields : ∀ i, i < 40 ∨ 100 ≤ i → inode' i = inode i
  outside : ∀ c, Outside fs s inode c →
    Outside fs s' inode' c ∧ fs.block s'.drives c = fs.block s.drives c

theorem Wrote.trans {inode₁ inode₂ : Bytes} {s₁ s₂ : AllocState} {m : Nat}
    (h : Wrote fs inode s pos n source inode₁ s₁)
    (h' : Wrote fs inode₁ s₁ (pos + n) m (fun i => source (n + i)) inode₂ s₂) :
    Wrote fs inode s pos (n + m) source inode₂ s₂ where
  consistent := h'.consistent
  intact := h'.intact
  byteAt := fun p => by
    rw [h'.byteAt, ← copyAt_append]
    congr 1
    funext q
    exact h.byteAt q
  kept := fun k hk =>
    have hfirst := h.kept k hk
    (h'.kept k (hfirst ▸ hk)).trans hfirst
  paths := fun k => (h'.paths k).trans (h.paths k)
  fields := fun i hi => (h'.fields i hi).trans (h.fields i hi)
  outside := fun c hc =>
    have hfirst := h.outside c hc
    have hsecond := h'.outside c hfirst.1
    ⟨hsecond.1, hsecond.2.trans hfirst.2⟩

theorem Intact.still (h : Intact fs s.drives inode) (hc' : Consistent fs s')
    (hfree : ∀ c, fs.Free s'.drives c ↔ fs.Free s.drives c)
    (hblocks : ∀ c, fs.Addressable c → fs.Plain c → fs.block s'.drives c = fs.block s.drives c)
    (pos : Nat) (source : Bytes) : Wrote fs inode s pos 0 source inode s' := by
  have hown (c : BitVec 32) (hc : fs.Owns s.drives inode c) :=
    hblocks c (h.addressable c hc) (h.plain c hc)
  have hmap (k : Nat) : fs.path s'.drives inode k = fs.path s.drives inode k ∧
      fs.blockMap s'.drives inode k = fs.blockMap s.drives inode k :=
    Fs.map_congr rfl fun c hmem => hown c (Fs.owns_of_mem_path hmem)
  refine ⟨hc', h.congr hmap fun c => (hfree c).mp, fun p => ?_, fun k _ => (hmap k).2, fun k => (hmap k).1,
    fun _ _ => rfl, fun c ho => ⟨⟨ho.addressable, fun hf => ho.used ((hfree c).mp hf), ho.plain,
      fun hzero k => ?_⟩, hblocks c ho.addressable ho.plain⟩⟩
  · rw [copyAt_zero]
    exact byteAt_congr (fun k => (hmap k).2) hown p
  · rw [(hmap k).2]
    exact ho.foreign hzero k

theorem Wrote.refl (hc : Consistent fs s) (hf : Intact fs s.drives inode) (pos : Nat) (source : Bytes) :
    Wrote fs inode s pos 0 source inode s :=
  hf.still hc (fun _ => .rfl) (fun _ _ _ => rfl) pos source

theorem Wrote.of_drives {t : AllocState} (hdrives : t.drives = s.drives)
    (h : Wrote fs inode t pos n source inode' s') : Wrote fs inode s pos n source inode' s' := by
  refine ⟨h.consistent, h.intact, fun p => ?_, hdrives ▸ h.kept, hdrives ▸ h.paths, h.fields,
    fun c hc => ?_⟩
  · rw [h.byteAt]
    congr 1
    funext q
    rw [AllocFs.byteAt, AllocFs.byteAt, hdrives]
  · rw [← hdrives]
    exact h.outside c ⟨hc.addressable, hdrives ▸ hc.used, hc.plain, hdrives ▸ hc.foreign⟩

theorem byteAt_write (h : Intact fs s.drives inode) (hne : fs.blockMap s.drives inode k ≠ 0)
    (buffer : Bytes) (p : Nat) :
    fs.byteAt (s.writeBlock fs (fs.blockMap s.drives inode k) buffer) inode p =
      if p / fs.blockSize = k then buffer (p % fs.blockSize) else fs.byteAt s inode p := by
  have hb := h.addressable _ (Fs.owns_data hne)
  rw [AllocFs.byteAt, AllocFs.byteAt, Fs.contents, Fs.contents, (h.map_write hne buffer _).2]
  by_cases hpk : p / fs.blockSize = k
  · rw [if_pos hpk, hpk, if_neg hne, block_writeBlock hb hb, if_pos rfl]
    exact dif_pos (Nat.mod_lt p fs.blockSize_pos)
  · rw [if_neg hpk]
    split
    · rfl
    · next hblock =>
      rw [block_writeBlock hb (h.addressable _ (Fs.owns_data hblock)),
        if_neg fun heq => hpk (h.once k hne _ heq)]

theorem byteAt_alloc (h : Intact fs s.drives inode) (htakes : Takes fs s s' b) (hk : k < 12)
    {p : Nat} (hp : p / fs.blockSize ≠ k) :
    fs.byteAt s' (setIBlock inode k b) p = fs.byteAt s inode p := by
  rw [AllocFs.byteAt, AllocFs.byteAt, Fs.contents, Fs.contents, (h.map_alloc htakes hk _).2, if_neg hp]
  split
  · rfl
  · next hblock =>
    have hown := Fs.owns_data hblock
    rw [htakes.blocks _ (h.addressable _ hown) (h.plain _ hown)]

theorem byteAt_hole {p : Nat} (hhole : fs.blockMap s.drives inode (p / fs.blockSize) = 0) :
    fs.byteAt s inode p = 0 := if_pos hhole

theorem Outside.write (ho : Outside fs s inode c) (h : Intact fs s.drives inode)
    (hc : Consistent fs s) (hne : fs.blockMap s.drives inode k ≠ 0) (buffer : Bytes) :
    Outside fs (s.writeBlock fs (fs.blockMap s.drives inode k) buffer) inode c ∧
      fs.block (s.writeBlock fs (fs.blockMap s.drives inode k) buffer).drives c =
        fs.block s.drives c := by
  have hown := Fs.owns_data hne
  have hb := h.addressable _ hown
  refine ⟨⟨ho.addressable, fun hf => ho.used ?_, ho.plain, fun hzero j => ?_⟩, ?_⟩
  · exact (free_writeBlock hc.layout hb (h.plain _ hown) buffer c).mp hf
  · rw [(h.map_write hne buffer j).2]
    exact ho.foreign hzero j
  · rw [block_writeBlock hb ho.addressable, if_neg]
    rintro rfl
    exact ho.foreign hne k rfl

theorem Outside.alloc (ho : Outside fs s inode c) (h : Intact fs s.drives inode)
    (htakes : Takes fs s s' b) (hk : k < 12) :
    Outside fs s' (setIBlock inode k b) c ∧ fs.block s'.drives c = fs.block s.drives c := by
  refine ⟨⟨ho.addressable, fun hf => ho.used ((htakes.free c).mp hf).1, ho.plain, fun hzero j => ?_⟩,
    htakes.blocks c ho.addressable ho.plain⟩
  rw [(h.map_alloc htakes hk j).2]
  split
  · rintro rfl
    exact ho.used htakes.wasFree
  · exact ho.foreign hzero j

theorem copyAt_block {size : Nat} (hpos : 0 < size) (hw : w + n ≤ size) {base f : Bytes}
    (hbase : ∀ i < size, ¬ (w ≤ i ∧ i < w + n) → base i = f (k * size + i)) (p : Nat) :
    (if p / size = k then copyAt w n source base (p % size) else f p) =
      copyAt (k * size + w) n source f p := by
  have hp := Nat.div_add_mod' p size
  have hlt := Nat.mod_lt p hpos
  split
  · next hk =>
    rw [hk] at hp
    rw [copyAt, copyAt]
    by_cases hr : w ≤ p % size ∧ p % size < w + n
    · rw [if_pos hr, if_pos (by omega)]
      congr 1
      omega
    · rw [if_neg hr, if_neg (by omega), hbase _ hlt hr, hp]
  · next hk =>
    rw [copyAt, if_neg]
    intro hr
    refine hk (Nat.div_eq_of_lt_le (by omega) ?_)
    rw [Nat.succ_mul]
    omega

theorem mul_add_div_size (fs : AllocFs) (k : Nat) (hi : i < fs.blockSize) :
    (k * fs.blockSize + i) / fs.blockSize = k := by
  rw [Nat.mul_comm, Nat.mul_add_div fs.blockSize_pos, Nat.div_eq_of_lt hi, Nat.add_zero]

theorem byteAt_mapped (hne : fs.blockMap s.drives inode k ≠ 0) (hi : i < fs.blockSize) :
    fs.byteAt s inode (k * fs.blockSize + i) =
      fs.bytes (fs.block s.drives (fs.blockMap s.drives inode k)) i := by
  rw [AllocFs.byteAt, Fs.contents, mul_add_div_size fs k hi, if_neg hne, Nat.mul_comm,
    Nat.mul_add_mod, Nat.mod_eq_of_lt hi]

theorem Intact.wrote_mapped (h : Intact fs s.drives inode) (hc : Consistent fs s)
    (hne : fs.blockMap s.drives inode k ≠ 0) (hw : w + n ≤ fs.blockSize) {base : Bytes}
    (hbase : ∀ i < fs.blockSize, ¬ (w ≤ i ∧ i < w + n) →
      base i = fs.bytes (fs.block s.drives (fs.blockMap s.drives inode k)) i) :
    Wrote fs inode s (k * fs.blockSize + w) n source inode
      (s.writeBlock fs (fs.blockMap s.drives inode k) (copyAt w n source base)) := by
  have hown := Fs.owns_data hne
  have hmap := h.map_write hne (copyAt w n source base)
  refine ⟨hc.writeBlock (h.addressable _ hown) (h.plain _ hown) _, h.write hc hne _, fun p => ?_,
    fun j _ => (hmap j).2, fun j => (hmap j).1, fun _ _ => rfl, fun c ho => ho.write h hc hne _⟩
  rw [byteAt_write h hne]
  refine copyAt_block fs.blockSize_pos hw (fun i hi hout => ?_) p
  rw [hbase i hi hout, byteAt_mapped hne hi]

theorem Intact.wrote_hole (h : Intact fs s.drives inode) (hc : Consistent fs s)
    (hc' : Consistent fs s') (hb : b ≠ 0) (htakes : Takes fs s s' b) (hk : k < 12)
    (hhole : iBlock inode k = 0) (hw : w + n ≤ fs.blockSize) (source : Bytes) :
    Wrote fs inode s (k * fs.blockSize + w) n source (setIBlock inode k b)
      (s'.writeBlock fs b (copyAt w n source fun _ => 0)) := by
  have h' := h.alloc hc htakes hk
  have hmap := h.map_alloc htakes hk
  have hslot : fs.blockMap s'.drives (setIBlock inode k b) k = b := by
    rw [(hmap k).2, if_pos rfl]
  have hne : fs.blockMap s'.drives (setIBlock inode k b) k ≠ 0 := by rwa [hslot]
  have hown := Fs.owns_data hne
  have hwrite := h'.write hc' hne (copyAt w n source fun _ => 0)
  have hmap' := h'.map_write hne (copyAt w n source fun _ => 0)
  have hbyte := byteAt_write h' hne (copyAt w n source fun _ => 0)
  have hcons := hc'.writeBlock (h'.addressable _ hown) (h'.plain _ hown) (copyAt w n source fun _ => 0)
  have hout (c : BitVec 32) (ho : Outside fs s' (setIBlock inode k b) c) :=
    ho.write h' hc' hne (copyAt w n source fun _ => 0)
  rw [hslot] at hwrite hmap' hbyte hcons hout
  refine ⟨hcons, hwrite, fun p => ?_, fun j hj => ?_, fun j => (hmap' j).1.trans (hmap j).1,
    fun i hi => setIBlock_of_outside inode (by omega) b hi, fun c ho => ?_⟩
  · rw [hbyte, ← copyAt_block fs.blockSize_pos hw (fun i hi _ => (byteAt_hole ?_).symm) p]
    · split
      · rfl
      · next hp => exact byteAt_alloc h htakes hk hp
    · rw [mul_add_div_size fs k hi, fs.blockMap_of_lt _ _ hk]
      exact hhole
  · rw [(hmap' j).2, (hmap j).2, if_neg]
    rintro rfl
    exact hj (fs.blockMap_of_lt _ _ hk ▸ hhole)
  · obtain ⟨ho', hsame⟩ := ho.alloc h htakes hk
    obtain ⟨ho'', hsame'⟩ := hout c ho'
    exact ⟨ho'', hsame'.trans hsame⟩

theorem Consistent.giveBack (hc : Consistent fs s) (hb : b ≠ 0) (hc' : Consistent fs s')
    (htakes : Takes fs s s' b) : Consistent fs (ext2FreeBlock fs b s').2 ∧
      (∀ c, fs.Free (ext2FreeBlock fs b s').2.drives c ↔ fs.Free s.drives c) ∧
      ∀ c, fs.Addressable c → fs.Plain c →
        fs.block (ext2FreeBlock fs b s').2.drives c = fs.block s.drives c := by
  have hused : ¬ fs.Free s'.drives b := fun hf => ((htakes.free b).mp hf).2 rfl
  rcases hc'.counted.free hc.layout b with ⟨-, -, -, hreject⟩ | ⟨-, hcounted, -, -, -, hfree, hblocks⟩
  · exact absurd hreject (not_or.mpr ⟨hb, not_or.mpr ⟨not_not.mpr htakes.wasFree.1, hused⟩⟩)
  have hsame (c : BitVec 32) : fs.Free (ext2FreeBlock fs b s').2.drives c ↔ fs.Free s.drives c := by
    rw [hfree, htakes.free]
    constructor
    · rintro (hf | rfl)
      · exact hf.1
      · exact htakes.wasFree
    · intro hf
      by_cases hcb : c = b
      · exact .inr hcb
      · exact .inl ⟨hf, hcb⟩
  refine ⟨⟨hc.layout, hcounted, fun hf => hc.zero ((hsame 0).mp hf), fun c hf => hc.addressable c ((hsame c).mp hf),
    fun g hg hf => hc.bitmaps g hg ((hsame _).mp hf)⟩, hsame, fun c ha hp => ?_⟩
  rw [hblocks c ha hp, htakes.blocks c ha hp]

theorem Intact.readBlock (h : Intact fs s.drives inode) (hc : Consistent fs s)
    (hne : fs.blockMap s.drives inode k ≠ 0) :
    (ext2ReadBlock fs.toFs (fs.blockMap s.drives inode k) (fun _ => 0) s.toState).1 =
        fs.bytes (fs.block s.drives (fs.blockMap s.drives inode k)) ∧
      Consistent fs { s with
        toState := (ext2ReadBlock fs.toFs (fs.blockMap s.drives inode k) (fun _ => 0) s.toState).2 } := by
  obtain ⟨hbytes, hcoherent⟩ := hc.counted.coherent.read (h.addressable _ (Fs.owns_data hne)) fun _ => 0
  refine ⟨hbytes, hc.io hcoherent fun g _ => ?_⟩
  rw [ext2ReadBlock_drives]

structure Fills (s : AllocState) (inode : Bytes) (k : Nat) (inode' : Bytes) (s' : AllocState) : Prop where
  pointers : ∀ j, iBlock inode' j = 0 ↔ iBlock inode j = 0 ∧ j ≠ k
  count : s'.freeBlocks.toNat + (if iBlock inode k = 0 then 1 else 0) = s.freeBlocks.toNat

theorem fills_of_ne (hne : iBlock inode k ≠ 0) (hcount : s'.freeBlocks = s.freeBlocks) :
    Fills s inode k inode s' := by
  refine ⟨fun j => ⟨fun hzero => ⟨hzero, ?_⟩, fun hzero => hzero.1⟩, by rw [if_neg hne, hcount, Nat.add_zero]⟩
  rintro rfl
  exact hne hzero

/-! ### Holes -/

/-- The holes that a write to the positions from `lo` up to `hi` has to fill. -/
def AllocFs.holes (fs : AllocFs) (inode : Bytes) (lo hi : Nat) : Finset Nat :=
  (Finset.range 12).filter fun k =>
    iBlock inode k = 0 ∧ max (k * fs.blockSize) lo < min ((k + 1) * fs.blockSize) hi

theorem mem_holes {lo hi : Nat} (hk : k < 12) (hlo : lo / fs.blockSize = k) (hlt : lo < hi)
    (hhole : iBlock inode k = 0) : k ∈ fs.holes inode lo hi := by
  have hmod := Nat.mod_lt lo fs.blockSize_pos
  have hsum := Nat.div_add_mod' lo fs.blockSize
  rw [hlo] at hsum
  rw [AllocFs.holes, Finset.mem_filter, Finset.mem_range, Nat.succ_mul]
  exact ⟨hk, hhole, by omega⟩

theorem card_holes_add {lo hi : Nat} (hk : k < 12) (hlo : lo / fs.blockSize = k) (hlt : lo < hi)
    (hpointers : ∀ j, iBlock inode' j = 0 ↔ iBlock inode j = 0 ∧ j ≠ k) :
    (fs.holes inode' (lo + n) hi).card + (if iBlock inode k = 0 then 1 else 0) ≤
      (fs.holes inode lo hi).card := by
  have hsub : fs.holes inode' (lo + n) hi ⊆ (fs.holes inode lo hi).erase k := by
    intro j hj
    rw [AllocFs.holes, Finset.mem_filter, hpointers] at hj
    rw [Finset.mem_erase, AllocFs.holes, Finset.mem_filter]
    exact ⟨hj.2.1.2, hj.1, hj.2.1.1, by omega⟩
  have hle := Finset.card_le_card hsub
  split
  · next hhole =>
    have hcard := Finset.card_erase_add_one (mem_holes hk hlo hlt hhole)
    omega
  · exact hle.trans (Finset.card_le_card (Finset.erase_subset ..))

/-! ### Whole writes -/

theorem iBlock_extendSize (fs : AllocFs) (inode : Bytes) (newEnd : BitVec 32) (k : Nat) :
    iBlock (extendSize fs inode newEnd) k = iBlock inode k := by
  unfold extendSize
  split
  · rw [iBlock, setIBlocks, setISize, get_put_of_disjoint _ _ (by omega),
      get_put_of_disjoint _ _ (by omega)]
    rfl
  · rfl

theorem iSize_extendSize (fs : AllocFs) (inode : Bytes) (newEnd : BitVec 32) :
    (iSize (extendSize fs inode newEnd)).toNat = max (iSize inode).toNat newEnd.toNat := by
  unfold extendSize
  split
  · rw [iSize, setIBlocks, setISize, get_put_of_disjoint _ _ (by omega),
      LittleEndian.get_put _ _ newEnd.isLt, BitVec.ofNat_toNat, BitVec.setWidth_eq]
    omega
  · omega

theorem fileSize_extendSize (fs : AllocFs) (inode : Bytes) (newEnd : BitVec 32) :
    (fileSize (extendSize fs inode newEnd)).toNat =
      max (iSize inode).toNat newEnd.toNat + highSize inode := by
  have hfield {pos n : Nat} (h : pos + n ≤ 4 ∨ 32 ≤ pos) :
      LittleEndian.get (extendSize fs inode newEnd) pos n = LittleEndian.get inode pos n := by
    unfold extendSize
    split
    · rw [setIBlocks, setISize, get_put_of_disjoint _ _ (by omega),
        get_put_of_disjoint _ _ (by omega)]
    · rfl
  rw [fileSize_toNat, iSize_extendSize, highSize, highSize, isRegular, isRegular, iMode, iMode, iDirAcl,
    iDirAcl, hfield (by omega), hfield (by omega)]

theorem Wrote.fileSize (h : Wrote fs inode s pos n source inode' s') (newEnd : BitVec 32) :
    (iSize (extendSize fs inode' newEnd)).toNat = max (iSize inode).toNat newEnd.toNat ∧
    (Ext2.fileSize (extendSize fs inode' newEnd)).toNat =
      max (iSize inode).toNat newEnd.toNat + highSize inode := by
  have hfield {pos n : Nat} (hp : pos + n ≤ 40 ∨ 100 ≤ pos) :
      LittleEndian.get inode' pos n = LittleEndian.get inode pos n :=
    LittleEndian.get_congr fun i _ _ => h.fields i (by omega)
  rw [iSize_extendSize, fileSize_extendSize, highSize, highSize, isRegular, isRegular, iMode, iMode, iDirAcl,
    iDirAcl, iSize, iSize, hfield (by omega), hfield (by omega), hfield (by omega)]
  exact ⟨rfl, rfl⟩

def overwrite (oldSize offset size : Nat) (data f : Nat → Byte) (p : Nat) : Byte :=
  if offset ≤ p ∧ p < offset + size then data (p - offset) else if p < oldSize then f p else 0

/-- What a call of `ext2_write_file` should do to a file that reads as `f`. Blocks that are in
use and neither the file's own nor bitmaps keep their contents. -/
structure WriteCorrect (fs : AllocFs) (s : AllocState) (inode : Bytes) (offset size : BitVec 32)
    (data f : Nat → Byte) (result : BitVec 32 × Bytes × AllocState) : Prop where
  returned : result.1 = size
  extended : (iSize result.2.1).toNat = max (iSize inode).toNat (offset.toNat + size.toNat)
  reads : ReadsAs fs.toFs result.2.2.toState result.2.1
    (overwrite (fileSize inode).toNat offset.toNat size.toNat data f)
  others : ∀ c, Outside fs s inode c → fs.block result.2.2.drives c = fs.block s.drives c

theorem blockMap_extendSize (drives : Drives) (newEnd : BitVec 32) :
    fs.blockMap drives (extendSize fs inode newEnd) = fs.blockMap drives inode := by
  funext k
  rw [Fs.blockMap, iBlock_extendSize]
  rfl

theorem smallFs_consistent : Consistent (smallFs 1) smallState where
  layout := smallFs_layout 1
  counted := smallFs_counted 1
  zero := mt (smallFs_free 1 0).mp (by decide)
  addressable := fun c hc => by
    rw [(smallFs_free 1 c).mp hc]
    decide
  bitmaps := fun _ _ hc => absurd ((smallFs_free 1 3).mp hc) (by decide)

theorem blockMap_direct (fs : Fs) (drives : Drives) (hfar : ∀ j, 12 ≤ j → iBlock inode j = 0) (k : Nat) :
    fs.blockMap drives inode k = (if k < 12 then iBlock inode k else 0) ∧ fs.path drives inode k = [] := by
  split
  · next hk => exact ⟨fs.blockMap_of_lt _ _ hk, fs.path_of_lt _ _ hk⟩
  · next hk =>
    rw [Fs.blockMap, Fs.path, hfar _ (fs.route_of_le (Nat.le_of_not_lt hk)).1, foldl_pointer_zero]
    refine ⟨rfl, ?_⟩
    cases (fs.route k).2 with
    | nil => rfl
    | cons index rest => exact if_pos rfl

/-- A file with no indirect blocks, in blocks of its own. -/
theorem intact_direct (fs : AllocFs) (drives : Drives) (hfar : ∀ j, 12 ≤ j → iBlock inode j = 0)
    (hown : ∀ k < 12, iBlock inode k ≠ 0 →
      fs.Addressable (iBlock inode k) ∧ ¬fs.Free drives (iBlock inode k) ∧ fs.Plain (iBlock inode k))
    (honce : ∀ k < 12, iBlock inode k ≠ 0 → ∀ j < 12, iBlock inode j = iBlock inode k → j = k) :
    Intact fs drives inode := by
  have hmap := blockMap_direct fs.toFs drives hfar
  have hblock {k : Nat} (hne : fs.blockMap drives inode k ≠ 0) :
      k < 12 ∧ fs.blockMap drives inode k = iBlock inode k ∧ iBlock inode k ≠ 0 := by
    rw [(hmap k).1] at hne ⊢
    split at hne
    · next hk => exact ⟨hk, if_pos hk, hne⟩
    · exact absurd rfl hne
  have howns {b : BitVec 32} (hb : fs.Owns drives inode b) :
      fs.Addressable b ∧ ¬fs.Free drives b ∧ fs.Plain b := by
    obtain ⟨hne, k, rfl | hk⟩ := hb
    · obtain ⟨hk, heq, hslot⟩ := hblock hne
      rw [heq]
      exact hown k hk hslot
    · rw [(hmap k).2] at hk
      exact absurd hk List.not_mem_nil
  refine ⟨fun b hb => (howns hb).1, fun b hb => (howns hb).2.1, fun b hb => (howns hb).2.2,
    fun k hne j heq => ?_, fun k hne j hj => ?_⟩
  · obtain ⟨hk, hslot, hzero⟩ := hblock hne
    obtain ⟨hj, hslot', -⟩ := hblock (heq ▸ hne)
    exact honce k hk hzero j hj (hslot'.symm.trans (heq.trans hslot))
  · rw [(hmap j).2] at hj
    exact absurd hj List.not_mem_nil

theorem blockMap_unmapped (fs : Fs) (drives : Drives) (hzero : ∀ k, iBlock inode k = 0) (k : Nat) :
    fs.blockMap drives inode k = 0 ∧ fs.path drives inode k = [] := by
  obtain ⟨hmap, hpath⟩ := blockMap_direct fs drives (fun j _ => hzero j) k
  exact ⟨hmap.trans (by rw [hzero, ite_self]), hpath⟩

theorem intact_unmapped (fs : AllocFs) (drives : Drives) (hzero : ∀ k, iBlock inode k = 0) :
    Intact fs drives inode :=
  intact_direct fs drives (fun j _ => hzero j) (fun k _ hne => absurd (hzero k) hne)
    fun k _ hne => absurd (hzero k) hne

theorem iBlock_zeros (k : Nat) : iBlock (fun _ => 0) k = 0 :=
  show BitVec.ofNat 32 (LittleEndian.get (fun _ => 0) 0 4) = 0 by decide

end TocinOS.Ext2

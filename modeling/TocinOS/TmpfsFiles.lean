import TocinOS.Tmpfs

/-! Files of `fs/tmpfs.c` as byte arrays: what one read, write or truncation does, and the
results of every sequence of them. -/

namespace TocinOS.Tmpfs

open SparseBlocks (copyAt copyAt_in copyAt_out div_mod_add)

abbrev blockByte (blocks : List (Option Bytes)) (p : Nat) : Byte :=
  SparseBlocks.at_ blockSize 0 blocks p

def Inode.byteAt (inode : Inode) (p : Nat) : Byte := blockByte inode.blocks p

variable {n o f : Nat} {inode : Inode} {offset size : BitVec 32} {w w' : Writing} {src : Bytes}
  {a : List Byte} {inst : Instance} {rest : List Instance} {s : State}

theorem next_block {x : Nat} (h : x % blockSize + n = blockSize) :
    (x + n) / blockSize = x / blockSize + 1 ∧ (x + n) % blockSize = 0 := by
  simp only [blockSize] at h ⊢
  omega

/-! ### Reading -/

theorem readLoop_done {toRead : Nat} (h : toRead ≤ n) (blocks : List (Option Bytes)) (off : Nat)
    (dst : Bytes) : readLoop toRead blocks off n dst = (n, dst) := by
  cases blocks with
  | nil => rfl
  | cons b rest => rw [readLoop, if_neg (by omega)]

theorem readLoop_spec {blocks : List (Option Bytes)} {toRead : Nat} (n : Nat) (dst : Bytes)
    (hn : n ≤ toRead) (hcover : o + toRead ≤ blockSize * blocks.length) :
    readLoop toRead (blocks.drop ((o + n) / blockSize)) ((o + n) % blockSize) n dst =
      (toRead, fun i => if n ≤ i ∧ i < toRead then blockByte blocks (o + i) else dst i) := by
  -- on the bytes still to read
  induction hm : toRead - n using Nat.strongRecOn generalizing n dst with
  | ind m ih =>
  obtain hdone | hmore := Nat.eq_or_lt_of_le hn
  · rw [readLoop_done (Nat.le_of_eq hdone.symm), hdone]
    congr 1
    funext i
    rw [if_neg (by omega)]
  have hk : (o + n) / blockSize < blocks.length := by
    simp only [blockSize] at hcover ⊢
    omega
  have hoff : (o + n) % blockSize < blockSize := Nat.mod_lt _ (by decide)
  rw [List.drop_eq_getElem_cons hk, readLoop, if_pos hmore]
  dsimp only
  generalize hchunk : min (blockSize - (o + n) % blockSize) (toRead - n) = chunk
  have hcopied : copyAt n chunk (fun i => (blocks[(o + n) / blockSize]).getD (fun _ => 0)
      ((o + n) % blockSize + i)) dst = fun i =>
        if n ≤ i ∧ i < n + chunk then blockByte blocks (o + i) else dst i := by
    funext i
    by_cases hi : n ≤ i ∧ i < n + chunk
    · obtain ⟨hdiv, hmod⟩ := div_mod_add (n := blockSize) (p := o + n) (j := i - n) (by omega)
      rw [show o + n + (i - n) = o + i by omega] at hdiv hmod
      rw [copyAt_in hi, if_pos hi, blockByte,
        SparseBlocks.at_eq (by rw [hdiv]; exact List.getElem?_eq_getElem hk), hmod]
    · rw [copyAt_out hi, if_neg hi]
  rw [hcopied]
  obtain hlast | hnext : n + chunk = toRead ∨ (o + n) % blockSize + chunk = blockSize := by omega
  · rw [hlast, readLoop_done (Nat.le_refl _)]
  · obtain ⟨hdiv, hmod⟩ := next_block hnext
    have hrec := ih (toRead - (n + chunk)) (by omega) (n + chunk)
      (fun i => if n ≤ i ∧ i < n + chunk then blockByte blocks (o + i) else dst i)
      (by omega) rfl
    rw [← Nat.add_assoc, hdiv, hmod] at hrec
    rw [hrec]
    congr 1
    funext i
    split_ifs <;> first | rfl | omega

theorem tmpfsFileRead_spec (htype : inode.type = .file)
    (hcover : inode.size.toNat ≤ blockSize * inode.blocks.length)
    (hfit : offset.toNat + size.toNat < 2 ^ 32) (buffer : Bytes) :
    tmpfsFileRead inode offset buffer size =
      (((min size.toNat (inode.size.toNat - offset.toNat) : Nat) : Int), fun i =>
        if i < min size.toNat (inode.size.toNat - offset.toNat) then
          inode.byteAt (offset.toNat + i)
        else buffer i) := by
  rw [tmpfsFileRead, if_neg (not_not.2 htype)]
  split
  · rename_i hend
    rw [BitVec.le_def] at hend
    rw [Nat.sub_eq_zero_of_le hend, Nat.min_zero]
    rfl
  · rename_i hin
    rw [BitVec.le_def] at hin
    have hsum : (offset + size).toNat = offset.toNat + size.toNat := BitVec.toNat_add_of_lt hfit
    have htoRead : (if inode.size < offset + size then inode.size - offset else size).toNat =
        min size.toNat (inode.size.toNat - offset.toNat) := by
      split
      · rename_i hlt
        rw [BitVec.lt_def, hsum] at hlt
        rw [BitVec.toNat_sub_of_le (by rw [BitVec.le_def]; omega)]
        omega
      · rename_i hge
        rw [BitVec.lt_def, hsum] at hge
        omega
    dsimp only
    rw [htoRead]
    have hread := readLoop_spec 0 buffer (Nat.zero_le _)
      (show offset.toNat + min size.toNat (inode.size.toNat - offset.toNat) ≤
        blockSize * inode.blocks.length by omega)
    rw [Nat.add_zero] at hread
    rw [hread]
    congr 1
    funext i
    simp only [Nat.zero_le, true_and]
    rfl

/-! ### Writing -/

def Writing.Plenty (w : Writing) : Prop := ∀ k, w.allocs k = true

theorem Writing.Plenty.next (h : w.Plenty) (hallocs : w'.allocs = later w.allocs) :
    w'.Plenty := fun k => by
  rw [hallocs]
  exact h (k + 1)

/-- From `w` to `w'` the bytes of `src` up to `stop` have been written behind the first
`start` ones, with the file position `o` for the first of all. -/
structure Wrote (src : Bytes) (o start stop : Nat) (w w' : Writing) : Prop where
  order : start ≤ stop
  length : w.blocks.length ≤ w'.blocks.length
  covered : o + stop ≤ blockSize * w'.blocks.length
  bytes : ∀ p, blockByte w'.blocks p =
    if o + start ≤ p ∧ p < o + stop then src (p - o) else blockByte w.blocks p

theorem ensureBlocks_spec (n : Nat) (w : Writing) :
    let r := ensureBlocks n w
    (∀ p, blockByte r.2.blocks p = blockByte w.blocks p) ∧
      w.blocks.length ≤ r.2.blocks.length ∧
      (r.1 = true → r.2.blocks.length = w.blocks.length + n) ∧
      (w.Plenty → r.1 = true ∧ r.2.Plenty) := by
  induction n generalizing w with
  | zero => exact ⟨fun p => rfl, Nat.le_refl _, fun _ => rfl, fun h => ⟨rfl, h⟩⟩
  | succ n ih =>
    rw [ensureBlocks]
    split
    · obtain ⟨hbytes, hlength, hdone, hplenty⟩ :=
        ih { w with blocks := w.blocks ++ [none], allocs := later w.allocs }
      rw [List.length_append, List.length_singleton] at hlength hdone
      refine ⟨fun p => ?_, by omega, fun hr => ?_, fun h => hplenty (h.next rfl)⟩
      · rw [hbytes]
        exact SparseBlocks.at_append_none p
      · rw [hdone hr]
        omega
    · rename_i hfail
      exact ⟨fun p => rfl, Nat.le_refl _, nofun, fun h => absurd (h 0) hfail⟩

theorem blockData_spec {k : Nat} (hk : k < w.blocks.length) : let r := blockData k w
    r.2.blocks = w.blocks ∧
      (∀ data, r.1 = some data → ∀ p, p / blockSize = k → data (p % blockSize) = blockByte w.blocks p) ∧
      (w.Plenty → (∃ data, r.1 = some data) ∧ r.2.Plenty) := by
  have hget := List.getElem?_eq_getElem hk
  dsimp only
  unfold blockData
  cases hb : w.blocks[k] with
  | some data =>
    rw [hb] at hget
    rw [hget]
    refine ⟨rfl, fun d hd p hp => ?_, fun h => ⟨⟨data, rfl⟩, h⟩⟩
    obtain rfl : data = d := Option.some.inj hd
    have hat : w.blocks[p / blockSize]? = some (some data) := by rw [hp, hget]
    rw [blockByte, SparseBlocks.at_eq hat, Option.getD_some]
  | none =>
    rw [hb] at hget
    rw [hget]
    dsimp only
    split
    · refine ⟨rfl, fun d hd p hp => ?_, fun h => ⟨⟨_, rfl⟩, h.next rfl⟩⟩
      obtain rfl : (fun _ => 0) = d := Option.some.inj hd
      have hat : w.blocks[p / blockSize]? = some none := by rw [hp, hget]
      rw [blockByte, SparseBlocks.at_eq hat, Option.getD_none]
    · rename_i hfail
      exact ⟨rfl, nofun, fun h => absurd (h 0) hfail⟩

theorem nextBlock_spec {k : Nat} (hk : k < w.blocks.length) : let r := nextBlock k w
    (∀ p, blockByte r.2.blocks p = blockByte w.blocks p) ∧
      w.blocks.length ≤ r.2.blocks.length ∧ (r.1 = true → k + 1 < r.2.blocks.length) ∧
      (w.Plenty → r.1 = true ∧ r.2.Plenty) := by
  dsimp only
  unfold nextBlock
  split
  · rename_i hnext
    exact ⟨fun p => rfl, Nat.le_refl _, fun _ => hnext, fun h => ⟨rfl, h⟩⟩
  · rename_i hlast
    split
    · refine ⟨SparseBlocks.at_append_none, ?_, fun _ => ?_, fun h => ⟨rfl, h.next rfl⟩⟩
      · exact Nat.le_of_lt (by simp)
      · simpa using hk
    · rename_i hfail
      exact ⟨fun p => rfl, Nat.le_refl _, nofun, fun h => absurd (h 0) hfail⟩

theorem Wrote.none (hblocks : w'.blocks = w.blocks) (hk : (o + n) / blockSize < w.blocks.length) :
    Wrote src o n n w w' where
  order := Nat.le_refl n
  length := Nat.le_of_eq (by rw [hblocks])
  covered := by
    rw [hblocks]
    simp only [blockSize] at hk ⊢
    omega
  bytes p := by rw [if_neg (by omega), hblocks]

theorem Wrote.trans {a b c : Nat} {w'' : Writing} (h : Wrote src o a b w w')
    (h' : Wrote src o b c w' w'') : Wrote src o a c w w'' where
  order := Nat.le_trans h.order h'.order
  length := Nat.le_trans h.length h'.length
  covered := h'.covered
  bytes p := by
    have hab := h.order
    have hbc := h'.order
    rw [h'.bytes, h.bytes]
    split_ifs <;> first | rfl | omega

theorem Wrote.block (src : Bytes) {data : Bytes} (chunk : Nat)
    (hk : (o + n) / blockSize < w.blocks.length)
    (hdata : ∀ p, p / blockSize = (o + n) / blockSize →
      data (p % blockSize) = blockByte w.blocks p)
    (hchunk : (o + n) % blockSize + chunk ≤ blockSize)
    (hlength : w.blocks.length ≤ w'.blocks.length)
    (hbytes : ∀ p, blockByte w'.blocks p = blockByte (w.blocks.set ((o + n) / blockSize)
      (some (copyAt ((o + n) % blockSize) chunk (fun i => src (n + i)) data))) p) :
    Wrote src o n (n + chunk) w w' where
  order := Nat.le_add_right n chunk
  length := hlength
  covered := by
    simp only [blockSize] at hk hchunk ⊢
    omega
  bytes p := by
    rw [hbytes, blockByte, SparseBlocks.at_set hk]
    simp only [blockSize] at hchunk hdata ⊢
    by_cases hp : p / 4096 = (o + n) / 4096
    · rw [if_pos hp]
      by_cases hin : (o + n) % 4096 ≤ p % 4096 ∧ p % 4096 < (o + n) % 4096 + chunk
      · rw [copyAt_in hin, if_pos (by omega)]
        congr 1
        omega
      · rw [copyAt_out hin, if_neg (by omega), hdata p hp]
    · rw [if_neg hp, if_neg (by omega)]

theorem writeLoop_spec (src : Bytes) {size : Nat} (o fuel written : Nat) (w : Writing)
    (hwritten : written ≤ size) (hfuel : size - written < fuel)
    (hk : (o + written) / blockSize < w.blocks.length) :
    let r := writeLoop src size fuel ((o + written) / blockSize) ((o + written) % blockSize)
      written w
    r.1 ≤ size ∧ Wrote src o written r.1 w r.2 ∧ (w.Plenty → r.1 = size ∧ r.2.Plenty) := by
  induction fuel generalizing written w with
  | zero => omega
  | succ fuel ih =>
    dsimp only
    rw [writeLoop]
    split
    · rename_i hlt
      obtain ⟨hblocks, hdata, hplenty⟩ := blockData_spec hk
      generalize blockData ((o + written) / blockSize) w = r at hblocks hdata hplenty ⊢
      obtain ⟨d, w1⟩ := r
      cases d with
      | none =>
        refine ⟨hwritten, .none hblocks hk, fun h => ?_⟩
        obtain ⟨⟨data, hd⟩, -⟩ := hplenty h
        exact nomatch hd
      | some data =>
        dsimp only at hblocks hplenty ⊢
        have hoff : (o + written) % blockSize < blockSize := Nat.mod_lt _ (by decide)
        generalize hchunk : min (blockSize - (o + written) % blockSize) (size - written) = chunk
        generalize hw2 : w1.setBlock ((o + written) / blockSize)
          (copyAt ((o + written) % blockSize) chunk (fun i => src (written + i)) data) = w2
        have hset : w2.blocks = w.blocks.set ((o + written) / blockSize)
            (some (copyAt ((o + written) % blockSize) chunk (fun i => src (written + i)) data)) := by
          rw [← hw2, Writing.setBlock, hblocks]
        have hplenty2 (h : w.Plenty) : w2.Plenty := hw2 ▸ (hplenty h).2
        have hlength : w2.blocks.length = w.blocks.length := by rw [hset, List.length_set]
        have hstep (w' : Writing) (hlen : w2.blocks.length ≤ w'.blocks.length)
            (hbytes : ∀ p, blockByte w'.blocks p = blockByte w2.blocks p) :
            Wrote src o written (written + chunk) w w' :=
          Wrote.block src chunk hk (hdata data rfl) (by omega) (by omega) fun p => by
            rw [hbytes, hset]
        split
        · rename_i hmore
          have hend : (o + written) % blockSize + chunk = blockSize := by omega
          obtain ⟨hdiv, hmod⟩ := next_block hend
          rw [Nat.add_assoc] at hdiv hmod
          obtain ⟨hbytes, hlen, hroom, hgrown⟩ := nextBlock_spec (hlength ▸ hk)
          generalize nextBlock ((o + written) / blockSize) w2 = r at hbytes hlen hroom hgrown ⊢
          obtain ⟨ok, w3⟩ := r
          cases ok with
          | false =>
            refine ⟨?_, hstep w3 hlen hbytes, fun h => nomatch (hgrown (hplenty2 h)).1⟩
            show written + chunk ≤ size
            omega
          | true =>
            have hrec := ih (written + chunk) w3 (by omega) (by omega)
              (by rw [hdiv]; exact hroom rfl)
            rw [hdiv, hmod] at hrec
            obtain ⟨hle, hwrote, hall⟩ := hrec
            exact ⟨hle, (hstep w3 hlen hbytes).trans hwrote,
              fun h => hall (hgrown (hplenty2 h)).2⟩
        · exact ⟨by omega, hstep w2 (Nat.le_refl _) fun p => rfl,
            fun h => ⟨by omega, hplenty2 h⟩⟩
    · exact ⟨hwritten, .none rfl hk, fun h => ⟨by omega, h⟩⟩

theorem writeBlocks_spec (offset : Nat) (src : Bytes) (size : Nat) (w : Writing) :
    let r := writeBlocks offset src size w
    (r.1 = none → ∀ p, blockByte r.2.blocks p = blockByte w.blocks p) ∧
      w.blocks.length ≤ r.2.blocks.length ∧
      (∀ n, r.1 = some n → n ≤ size ∧ offset + n ≤ blockSize * r.2.blocks.length ∧
        ∀ p, blockByte r.2.blocks p =
          if offset ≤ p ∧ p < offset + n then src (p - offset) else blockByte w.blocks p) ∧
      (w.Plenty → r.1 = some size ∧ r.2.Plenty) := by
  dsimp only
  unfold writeBlocks
  obtain ⟨hbytes, hlen, hroom, hgrown⟩ :=
    ensureBlocks_spec (offset / blockSize + 1 - w.blocks.length) w
  dsimp only
  generalize ensureBlocks (offset / blockSize + 1 - w.blocks.length) w = r
    at hbytes hlen hroom hgrown ⊢
  obtain ⟨ok, w1⟩ := r
  cases ok with
  | false => exact ⟨fun _ => hbytes, hlen, nofun, fun h => nomatch (hgrown h).1⟩
  | true =>
    dsimp only at hbytes hlen hroom hgrown ⊢
    have hk : (offset + 0) / blockSize < w1.blocks.length := by
      rw [hroom rfl, Nat.add_zero]
      omega
    have hloop := writeLoop_spec src offset (size + 1) 0 w1 (Nat.zero_le size) (by omega) hk
    simp only [Nat.add_zero] at hloop
    obtain ⟨hle, hwrote, hall⟩ := hloop
    refine ⟨nofun, Nat.le_trans hlen hwrote.length, fun n hn => ?_, fun h => ?_⟩
    · cases hn
      refine ⟨hle, hwrote.covered, fun p => ?_⟩
      rw [hwrote.bytes, Nat.add_zero, hbytes]
    · obtain ⟨hsize, hplenty⟩ := hall (hgrown h).2
      exact ⟨congrArg some hsize, hplenty⟩

/-! ### Byte arrays -/

def putAt (a : List Byte) (o : Nat) (src : Bytes) (n : Nat) : List Byte :=
  (List.range (max a.length (o + n))).map fun p =>
    if o ≤ p ∧ p < o + n then src (p - o) else a.getD p 0

theorem putAt_length (a : List Byte) (o : Nat) (src : Bytes) (n : Nat) :
    (putAt a o src n).length = max a.length (o + n) := by
  simp [putAt]

theorem putAt_getD (a : List Byte) (o : Nat) (src : Bytes) (n p : Nat) :
    (putAt a o src n).getD p 0 = if o ≤ p ∧ p < o + n then src (p - o) else a.getD p 0 := by
  by_cases hp : p < max a.length (o + n)
  · simp [putAt, List.getD_eq_getElem?_getD, List.getElem?_range hp]
  · rw [if_neg (by omega), List.getD_eq_default _ _ (by rw [putAt_length]; omega),
      List.getD_eq_default _ _ (by omega)]

structure Holds (inode : Inode) (a : List Byte) : Prop where
  type : inode.type = .file
  length : inode.size.toNat = a.length
  small : a.length ≤ maxFileSize
  covered : a.length ≤ blockSize * inode.blocks.length
  bytes : ∀ p, inode.byteAt p = a.getD p 0

theorem holds_fresh : Holds { type := .file } [] where
  type := rfl
  length := rfl
  small := Nat.zero_le _
  covered := Nat.zero_le _
  bytes _ := rfl

theorem Holds.read (h : Holds inode a) (hfit : offset.toNat + size.toNat < 2 ^ 32)
    (buffer : Bytes) : tmpfsFileRead inode offset buffer size =
      (((min size.toNat (a.length - offset.toNat) : Nat) : Int), fun i =>
        if i < min size.toNat (a.length - offset.toNat) then a.getD (offset.toNat + i) 0
        else buffer i) := by
  rw [tmpfsFileRead_spec h.type (by rw [h.length]; exact h.covered) hfit, h.length]
  simp only [h.bytes]

theorem Holds.written (h : Holds inode a) {blocks : List (Option Bytes)}
    (hfit : offset.toNat + n ≤ maxFileSize) (hlength : inode.blocks.length ≤ blocks.length)
    (hcovered : offset.toNat + n ≤ blockSize * blocks.length)
    (hbytes : ∀ p, blockByte blocks p =
      if offset.toNat ≤ p ∧ p < offset.toNat + n then src (p - offset.toNat)
      else blockByte inode.blocks p) : Holds { inode with
      blocks := blocks
      size := if inode.size < offset + BitVec.ofNat 32 n then offset + BitVec.ofNat 32 n
        else inode.size } (putAt a offset.toNat src n) := by
  have hstop : (offset + BitVec.ofNat 32 n).toNat = offset.toNat + n := by
    simp only [maxFileSize] at hfit
    rw [BitVec.toNat_add, BitVec.toNat_ofNat]
    omega
  have hsize : (if inode.size < offset + BitVec.ofNat 32 n then offset + BitVec.ofNat 32 n
      else inode.size).toNat = max a.length (offset.toNat + n) := by
    have hlen := h.length
    split
    · rename_i hlt
      rw [BitVec.lt_def, hstop] at hlt
      omega
    · rename_i hge
      rw [BitVec.lt_def, hstop] at hge
      omega
  have hcov := h.covered
  have hsmall := h.small
  have hblocks := Nat.mul_le_mul_left blockSize hlength
  refine ⟨h.type, ?_, ?_, ?_, fun p => ?_⟩
  · rw [putAt_length]
    exact hsize
  · rw [putAt_length]
    omega
  · rw [putAt_length]
    show _ ≤ blockSize * blocks.length
    omega
  · rw [putAt_getD, ← h.bytes]
    exact hbytes p

theorem Holds.write_all (h : Holds inode a) {fs : Instance}
    (hfit : offset.toNat + size.toNat ≤ maxFileSize) (src : Bytes) {allocs : Nat → Bool}
    (hallocs : ∀ k, allocs k = true) (hquota : quotaPasses fs inode offset size = true) :
    let r := tmpfsFileWrite fs inode offset (some src) size allocs
    r.1 = size.toNat ∧ Holds r.2.1 (putAt a offset.toNat src size.toNat) ∧
      ∀ k, r.2.2.2 k = true := by
  have hsum : ¬BitVec.ofNat 32 maxFileSize < offset + size := by
    simp only [maxFileSize] at hfit
    rw [BitVec.lt_def, BitVec.toNat_add_of_lt (by omega)]
    simp only [maxFileSize, BitVec.toNat_ofNat]
    omega
  dsimp only
  unfold tmpfsFileWrite
  dsimp only
  rw [if_neg (not_not.2 h.type), if_neg hsum, if_neg (by rw [hquota]; decide)]
  obtain ⟨-, hlength, hsome, hall⟩ :=
    writeBlocks_spec offset.toNat src size.toNat ⟨inode.blocks, fs.usedSize, allocs⟩
  generalize writeBlocks offset.toNat src size.toNat ⟨inode.blocks, fs.usedSize, allocs⟩ = r
    at hlength hsome hall ⊢
  obtain ⟨written, w⟩ := r
  obtain ⟨rfl, hplenty⟩ := hall hallocs
  obtain ⟨hn, hcovered, hbytes⟩ := hsome _ rfl
  exact ⟨rfl, h.written hfit hlength hcovered hbytes, hplenty⟩

theorem Holds.truncate (h : Holds inode a) (fs : Instance) :
    Holds (tmpfsFileTruncate fs inode 0).2.1 [] := by
  have hzero : ((0 + 4095 : BitVec 32) / 4096).toNat = 0 := by decide
  unfold tmpfsFileTruncate
  rw [if_neg (not_not.2 h.type), if_neg (by decide), hzero]
  exact ⟨h.type, rfl, Nat.zero_le _, Nat.zero_le _, fun p => rfl⟩

/-! ### Sequences of operations on one file -/

inductive Op
  | read (offset size : BitVec 32) (buffer : Bytes)
  | write (offset size : BitVec 32) (data : Bytes)
  | overwrite (path : Path) (data : Option Bytes) (size : BitVec 32)

structure Outcome where
  result : Int
  bytes : List Byte := []

def Op.run (s : State) (f : Nat) : Op → State × Outcome
  | .read offset size buffer =>
    let r := tmpfsVfsRead s f offset size buffer
    (s, ⟨r.1, (List.range r.1.toNat).map r.2⟩)
  | .write offset size data =>
    let r := tmpfsVfsWrite s f offset size (some data)
    (r.1, ⟨r.2, []⟩)
  | .overwrite path data size =>
    let r := tmpfsCreateFile s path data size
    (r.1, ⟨r.2, []⟩)

def Op.apply (a : List Byte) : Op → List Byte × Outcome
  | .read offset size _ =>
    (a, ⟨(min size.toNat (a.length - offset.toNat) : Nat),
      (a.drop offset.toNat).take size.toNat⟩)
  | .write offset size data => (putAt a offset.toNat data size.toNat, ⟨size.toNat, []⟩)
  | .overwrite _ (some data) size =>
    if size.toNat ≤ maxFileSize then ((List.range size.toNat).map data, ⟨size.toNat, []⟩)
    else ([], ⟨-1, []⟩)
  | .overwrite _ none _ => ([], ⟨-1, []⟩)

/-- The requests considered, and that the check against the size of the instance succeeds.
An overwrite is checked after the truncation. -/
def Op.Admissible (s : State) (f : Nat) : Op → Prop
  | .read offset size _ => offset.toNat + size.toNat < 2 ^ 32
  | .write offset size _ => 1 ≤ size.toNat ∧ offset.toNat + size.toNat ≤ maxFileSize ∧
      ∃ inst rest, s.instances = inst :: rest ∧ quotaPasses inst (s.inodes f) offset size = true
  | .overwrite path _ size => ∃ inst rest, s.instances = inst :: rest ∧
      tmpfsResolvePath inst s.inodes path = .found f ∧
      (size.toNat ≤ maxFileSize →
        quotaPasses (tmpfsFileTruncate inst (s.inodes f) 0).2.2
          (tmpfsFileTruncate inst (s.inodes f) 0).2.1 0 size = true)

theorem tmpfsVfsWrite_inode (s : State) (f : Nat) (offset size : BitVec 32) (buffer : Option Bytes)
    (hinst : s.instances = inst :: rest) :
    let r := tmpfsFileWrite inst (s.inodes f) offset buffer size s.allocs
    let r' := tmpfsVfsWrite s f offset size buffer
    r'.2 = r.1 ∧ r'.1.inodes = Function.update s.inodes f r.2.1 ∧ r'.1.allocs = r.2.2.2 ∧
      r'.1.instances = r.2.2.1 :: rest := by
  dsimp only
  unfold tmpfsVfsWrite
  rw [hinst]
  exact ⟨rfl, rfl, rfl, rfl⟩

theorem range_map_eq_take_drop (a : List Byte) (o n : Nat) :
    (List.range (min n (a.length - o))).map (fun i => a.getD (o + i) 0) =
      (a.drop o).take n := by
  apply List.ext_getElem
  · simp
  · intro i h1 h2
    simp only [List.length_map, List.length_range] at h1
    simp [List.getElem?_eq_getElem (show o + i < a.length by omega)]

theorem putAt_nil (src : Bytes) (n : Nat) : putAt [] 0 src n = (List.range n).map src := by
  unfold putAt
  rw [List.length_nil, Nat.zero_max, Nat.zero_add]
  apply List.map_congr_left
  intro p hp
  rw [if_pos ⟨Nat.zero_le p, List.mem_range.mp hp⟩, Nat.sub_zero]

def State.truncated (s : State) (inst : Instance) (rest : List Instance) (f : Nat) : State :=
  { s.setInode f (tmpfsFileTruncate inst (s.inodes f) 0).2.1 with
    instances := (tmpfsFileTruncate inst (s.inodes f) 0).2.2 :: rest }

theorem tmpfsCreateFile_found {path : Path} (hinst : s.instances = inst :: rest)
    (hfound : tmpfsResolvePath inst s.inodes path = .found f) (htype : (s.inodes f).type = .file)
    (data : Option Bytes) (size : BitVec 32) :
    tmpfsCreateFile s path data size = tmpfsVfsWrite (s.truncated inst rest f) f 0 size data := by
  unfold tmpfsCreateFile
  rw [hinst]
  dsimp only
  rw [hfound]
  dsimp only
  rw [if_neg (not_not.2 htype)]
  rfl

structure Tracks (f : Nat) (s : State) (a : List Byte) : Prop where
  holds : Holds (s.inodes f) a
  plenty : ∀ k, s.allocs k = true

theorem Tracks.read (h : Tracks f s a) (hfit : offset.toNat + size.toNat < 2 ^ 32)
    (buffer : Bytes) :
    (Op.run s f (.read offset size buffer)).2 = (Op.apply a (.read offset size buffer)).2 := by
  have hread : tmpfsVfsRead s f offset size buffer = _ := h.holds.read hfit buffer
  dsimp only [Op.run, Op.apply]
  rw [hread]
  dsimp only
  rw [Int.toNat_natCast, ← range_map_eq_take_drop]
  congr 1
  apply List.map_congr_left
  intro i hi
  rw [if_pos (List.mem_range.mp hi)]

theorem Tracks.write (h : Tracks f s a) (hinst : s.instances = inst :: rest)
    (hfit : offset.toNat + size.toNat ≤ maxFileSize) (data : Bytes)
    (hquota : quotaPasses inst (s.inodes f) offset size = true) :
    let r := tmpfsVfsWrite s f offset size (some data)
    Tracks f r.1 (putAt a offset.toNat data size.toNat) ∧ r.2 = size.toNat := by
  obtain ⟨hresult, hinodes, hallocs, -⟩ := tmpfsVfsWrite_inode s f offset size (some data) hinst
  obtain ⟨hsize, hholds, hplenty⟩ := h.holds.write_all hfit data h.plenty hquota
  refine ⟨⟨?_, ?_⟩, by rw [hresult, hsize]⟩
  · rw [hinodes, Function.update_self]
    exact hholds
  · rw [hallocs]
    exact hplenty

theorem tmpfsFileWrite_refused {fs : Instance} {data : Option Bytes}
    (h : data = none ∨ maxFileSize < size.toNat) (allocs : Nat → Bool) :
    tmpfsFileWrite fs inode 0 data size allocs = (-1, inode, fs, allocs) := by
  unfold tmpfsFileWrite
  cases data with
  | none => rfl
  | some src =>
    have hsize := h.resolve_left nofun
    have hsum : BitVec.ofNat 32 maxFileSize < 0 + size := by
      rw [show 0 + size = size from BitVec.zero_add size, BitVec.lt_def]
      exact hsize
    dsimp only
    rw [if_pos hsum]
    split <;> rfl

theorem Tracks.overwrite (h : Tracks f s a) {path : Path} {data : Option Bytes}
    (hop : (Op.overwrite path data size).Admissible s f) :
    Tracks f (tmpfsCreateFile s path data size).1 (Op.apply a (.overwrite path data size)).1 ∧
      (⟨(tmpfsCreateFile s path data size).2, []⟩ : Outcome) =
        (Op.apply a (.overwrite path data size)).2 := by
  obtain ⟨inst, rest, hinst, hfound, hquota⟩ := hop
  rw [tmpfsCreateFile_found hinst hfound h.holds.type]
  have hnew : (s.truncated inst rest f).inodes f = (tmpfsFileTruncate inst (s.inodes f) 0).2.1 :=
    Function.update_self ..
  have htrack : Tracks f (s.truncated inst rest f) [] :=
    ⟨by rw [hnew]; exact h.holds.truncate inst, h.plenty⟩
  have hrefused (hno : data = none ∨ maxFileSize < size.toNat) :
      Tracks f (tmpfsVfsWrite (s.truncated inst rest f) f 0 size data).1 [] ∧
        (⟨(tmpfsVfsWrite (s.truncated inst rest f) f 0 size data).2, []⟩ : Outcome) =
          ⟨-1, []⟩ := by
    obtain ⟨hresult, hinodes, hallocs, -⟩ :=
      tmpfsVfsWrite_inode (s.truncated inst rest f) f 0 size data rfl
    rw [tmpfsFileWrite_refused hno] at hresult hinodes hallocs
    refine ⟨⟨?_, by rw [hallocs]; exact htrack.plenty⟩, by rw [hresult]⟩
    rw [hinodes, Function.update_self]
    exact htrack.holds
  cases data with
  | none => exact hrefused (.inl rfl)
  | some src =>
    dsimp only [Op.apply]
    split
    · rename_i hsize
      rw [← putAt_nil]
      have hfit : (0 : BitVec 32).toNat + size.toNat ≤ maxFileSize := by
        show 0 + size.toNat ≤ maxFileSize
        omega
      have hpasses : quotaPasses (tmpfsFileTruncate inst (s.inodes f) 0).2.2
          ((s.truncated inst rest f).inodes f) 0 size = true := by
        rw [hnew]
        exact hquota hsize
      obtain ⟨htracks, hresult⟩ := htrack.write rfl hfit src hpasses
      exact ⟨htracks, by rw [hresult]⟩
    · rename_i hsize
      exact hrefused (.inr (by omega))

theorem Tracks.run (h : Tracks f s a) {op : Op} (hop : op.Admissible s f) :
    Tracks f (op.run s f).1 (op.apply a).1 ∧ (op.run s f).2 = (op.apply a).2 := by
  cases op with
  | read offset size buffer => exact ⟨h, h.read hop buffer⟩
  | write offset size data =>
    obtain ⟨-, hfit, inst, rest, hinst, hquota⟩ := hop
    obtain ⟨htracks, hresult⟩ := h.write hinst hfit data hquota
    exact ⟨htracks, congrArg (Outcome.mk · []) hresult⟩
  | overwrite path data size => exact h.overwrite hop

def Step (f : Nat) (σ σ' : State × List Byte) : Prop :=
  ∃ op : Op, op.Admissible σ.1 f ∧ σ' = ((op.run σ.1 f).1, (op.apply σ.2).1)

theorem Tracks.steps {σ σ' : State × List Byte} (hrun : Relation.ReflTransGen (Step f) σ σ')
    (h : Tracks f σ.1 σ.2) : Tracks f σ'.1 σ'.2 := by
  induction hrun with
  | refl => exact h
  | tail _ hstep ih =>
    obtain ⟨op, hop, rfl⟩ := hstep
    exact (ih.run hop).1

/-- Along every run from a fresh file, all operations return what they return on the array. -/
theorem file_is_array {f : Nat} {s s' : State} {a : List Byte}
    (hfresh : s.inodes f = { type := .file }) (hplenty : ∀ k, s.allocs k = true)
    (hrun : Relation.ReflTransGen (Step f) (s, []) (s', a)) {op : Op}
    (hop : op.Admissible s' f) : (op.run s' f).2 = (op.apply a).2 := by
  have hstart : Tracks f s [] := ⟨by rw [hfresh]; exact holds_fresh, hplenty⟩
  exact ((Tracks.steps hrun hstart).run hop).2

def oneFile : State where
  instances := [⟨"/tmp".toList, defaultMaxSize, 0, 0⟩]
  inodes i := if i = 0 then { type := .dir, entries := [(['a'], 1)] } else { type := .file }
  next := 2
  allocs _ := true

theorem oneFile_sparse_read :
    (Op.run ((Op.write 5 3 fun _ => 7).run oneFile 1).1 1 (.read 0 10 fun _ => 1)).2 =
      ⟨8, [0, 0, 0, 0, 0, 7, 7, 7]⟩ := by
  have hwrite : (Op.write 5 3 fun _ => 7).Admissible oneFile 1 :=
    ⟨by decide, by decide, _, _, rfl, by decide⟩
  have hfresh : oneFile.inodes 1 = { type := .file } := rfl
  have hplenty : ∀ k, oneFile.allocs k = true := fun _ => rfl
  have hread : (Op.read 0 10 fun _ => 1).Admissible ((Op.write 5 3 fun _ => 7).run oneFile 1).1 1 :=
    show 0 + 10 < 2 ^ 32 by decide
  exact file_is_array hfresh hplenty (.single ⟨.write 5 3 fun _ => 7, hwrite, rfl⟩) hread

end TocinOS.Tmpfs

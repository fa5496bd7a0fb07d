import TocinOS.Ext2Lookup

/-! Files in `kernel/ext2.c`: how file data is read from the blocks of an inode. -/

namespace TocinOS.Ext2

open SparseBlocks (copyAt copyAt_append copyAt_congr copyAt_zero div_mod_add)

/-! ### Fields of `ext2_inode_t` -/

def iMode (inode : Bytes) : BitVec 16 := BitVec.ofNat 16 (LittleEndian.get inode 0 2)

def iDirAcl (inode : Bytes) : BitVec 32 := BitVec.ofNat 32 (LittleEndian.get inode 108 4)

def setISize (inode : Bytes) (size : BitVec 32) : Bytes := LittleEndian.put inode 4 4 size.toNat

def setIBlocks (inode : Bytes) (blocks : BitVec 32) : Bytes :=
  LittleEndian.put inode 28 4 blocks.toNat

def setIBlock (inode : Bytes) (k : Nat) (block : BitVec 32) : Bytes :=
  LittleEndian.put inode (40 + 4 * k) 4 block.toNat

def isRegular (inode : Bytes) : Bool := iMode inode &&& 0xF000 == 0x8000

def fileSize (inode : Bytes) : BitVec 64 :=
  if isRegular inode then (iSize inode).setWidth 64 ||| (iDirAcl inode).setWidth 64 <<< 32
  else (iSize inode).setWidth 64

/-! ### Reading -/

/-- The loop of `ext2_read_file`. Each round copies at least one byte, so the size is fuel enough. -/
def readLoop (fs : Fs) (inode : Bytes) (offset size : BitVec 32) :
    Nat → BitVec 32 → Bytes → State → BitVec 32 × Bytes × State
  | 0, bytesRead, buffer, s => (bytesRead, buffer, s)
  | fuel + 1, bytesRead, buffer, s =>
    if size.toNat ≤ bytesRead.toNat then (bytesRead, buffer, s)
    else
      let currentBlock := (offset + bytesRead).toNat / fs.blockSize
      let offsetInBlock := (offset + bytesRead).toNat % fs.blockSize
      let bytesToRead := min (fs.blockSize - offsetInBlock) (size - bytesRead).toNat
      let (blockNum, s) := ext2GetInodeBlock fs inode (BitVec.ofNat 32 currentBlock) s
      -- a hole reads as zeros
      let (bytes, s) := if blockNum = 0 then (fun _ => 0, s) else ext2ReadBlock fs blockNum (fun _ => 0) s
      readLoop fs inode offset size fuel (bytesRead + BitVec.ofNat 32 bytesToRead)
        (copyAt bytesRead.toNat bytesToRead (fun i => bytes (offsetInBlock + i)) buffer) s

def ext2ReadFile (fs : Fs) (inode : Bytes) (offset size : BitVec 32) (buffer : Bytes) (s : State) :
    BitVec 32 × Bytes × State :=
  let fileSize := fileSize inode
  if fileSize.toNat ≤ offset.toNat then (0, buffer, s)
  else
    let size := if fileSize.toNat < (offset + size).toNat then
      BitVec.ofNat 32 (fileSize.toNat - offset.toNat) else size
    readLoop fs inode offset size size.toNat 0 buffer s

def AllocState.writeBlock (fs : AllocFs) (block : BitVec 32) (buffer : Bytes) (s : AllocState) :
    AllocState :=
  { s with toState := ext2WriteBlock fs.toFs block buffer s.toState }

def extendSize (fs : AllocFs) (inode : Bytes) (newEnd : BitVec 32) : Bytes :=
  if (iSize inode).toNat < newEnd.toNat then
    let blockSize := BitVec.ofNat 32 fs.blockSize
    setIBlocks (setISize inode newEnd) ((newEnd + blockSize - 1) / blockSize * (blockSize / 512))
  else inode

def ext2WriteInode (fs : Fs) (inodeNum : BitVec 32) (inode : Bytes) (s : State) : Bool × State :=
  if inodeNum = 0 then (false, s)
  else if fs.numGroups ≤ fs.inodeGroup inodeNum then (false, s)
  else
    let (buffer, s) := ext2ReadBlock fs (fs.inodeBlock inodeNum) (fun _ => 0) s
    (true, ext2WriteBlock fs (fs.inodeBlock inodeNum)
      (copyAt (fs.inodeOffset inodeNum) 128 inode buffer) s)

/-! ### What a file holds -/

variable {fs : Fs} {good : BitVec 32 → Prop} {s : State}

def Fs.contents (fs : Fs) (drives : Drives) (map : Nat → BitVec 32) (p : Nat) : Byte :=
  if map (p / fs.blockSize) = 0 then 0
  else fs.bytes (fs.block drives (map (p / fs.blockSize))) (p % fs.blockSize)

def Fs.layoutContents (fs : Fs) (drives : Drives) (inode : Bytes) (p : Nat) : Byte :=
  if fs.layoutMap drives inode (p / fs.blockSize) = 0 then 0
  else fs.bytes (fs.layoutBlock drives (fs.layoutMap drives inode (p / fs.blockSize))) (p % fs.blockSize)

/-- The driver can reach the blocks that position `p` of the file is found through and is in. -/
def Fs.Reaches (fs : Fs) (drives : Drives) (inode : Bytes) (p : Nat) : Prop :=
  (∀ b ∈ fs.path drives inode (p / fs.blockSize), fs.Addressable b) ∧
    fs.Addressable (fs.blockMap drives inode (p / fs.blockSize))

theorem Fs.Reaches.contents_eq {drives : Drives} {inode : Bytes} {p : Nat} (h : fs.Reaches drives inode p) :
    fs.contents drives (fs.blockMap drives inode) p = fs.layoutContents drives inode p := by
  have hmap : fs.layoutMap drives inode (p / fs.blockSize) = fs.blockMap drives inode (p / fs.blockSize) :=
    Fs.foldl_layoutPointer h.1
  rw [Fs.contents, Fs.layoutContents, hmap, Fs.block_eq_layoutBlock h.2]

variable {n : Nat} {offset size : BitVec 32}

theorem Fresh.readOrZero (h : Fresh fs s) {b : BitVec 32} (hgood : b ≠ 0 → good b) :
    (if b = 0 then (fun _ => 0, s) else ext2ReadBlock fs b (fun _ => 0) s).1 =
        (fun i => if b = 0 then 0 else fs.bytes (fs.block s.drives b) i) ∧
      Reads fs good s (if b = 0 then (fun _ => 0, s) else ext2ReadBlock fs b (fun _ => 0) s).2 := by
  by_cases hzero : b = 0
  · simp only [if_pos hzero, true_and]
    exact .refl
  · simp only [if_neg hzero, (h.read b _).1]
    exact ⟨rfl, Reads.refl.read _ (hgood hzero)⟩

theorem chunk_facts {done : BitVec 32} (hend : offset.toNat + size.toNat ≤ 2 ^ 32)
    (hlt : done.toNat < size.toNat) (hn : n ≤ (size - done).toNat) :
    (offset + done).toNat = offset.toNat + done.toNat ∧ (size - done).toNat = size.toNat - done.toNat ∧
      (done + BitVec.ofNat 32 n).toNat = done.toNat + n := by
  bv_omega

theorem mod_add_of_chunk {m p i : Nat} (h : p % 2 ^ 32 % m + i < m)
    (hfits : p + i < 2 ^ 32 ∨ m ∣ 2 ^ 32) : (p + i) % 2 ^ 32 = p % 2 ^ 32 + i := by
  rcases hfits with hfits | ⟨c, hc⟩
  · omega
  have hlt : p % 2 ^ 32 / m < c :=
    Nat.div_lt_of_lt_mul (hc ▸ Nat.mod_lt p (Nat.two_pow_pos 32))
  have hmul := Nat.mul_le_mul_left m (Nat.succ_le_of_lt hlt)
  rw [Nat.mul_succ, ← hc] at hmul
  have hdiv := Nat.div_add_mod (p % 2 ^ 32) m
  rw [Nat.add_mod, Nat.mod_eq_of_lt (a := i) (by omega), Nat.mod_eq_of_lt (by omega)]

/-- Positions are 32-bit numbers. A read that runs over the last one goes on at 0 if blocks end
there. -/
theorem readLoop_spec {drives : Drives} {inode : Bytes}
    (hpath : ∀ k, ∀ b ∈ fs.path drives inode k, good b)
    (hmap : ∀ k, fs.blockMap drives inode k ≠ 0 → good (fs.blockMap drives inode k))
    (hfits : offset.toNat + size.toNat ≤ 2 ^ 32 ∨ fs.blockSize ∣ 2 ^ 32) (fuel : Nat)
    (done : BitVec 32) (buffer : Bytes) (hs : Fresh fs s) (hdrives : s.drives = drives)
    (hdone : done.toNat ≤ size.toNat) (hfuel : size.toNat ≤ done.toNat + fuel) :
    (readLoop fs inode offset size fuel done buffer s).1 = size ∧
    (readLoop fs inode offset size fuel done buffer s).2.1 =
      copyAt done.toNat (size.toNat - done.toNat)
        (fun i => fs.contents drives (fs.blockMap drives inode) ((offset.toNat + done.toNat + i) % 2 ^ 32))
        buffer ∧
    Reads fs good s (readLoop fs inode offset size fuel done buffer s).2.2 := by
  induction fuel generalizing done buffer s with
  | zero =>
    have heq : done = size := BitVec.eq_of_toNat_eq (by omega)
    rw [readLoop, heq, Nat.sub_self, copyAt_zero]
    exact ⟨rfl, rfl, .refl⟩
  | succ fuel ih =>
    rw [readLoop]
    by_cases hge : size.toNat ≤ done.toNat
    · have heq : done = size := BitVec.eq_of_toNat_eq (by omega)
      rw [if_pos hge, heq, Nat.sub_self, copyAt_zero]
      exact ⟨rfl, rfl, .refl⟩
    rw [if_neg hge]
    have hpos := fs.blockSize_pos
    dsimp only
    rw [BitVec.toNat_add]
    generalize hq : (offset.toNat + done.toNat) % 2 ^ 32 = q
    generalize hn : min (fs.blockSize - q % fs.blockSize) (size - done).toNat = n
    have hsub : (size - done).toNat = size.toNat - done.toNat := by bv_omega
    have hnext : (done + BitVec.ofNat 32 n).toNat = done.toNat + n := by bv_omega
    have hmod := Nat.mod_lt q hpos
    generalize hk : q / fs.blockSize = k
    have hindex : (BitVec.ofNat 32 k).toNat = k := by
      rw [BitVec.toNat_ofNat, Nat.mod_eq_of_lt]
      exact hk ▸ Nat.lt_of_le_of_lt (Nat.div_le_self ..) (hq ▸ Nat.mod_lt _ (Nat.two_pow_pos 32))
    obtain ⟨hblock, hreads⟩ := hs.getInodeBlock good inode (BitVec.ofNat 32 k) (hdrives ▸ hpath _)
    rw [hindex, hdrives] at hblock
    generalize ext2GetInodeBlock fs inode (BitVec.ofNat 32 k) s = found at hblock hreads
    obtain ⟨b, s₁⟩ := found
    dsimp only at hblock hreads ⊢
    subst hblock
    obtain ⟨hbytes, hreads₁⟩ := (hreads.fresh hs).readOrZero (hmap k)
    rw [hreads.drives, hdrives] at hbytes
    generalize (if fs.blockMap drives inode k = 0 then (fun _ => 0, s₁)
      else ext2ReadBlock fs (fs.blockMap drives inode k) (fun _ => 0) s₁) = step at hbytes hreads₁
    obtain ⟨bytes, s₂⟩ := step
    dsimp only at hbytes hreads₁ ⊢
    have hall := hreads.trans hreads₁
    obtain ⟨hres, hbuf, hreads₂⟩ := ih (done + BitVec.ofNat 32 n)
      (copyAt done.toNat n (fun i => bytes (q % fs.blockSize + i)) buffer)
      (hall.fresh hs) (hall.drives.trans hdrives) (by omega) (by omega)
    refine ⟨hres, hbuf.trans ?_, hall.trans hreads₂⟩
    have hsource : ∀ i < n, bytes (q % fs.blockSize + i) =
        fs.contents drives (fs.blockMap drives inode) ((offset.toNat + done.toNat + i) % 2 ^ 32) := by
      intro i hi
      have hin : q % fs.blockSize + i < fs.blockSize := by omega
      obtain ⟨hdiv, hrem⟩ := div_mod_add hin
      rw [mod_add_of_chunk (by rw [hq]; exact hin) (hfits.imp_left fun hle => by omega), hq,
        Fs.contents, hdiv, hrem, hk, hbytes]
    rw [copyAt_congr hsource, hnext]
    have hsplit : size.toNat - done.toNat = n + (size.toNat - (done.toNat + n)) := by omega
    rw [hsplit, ← copyAt_append]
    simp only [Nat.add_assoc]

/-- The bytes that a read of `size` bytes from `offset` can return. -/
def readable (inode : Bytes) (offset size : Nat) : Nat := min size ((fileSize inode).toNat - offset)

/-- The sum of offset and size is compared with the file size after it was cut to 32 bits. -/
def InRange (inode : Bytes) (offset size : Nat) : Prop :=
  offset + size < 2 ^ 32 ∨ offset + size = 2 ^ 32 ∧ 2 ^ 32 ≤ (fileSize inode).toNat

theorem readFile_spec {inode : Bytes} (good : BitVec 32 → Prop) (hs : Fresh fs s)
    (hpath : ∀ k, ∀ b ∈ fs.path s.drives inode k, good b)
    (hmap : ∀ k, fs.blockMap s.drives inode k ≠ 0 → good (fs.blockMap s.drives inode k))
    (hrange : InRange inode offset.toNat size.toNat) (buffer : Bytes) :
    (ext2ReadFile fs inode offset size buffer s).1.toNat = readable inode offset.toNat size.toNat ∧
    (ext2ReadFile fs inode offset size buffer s).2.1 =
      copyAt 0 (readable inode offset.toNat size.toNat) (fun i =>
        fs.contents s.drives (fs.blockMap s.drives inode) (offset.toNat + i)) buffer ∧
    Reads fs good s (ext2ReadFile fs inode offset size buffer s).2.2 := by
  rw [ext2ReadFile]
  dsimp only
  by_cases hend : (fileSize inode).toNat ≤ offset.toNat
  · have hzero : readable inode offset.toNat size.toNat = 0 := by
      rw [readable]
      omega
    rw [if_pos hend, hzero, copyAt_zero]
    exact ⟨rfl, rfl, .refl⟩
  rw [if_neg hend]
  generalize hn : (if (fileSize inode).toNat < (offset + size).toNat then
    BitVec.ofNat 32 ((fileSize inode).toNat - offset.toNat) else size) = n
  have hsum : (offset + size).toNat = (offset.toNat + size.toNat) % 2 ^ 32 := BitVec.toNat_add ..
  have hsize := size.isLt
  have hoffset := offset.isLt
  have hread : n.toNat = readable inode offset.toNat size.toNat ∧ offset.toNat + n.toNat ≤ 2 ^ 32 := by
    rw [readable, ← hn]
    unfold InRange at hrange
    split
    · rw [BitVec.toNat_ofNat]
      omega
    · omega
  obtain ⟨hres, hbuf, hreads⟩ := readLoop_spec hpath hmap (.inl hread.2) n.toNat 0 buffer hs rfl
    (Nat.zero_le _) (Nat.le_add_left ..)
  refine ⟨(congrArg BitVec.toNat hres).trans hread.1, hbuf.trans ?_, hreads⟩
  rw [← hread.1]
  exact copyAt_congr (fun i hi => congrArg _ (Nat.mod_eq_of_lt (by omega))) 0 buffer

def highSize (inode : Bytes) : Nat := if isRegular inode then 2 ^ 32 * (iDirAcl inode).toNat else 0

theorem highSize_or (inode : Bytes) : highSize inode = 0 ∨ 2 ^ 32 ≤ highSize inode := by
  rw [highSize]
  split <;> omega

theorem fileSize_toNat (inode : Bytes) :
    (fileSize inode).toNat = (iSize inode).toNat + highSize inode := by
  have hlow := (iSize inode).isLt
  have hhigh := (iDirAcl inode).isLt
  rw [fileSize, highSize]
  split
  · rw [BitVec.or_comm, BitVec.toNat_or, BitVec.toNat_shiftLeft, BitVec.toNat_setWidth,
      BitVec.toNat_setWidth, Nat.mod_eq_of_lt (by omega), Nat.mod_eq_of_lt (by omega),
      Nat.shiftLeft_eq, Nat.mod_eq_of_lt (by omega), Nat.mul_comm, ← Nat.two_pow_add_eq_or_of_lt hlow,
      Nat.add_comm]
  · rw [BitVec.toNat_setWidth, Nat.mod_eq_of_lt (by omega), Nat.add_zero]

/-- `ext2_read_file` returns the bytes of `f`, whatever part of the file is read. -/
def ReadsAs (fs : Fs) (s : State) (inode : Bytes) (f : Nat → Byte) : Prop :=
  ∀ (offset size : BitVec 32) (buffer : Bytes),
    offset.toNat + size.toNat ≤ (fileSize inode).toNat → offset.toNat + size.toNat ≤ 2 ^ 32 →
      (ext2ReadFile fs inode offset size buffer s).1 = size ∧
      ∀ i < size.toNat, (ext2ReadFile fs inode offset size buffer s).2.1 i = f (offset.toNat + i)

theorem readsAs_iff {inode : Bytes} (hs : Fresh fs s) {f : Nat → Byte} :
    ReadsAs fs s inode f ↔ ∀ p < (fileSize inode).toNat, p < 2 ^ 32 →
      fs.contents s.drives (fs.blockMap s.drives inode) p = f p := by
  have hread {offset size : BitVec 32} (buffer : Bytes)
      (hend : offset.toNat + size.toNat ≤ (fileSize inode).toNat)
      (h32 : offset.toNat + size.toNat ≤ 2 ^ 32) :
      (ext2ReadFile fs inode offset size buffer s).1 = size ∧ ∀ i < size.toNat,
        (ext2ReadFile fs inode offset size buffer s).2.1 i =
          fs.contents s.drives (fs.blockMap s.drives inode) (offset.toNat + i) := by
    have hrange : InRange inode offset.toNat size.toNat := by
      unfold InRange
      omega
    have hsize : readable inode offset.toNat size.toNat = size.toNat := by
      unfold readable
      omega
    obtain ⟨hres, hbuf, -⟩ := readFile_spec (fun _ => True) hs (fun _ _ _ => trivial)
      (fun _ _ => trivial) hrange buffer
    rw [hsize] at hres hbuf
    refine ⟨BitVec.eq_of_toNat_eq hres, fun i hi => ?_⟩
    rw [hbuf, copyAt, if_pos ⟨Nat.zero_le i, by omega⟩]
    rfl
  constructor
  · intro h p hp h32
    have hp32 : (BitVec.ofNat 32 p).toNat = p := Nat.mod_eq_of_lt h32
    have hone : (1 : BitVec 32).toNat = 1 := rfl
    have hend : (BitVec.ofNat 32 p).toNat + (1 : BitVec 32).toNat ≤ (fileSize inode).toNat := by omega
    have h32 : (BitVec.ofNat 32 p).toNat + (1 : BitVec 32).toNat ≤ 2 ^ 32 := by omega
    have hnew := (h _ _ (fun _ => 0) hend h32).2 0 (by decide)
    rw [(hread (fun _ => 0) hend h32).2 0 (by decide), hp32] at hnew
    exact hnew
  · intro h offset size buffer hend h32
    obtain ⟨hres, hbytes⟩ := hread buffer hend h32
    refine ⟨hres, fun i hi => ?_⟩
    rw [hbytes i hi]
    exact h _ (by omega) (by omega)

end TocinOS.Ext2

import TocinOS.Ext2WriteFile

/-! File descriptors of `kernel/fs/ext4_vfs.c`. Each descriptor has its own copy of the inode,
which is written back after a write. -/

namespace TocinOS.Ext2

open SparseBlocks (copyAt copyAt_zero)
open Function

abbrev maxFds : Nat := 64

def inodeCopy (bytes : Bytes) : Bytes := fun i => if i < 128 then bytes i else 0

/-- `ext4_fd_ctx_t`; the flags are never read. -/
structure FdContext where
  inode : Bytes
  inodeNum : BitVec 32
  position : BitVec 32
  active : Bool

structure Ext4State extends AllocState where
  fds : Nat → FdContext

namespace Ext4State

def setFd (idx : Nat) (fd : FdContext) (st : Ext4State) : Ext4State :=
  { st with fds := Function.update st.fds idx fd }

def IsOpen (st : Ext4State) (idx : Nat) : Prop := idx < maxFds ∧ (st.fds idx).active = true

instance (st : Ext4State) (idx : Nat) : Decidable (st.IsOpen idx) := inferInstanceAs (Decidable (_ ∧ _))

end Ext4State

def ext4OpenFile (fs : AllocFs) (inodeNum : BitVec 32) (st : Ext4State) : Option Nat × Ext4State :=
  let (inode, io) := ext2ReadInode fs.toFs inodeNum st.toState
  let st := { st with toState := io }
  match inode with
  | none => (none, st)
  | some inode =>
    match (List.range maxFds).find? fun i => !(st.fds i).active with
    | none => (none, st)
    | some idx =>
      (some idx, st.setFd idx { inode := inodeCopy inode, inodeNum, position := 0, active := true })

/-- `none` stands for -1. -/
def ext4ReadFd (fs : AllocFs) (idx : Nat) (buffer : Bytes) (size : BitVec 32) (st : Ext4State) :
    Option (BitVec 32) × Bytes × Ext4State :=
  if st.IsOpen idx then
    let fd := st.fds idx
    let (bytes, buffer, io) := ext2ReadFile fs.toFs fd.inode fd.position size buffer st.toState
    let st := { st with toState := io }
    if 0 < bytes.toInt then
      (some bytes, buffer, st.setFd idx { fd with position := fd.position + bytes })
    else (some bytes, buffer, st)
  else (none, buffer, st)

def ext4WriteFd (fs : AllocFs) (idx : Nat) (buffer : Bytes) (size : BitVec 32) (st : Ext4State) :
    Option (BitVec 32) × Ext4State :=
  if st.IsOpen idx then
    let fd := st.fds idx
    let (bytes, inode, s) := ext2WriteFile fs fd.inode fd.position size buffer st.toAllocState
    if 0 < bytes.toInt then
      (some bytes,
        { toState := (ext2WriteInode fs.toFs fd.inodeNum inode s.toState).2
          groupFree := s.groupFree
          freeBlocks := s.freeBlocks
          fds := Function.update st.fds idx { fd with inode, position := fd.position + bytes } })
    else (some bytes, { st with toAllocState := s }.setFd idx { fd with inode })
  else (none, st)

def ext4SeekFd (idx : Nat) (offset : BitVec 32) (whence : Nat) (st : Ext4State) :
    Option (BitVec 32) × Ext4State :=
  if st.IsOpen idx then
    let fd := st.fds idx
    let newPos := match whence with
      | 0 => some offset
      | 1 => some (fd.position + offset)
      | 2 => some (iSize fd.inode + offset)
      | _ => none
    match newPos with
    | none => (none, st)
    | some position => (some position, st.setFd idx { fd with position })
  else (none, st)

/-! ### One file -/

def Fs.inodeAt (fs : Fs) (drives : Drives) (inodeNum : BitVec 32) : Bytes :=
  inodeCopy fun i => fs.bytes (fs.block drives (fs.inodeBlock inodeNum)) (fs.inodeOffset inodeNum + i)

structure InodePlace (fs : AllocFs) (inodeNum : BitVec 32) : Prop where
  ne : inodeNum ≠ 0
  group : ¬ fs.numGroups ≤ fs.inodeGroup inodeNum
  fits : fs.inodeOffset inodeNum + 128 ≤ fs.blockSize
  addressable : fs.Addressable (fs.inodeBlock inodeNum)
  plain : fs.Plain (fs.inodeBlock inodeNum)

structure ByteFile where
  size : Nat
  bytes : Nat → Byte

def ByteFile.write (a : ByteFile) (pos n : Nat) (data : Bytes) : ByteFile :=
  if n = 0 then a else ⟨max a.size (pos + n), overwrite a.size pos n data a.bytes⟩

theorem ByteFile.size_le_write (a : ByteFile) (pos n : Nat) (data : Bytes) :
    a.size ≤ (a.write pos n data).size := by
  rw [ByteFile.write]
  split
  · exact Nat.le_refl _
  · exact Nat.le_max_left ..

structure Stored (fs : AllocFs) (inodeNum : BitVec 32) (s : AllocState) (a : ByteFile) : Prop where
  place : InodePlace fs inodeNum
  consistent : Consistent fs s
  intact : Intact fs s.drives (fs.inodeAt s.drives inodeNum)
  used : ¬ fs.Free s.drives (fs.inodeBlock inodeNum)
  foreign : ¬ fs.Owns s.drives (fs.inodeAt s.drives inodeNum) (fs.inodeBlock inodeNum)
  size : (fileSize (fs.inodeAt s.drives inodeNum)).toNat = a.size
  small : a.size < 2 ^ 32
  bytes : ∀ p, fs.byteAt s (fs.inodeAt s.drives inodeNum) p = if p < a.size then a.bytes p else 0

variable {fs : AllocFs} {inodeNum : BitVec 32} {s : AllocState} {a : ByteFile}

variable {io : State} {inode data : Bytes} {size : BitVec 32} {s' : AllocState} {idx : Nat}

theorem Stored.reads (h : Stored fs inodeNum s a)
    (hreads : Reads fs.toFs fs.Addressable s.toState io) :
    Stored fs inodeNum { s with toState := io } a := by
  have hdrives := hreads.drives
  have hc := h.consistent.io (hreads.coherent (fun _ hb => hb) h.consistent.counted.coherent)
    fun g _ => by rw [hdrives]
  refine ⟨h.place, hc, ?_, ?_, ?_, ?_, h.small, fun p => ?_⟩ <;> dsimp only
  · rw [hdrives]
    exact h.intact
  · rw [hdrives]
    exact h.used
  · rw [hdrives]
    exact h.foreign
  · rw [hdrives]
    exact h.size
  · rw [AllocFs.byteAt]
    dsimp only
    rw [hdrives]
    exact h.bytes p

theorem Stored.outside (h : Stored fs inodeNum s a) :
    Outside fs s (fs.inodeAt s.drives inodeNum) (fs.inodeBlock inodeNum) :=
  ⟨h.place.addressable, h.used, h.place.plain, fun hne k hk => h.foreign ⟨hne, k, .inl hk.symm⟩⟩

theorem inodeAt_congr {fs : Fs} {drives drives' : Drives}
    (h : fs.block drives' (fs.inodeBlock inodeNum) = fs.block drives (fs.inodeBlock inodeNum)) :
    fs.inodeAt drives' inodeNum = fs.inodeAt drives inodeNum := by
  rw [Fs.inodeAt, Fs.inodeAt, h]

/-! ### The inode is written back -/

theorem inodeAt_writeInode (hplace : InodePlace fs inodeNum) (hinode : ∀ i, 128 ≤ i → inode i = 0)
    (hio : (ext2WriteInode fs.toFs inodeNum inode s.toState).2 = io) :
    fs.inodeAt io.drives inodeNum = inode := by
  subst hio
  rw [ext2WriteInode, if_neg hplace.ne, if_neg hplace.group]
  dsimp only
  generalize ext2ReadBlock fs.toFs (fs.inodeBlock inodeNum) (fun _ => 0) s.toState = result
  generalize hbuffer : copyAt (fs.inodeOffset inodeNum) 128 inode result.1 = buffer
  have hblock := block_writeBlock (s := { s with toState := result.2 }) hplace.addressable
    hplace.addressable buffer
  rw [if_pos rfl] at hblock
  funext i
  rw [Fs.inodeAt, inodeCopy]
  split
  · next hi =>
    have hfits := hplace.fits
    refine (congrFun (congrArg fs.bytes hblock) _).trans ?_
    rw [Fs.bytes, Fs.loaded, dif_pos (by omega), Fs.stored]
    dsimp only
    rw [← hbuffer, copyAt, if_pos ⟨by omega, by omega⟩, Nat.add_sub_cancel_left]
  · next hi => exact (hinode i (Nat.le_of_not_lt hi)).symm

theorem writeInode_spec (hplace : InodePlace fs inodeNum) (hc : Consistent fs s)
    (hinode : ∀ i, 128 ≤ i → inode i = 0)
    (hio : (ext2WriteInode fs.toFs inodeNum inode s.toState).2 = io) :
    Consistent fs { s with toState := io } ∧ fs.inodeAt io.drives inodeNum = inode ∧
      (∀ c, fs.Free io.drives c ↔ fs.Free s.drives c) ∧
      ∀ c, fs.Addressable c → c ≠ fs.inodeBlock inodeNum → fs.block io.drives c = fs.block s.drives c := by
  obtain ⟨hcons, hfree, hblocks⟩ := hc.writeInode (fun _ => ⟨hplace.addressable, hplace.plain⟩) inode hio
  exact ⟨hcons, inodeAt_writeInode hplace hinode hio, hfree, fun c hc hne => hblocks c hc fun _ => hne⟩

/-! ### Calls -/

theorem Stored.readFile (h : Stored fs inodeNum s a) {offset : BitVec 32}
    (hrange : offset.toNat + size.toNat < 2 ^ 32) (buffer : Bytes) {r : BitVec 32 × Bytes × State}
    (hr : ext2ReadFile fs.toFs (fs.inodeAt s.drives inodeNum) offset size buffer s.toState = r) :
    r.1.toNat = min size.toNat (a.size - offset.toNat) ∧
      (∀ i < r.1.toNat, r.2.1 i = a.bytes (offset.toNat + i)) ∧
      Stored fs inodeNum { s with toState := r.2.2 } a := by
  have hin : InRange (fs.inodeAt s.drives inodeNum) offset.toNat size.toNat := .inl hrange
  obtain ⟨hres, hbuf, hreads⟩ := readFile_spec fs.Addressable
    h.consistent.counted.coherent.fresh (fun k b hb => h.intact.addressable b (Fs.owns_of_mem_path hb))
    (fun k hk => h.intact.addressable _ (Fs.owns_data hk)) hin buffer
  rw [hr] at hres hbuf hreads
  rw [readable, h.size] at hres hbuf
  refine ⟨hres, fun i hi => ?_, h.reads hreads⟩
  rw [hres] at hi
  rw [hbuf, copyAt, if_pos (by omega)]
  refine (h.bytes (offset.toNat + (i - 0))).trans ?_
  rw [Nat.sub_zero, if_pos (by omega)]

theorem inodeAt_of_le (fs : Fs) (drives : Drives) {i : Nat} (hi : 128 ≤ i) :
    fs.inodeAt drives inodeNum i = 0 := if_neg (Nat.not_lt.mpr hi)

theorem extendSize_of_le (inode : Bytes) (newEnd : BitVec 32) {i : Nat} (hi : 128 ≤ i) :
    extendSize fs inode newEnd i = inode i := by
  unfold extendSize
  split
  · rw [setIBlocks, setISize, LittleEndian.put, if_neg (by omega), LittleEndian.put, if_neg (by omega)]
  · rfl

theorem Wrote.not_owns {inode' : Bytes} {pos n : Nat} {c : BitVec 32}
    (h : Wrote fs inode s pos n data inode' s') (hc : Outside fs s inode c)
    (hnot : ¬ fs.Owns s.drives inode c) : ¬ fs.Owns s'.drives inode' c := by
  rintro ⟨hne, k, hk | hk⟩
  · exact (h.outside c hc).1.foreign hne k hk.symm
  · rw [h.paths] at hk
    exact hnot (Fs.owns_of_mem_path hk)

theorem Stored.wrote_nothing (h : Stored fs inodeNum s a) {pos : Nat}

    (hwrote : Wrote fs (fs.inodeAt s.drives inodeNum) s pos 0 data (fs.inodeAt s.drives inodeNum) s') :
    fs.inodeAt s'.drives inodeNum = fs.inodeAt s.drives inodeNum ∧ Stored fs inodeNum s' a := by
  obtain ⟨houtside, hblock⟩ := hwrote.outside _ h.outside
  have hinode := inodeAt_congr hblock
  refine ⟨hinode, h.place, hwrote.consistent, ?_, houtside.used, ?_, ?_, h.small, fun p => ?_⟩
  · rw [hinode]
    exact hwrote.intact
  · rw [hinode]
    exact hwrote.not_owns h.outside h.foreign
  · rw [hinode]
    exact h.size
  · rw [hinode, hwrote.byteAt, copyAt_zero]
    exact h.bytes p

theorem Stored.wrote (h : Stored fs inodeNum s a) {inode' : Bytes} {pos : BitVec 32} {n : Nat}
    (hwrote : Wrote fs (fs.inodeAt s.drives inodeNum) s pos.toNat n data inode' s') (hn : 0 < n)
    (hrange : pos.toNat + n < 2 ^ 32)
    (hio : (ext2WriteInode fs.toFs inodeNum (extendSize fs inode' (pos + BitVec.ofNat 32 n))
      s'.toState).2 = io) :
    fs.inodeAt io.drives inodeNum = extendSize fs inode' (pos + BitVec.ofNat 32 n) ∧
      (∀ k, fs.blockMap io.drives (fs.inodeAt io.drives inodeNum) k = fs.blockMap s'.drives inode' k) ∧
      Stored fs inodeNum { s' with toState := io } (a.write pos.toNat n data) := by
  have hend : (pos + BitVec.ofNat 32 n).toNat = pos.toNat + n := by
    rw [BitVec.toNat_add, BitVec.toNat_ofNat]
    omega
  generalize pos + BitVec.ofNat 32 n = newEnd at hio hend ⊢
  obtain ⟨houtside, -⟩ := hwrote.outside _ h.outside
  have hnot := hwrote.not_owns h.outside h.foreign
  obtain ⟨-, hfsize⟩ := hwrote.fileSize newEnd
  obtain ⟨hc, hat, hfree, hblocks⟩ := writeInode_spec h.place hwrote.consistent (fun i hi => by
    rw [extendSize_of_le _ _ hi, hwrote.fields i (.inr (by omega)), inodeAt_of_le _ _ hi]) hio
  have hown (c : BitVec 32) (hc : fs.Owns s'.drives inode' c) : fs.block io.drives c = fs.block s'.drives c :=
    hblocks c (hwrote.intact.addressable c hc) fun heq => hnot (heq ▸ hc)
  have hmap (k : Nat) : fs.path io.drives (extendSize fs inode' newEnd) k = fs.path s'.drives inode' k ∧
      fs.blockMap io.drives (extendSize fs inode' newEnd) k = fs.blockMap s'.drives inode' k :=
    Fs.map_congr (iBlock_extendSize fs inode' newEnd _) fun c hmem => hown c (Fs.owns_of_mem_path hmem)
  have hwrite : a.write pos.toNat n data =
      ⟨max a.size (pos.toNat + n), overwrite a.size pos.toNat n data a.bytes⟩ := if_neg (by omega)
  have hsmall := h.small
  rw [hwrite, hat]
  have hpointers := fun k => (hmap k).2
  refine ⟨rfl, hpointers, ?_⟩
  refine ⟨h.place, hc, ?_, ?_, ?_, ?_, ?_, ?_⟩ <;> dsimp only
  · rw [hat]
    exact hwrote.intact.congr hmap fun c => (hfree c).mp
  · exact fun hf => houtside.used ((hfree _).mp hf)
  · rw [hat]
    rintro ⟨hne, k, hk⟩
    rw [(hmap k).1, (hmap k).2] at hk
    exact hnot ⟨hne, k, hk⟩
  · have hold := h.size
    rw [fileSize_toNat] at hold
    rw [hat, hfsize, hend]
    have hhigh := highSize_or (fs.inodeAt s.drives inodeNum)
    omega
  · omega
  · intro p
    rw [hat]
    have hbyte : fs.byteAt { s' with toState := io } (extendSize fs inode' newEnd) p =
        fs.byteAt s' inode' p := by
      apply byteAt_congr
      · exact hpointers
      · exact hown
    rw [hbyte, hwrote.byteAt, copyAt, overwrite]
    split
    · rw [if_pos (by omega)]
    · rw [h.bytes]
      split
      · rw [if_pos (by omega)]
      · split <;> rfl

/-! ### Runs -/

inductive FdCall
  | openFile
  | read (idx : Nat) (size : BitVec 32)
  | write (idx : Nat) (size : BitVec 32) (data : Bytes)
  | seek (idx : Nat) (offset : BitVec 32) (whence : Nat)

def FdCall.run (fs : AllocFs) (inodeNum : BitVec 32) (st : Ext4State) : FdCall → Ext4State
  | .openFile => (ext4OpenFile fs inodeNum st).2
  | .read idx size => (ext4ReadFd fs idx (fun _ => 0) size st).2.2
  | .write idx size data => (ext4WriteFd fs idx data size st).2
  | .seek idx offset whence => (ext4SeekFd idx offset whence st).2

def FdCall.effect (fs : AllocFs) (st : Ext4State) (a : ByteFile) : FdCall → ByteFile
  | .write idx size data =>
    match (ext4WriteFd fs idx data size st).1 with
    | some n => a.write (st.fds idx).position.toNat n.toNat data
    | none => a
  | _ => a

def Ext4State.Current (fs : AllocFs) (inodeNum : BitVec 32) (st : Ext4State) (idx : Nat) : Prop :=
  (st.fds idx).inode = fs.inodeAt st.drives inodeNum

/-- The copy that a call on an open descriptor uses is not out of date, and the numbers fit the
arithmetic. -/
def FdCall.Timely (fs : AllocFs) (inodeNum : BitVec 32) (st : Ext4State) : FdCall → Prop
  | .openFile => True
  | .read idx size | .write idx size _ => st.IsOpen idx → st.Current fs inodeNum idx ∧
      size.toNat < 2 ^ 31 ∧ (st.fds idx).position.toNat + size.toNat < 2 ^ 32
  | .seek idx _ whence => st.IsOpen idx → whence = 2 → st.Current fs inodeNum idx

def FdStep (fs : AllocFs) (inodeNum : BitVec 32) (ok : Ext4State → FdCall → Prop)
    (x y : Ext4State × ByteFile) : Prop :=
  ∃ c, ok x.1 c ∧ y = (c.run fs inodeNum x.1, c.effect fs x.1 x.2)

def ReadAgrees (st : Ext4State) (a : ByteFile) (idx : Nat) (size : BitVec 32)
    (r : Option (BitVec 32) × Bytes × Ext4State) : Prop :=
  ∃ n, r.1 = some n ∧ n.toNat = min size.toNat (a.size - (st.fds idx).position.toNat) ∧
    (∀ i < n.toNat, r.2.1 i = a.bytes ((st.fds idx).position.toNat + i)) ∧
    (r.2.2.fds idx).position = (st.fds idx).position + n

def WriteAgrees (fs : AllocFs) (inodeNum : BitVec 32) (st : Ext4State) (idx : Nat) (size : BitVec 32)
    (r : Option (BitVec 32) × Ext4State) : Prop :=
  ∃ n, r.1 = some n ∧ n.toNat ≤ size.toNat ∧
    ((st.fds idx).position.toNat + size.toNat ≤ 12 * fs.blockSize →
      (fs.holes (fs.inodeAt st.drives inodeNum) (st.fds idx).position.toNat
        ((st.fds idx).position.toNat + size.toNat)).card ≤ st.freeBlocks.toNat → n = size) ∧
    (fileSize (fs.inodeAt st.drives inodeNum)).toNat ≤ (fileSize (fs.inodeAt r.2.drives inodeNum)).toNat ∧
    ∀ k, fs.blockMap st.drives (fs.inodeAt st.drives inodeNum) k ≠ 0 →
      fs.blockMap r.2.drives (fs.inodeAt r.2.drives inodeNum) k =
        fs.blockMap st.drives (fs.inodeAt st.drives inodeNum) k

structure OneFile (fs : AllocFs) (inodeNum : BitVec 32) (ok : Ext4State → FdCall → Prop) (st : Ext4State)
    (a : ByteFile) : Prop where
  size : (fileSize (fs.inodeAt st.drives inodeNum)).toNat = a.size
  bytes : ReadsAs fs.toFs st.toState (fs.inodeAt st.drives inodeNum) a.bytes
  read : ∀ idx size buffer, st.IsOpen idx → ok st (.read idx size) →
    ReadAgrees st a idx size (ext4ReadFd fs idx buffer size st)
  write : ∀ idx size data, st.IsOpen idx → ok st (.write idx size data) →
    WriteAgrees fs inodeNum st idx size (ext4WriteFd fs idx data size st)
  seekEnd : ∀ idx offset, st.IsOpen idx → ok st (.seek idx offset 2) →
    (ext4SeekFd idx offset 2 st).1 = some (BitVec.ofNat 32 a.size + offset)

structure OpenOn (fs : AllocFs) (inodeNum : BitVec 32) (st : Ext4State) (a : ByteFile) : Prop where
  stored : Stored fs inodeNum st.toAllocState a
  fds : ∀ idx, st.IsOpen idx → (st.fds idx).inodeNum = inodeNum

variable {st : Ext4State}

theorem inodeNum_update {st' : Ext4State} {fd : FdContext}
    (hst' : st'.fds = update st.fds idx fd) (hfd : fd.inodeNum = inodeNum)
    (h : ∀ j, st.IsOpen j → (st.fds j).inodeNum = inodeNum) :
    ∀ j, st'.IsOpen j → (st'.fds j).inodeNum = inodeNum := by
  intro j hj
  rw [Ext4State.IsOpen, hst'] at hj
  rw [hst']
  by_cases hji : j = idx
  · rw [hji, update_self]
    exact hfd
  · rw [update_of_ne hji] at hj ⊢
    exact h j hj

theorem OpenOn.setFd (h : OpenOn fs inodeNum st a) {fd : FdContext} (hfd : fd.inodeNum = inodeNum) :
    OpenOn fs inodeNum (st.setFd idx fd) a :=
  ⟨h.stored, inodeNum_update rfl hfd h.fds⟩

theorem OpenOn.reads (h : OpenOn fs inodeNum st a)
    (hreads : Reads fs.toFs fs.Addressable st.toState io) :
    OpenOn fs inodeNum { st with toState := io } a := ⟨h.stored.reads hreads, h.fds⟩

theorem OpenOn.openFile (h : OpenOn fs inodeNum st a) :
    OpenOn fs inodeNum (ext4OpenFile fs inodeNum st).2 a := by
  have hplace := h.stored.place
  rw [ext4OpenFile, ext2ReadInode, if_neg hplace.ne, if_neg hplace.group]
  dsimp only
  have hread := h.reads (Reads.refl.read (fun _ => 0) hplace.addressable)
  split
  · exact hread
  · exact hread.setFd rfl

theorem OpenOn.seek (h : OpenOn fs inodeNum st a) (idx : Nat) (offset : BitVec 32) (whence : Nat) :
    OpenOn fs inodeNum (ext4SeekFd idx offset whence st).2 a := by
  rw [ext4SeekFd]
  split
  · next hopen =>
    dsimp only
    split
    · exact h
    · exact h.setFd (h.fds idx hopen)
  · exact h

theorem toInt_pos {n : BitVec 32} (h : n.toNat < 2 ^ 31) : 0 < n.toInt ↔ 0 < n.toNat := by
  rw [BitVec.toInt_eq_toNat_of_lt (by omega)]
  omega

theorem OpenOn.read (h : OpenOn fs inodeNum st a) (buffer : Bytes) (hopen : st.IsOpen idx)
    (hok : FdCall.Timely fs inodeNum st (.read idx size)) :
    OpenOn fs inodeNum (ext4ReadFd fs idx buffer size st).2.2 a ∧
      ReadAgrees st a idx size (ext4ReadFd fs idx buffer size st) := by
  obtain ⟨hcurrent, hsize, hrange⟩ := hok hopen
  rw [Ext4State.Current] at hcurrent
  rw [ext4ReadFd, if_pos hopen]
  dsimp only
  rw [hcurrent]
  generalize hr : ext2ReadFile fs.toFs (fs.inodeAt st.drives inodeNum) (st.fds idx).position size buffer
    st.toState = r
  obtain ⟨hcount, hbytes, hstored⟩ := h.stored.readFile hrange buffer hr
  obtain ⟨n, buffer', io⟩ := r
  dsimp only at hcount hbytes hstored ⊢
  have hread : OpenOn fs inodeNum { st with toState := io } a := ⟨hstored, h.fds⟩
  have hpos := toInt_pos (n := n) (by omega)
  split
  · refine ⟨hread.setFd (h.fds idx hopen), n, rfl, hcount, hbytes, ?_⟩
    rw [Ext4State.setFd]
    dsimp only
    rw [update_self]
  · next hzero =>
    refine ⟨hread, n, rfl, hcount, hbytes, ?_⟩
    obtain rfl : n = 0 := BitVec.eq_of_toNat_eq (by
      show n.toNat = 0
      omega)
    exact (BitVec.add_zero _).symm

theorem OpenOn.write (h : OpenOn fs inodeNum st a) (hopen : st.IsOpen idx)
    (hok : FdCall.Timely fs inodeNum st (.write idx size data)) :
    OpenOn fs inodeNum (ext4WriteFd fs idx data size st).2 (FdCall.effect fs st a (.write idx size data)) ∧
      WriteAgrees fs inodeNum st idx size (ext4WriteFd fs idx data size st) := by
  obtain ⟨hcurrent, hsize, hrange⟩ := hok hopen
  rw [Ext4State.Current] at hcurrent
  obtain ⟨n, inode', s', hwrite, hle, hwrote, hsame, hall⟩ := writeFile_spec h.stored.consistent h.stored.intact
    hrange.le data
  have hn : (BitVec.ofNat 32 n).toNat = n := by
    rw [BitVec.toNat_ofNat]
    omega
  have hpos := toInt_pos (n := BitVec.ofNat 32 n) (by omega)
  rw [hn] at hpos
  have hfull (hend : (st.fds idx).position.toNat + size.toNat ≤ 12 * fs.blockSize)
      (hroom : (fs.holes (fs.inodeAt st.drives inodeNum) (st.fds idx).position.toNat
        ((st.fds idx).position.toNat + size.toNat)).card ≤ st.freeBlocks.toNat) : BitVec.ofNat 32 n = size :=
    BitVec.eq_of_toNat_eq (hn.trans (hall hend hroom))
  rw [FdCall.effect, ext4WriteFd, if_pos hopen]
  dsimp only
  rw [hcurrent, hwrite]
  dsimp only
  by_cases hzero : 0 < (BitVec.ofNat 32 n).toInt
  · simp only [if_pos hzero, hn]
    generalize hio : (ext2WriteInode fs.toFs (st.fds idx).inodeNum (extendSize fs inode'
      ((st.fds idx).position + BitVec.ofNat 32 n)) s'.toState).2 = io
    rw [h.fds idx hopen] at hio
    obtain ⟨-, hmap, hstored⟩ := h.stored.wrote hwrote (hpos.mp hzero) (by omega) hio
    refine ⟨⟨hstored, inodeNum_update rfl (h.fds idx hopen) h.fds⟩, BitVec.ofNat 32 n, rfl, by omega,
      hfull, ?_, fun k hk => (hmap k).trans (hwrote.kept k hk)⟩
    have hnew := hstored.size
    dsimp only at hnew
    rw [hnew, h.stored.size]
    exact a.size_le_write ..
  · obtain rfl : n = 0 := by omega
    obtain rfl := hsame rfl
    obtain ⟨hinode, hstored⟩ := h.stored.wrote_nothing hwrote
    have hfile : a.write (st.fds idx).position.toNat 0 data = a := if_pos rfl
    simp only [if_neg hzero, hn, hfile]
    refine ⟨⟨hstored, inodeNum_update rfl (h.fds idx hopen) h.fds⟩, _, rfl, by omega, hfull, ?_,
      fun k hk => ?_⟩
    · dsimp only [Ext4State.setFd]
      rw [hinode]
    · dsimp only [Ext4State.setFd]
      rw [hinode]
      exact hwrote.kept k hk

theorem OpenOn.run (h : OpenOn fs inodeNum st a) {c : FdCall} (hok : c.Timely fs inodeNum st) :
    OpenOn fs inodeNum (c.run fs inodeNum st) (c.effect fs st a) := by
  cases c with
  | openFile => exact h.openFile
  | read idx size =>
    by_cases hopen : st.IsOpen idx
    · exact (h.read _ hopen hok).1
    · rw [FdCall.run, ext4ReadFd, if_neg hopen]
      exact h
  | write idx size data =>
    by_cases hopen : st.IsOpen idx
    · exact (h.write hopen hok).1
    · rw [FdCall.run, FdCall.effect, ext4WriteFd, if_neg hopen]
      exact h
  | seek idx offset whence => exact h.seek idx offset whence

theorem OpenOn.oneFile (h : OpenOn fs inodeNum st a) :
    OneFile fs inodeNum (FdCall.Timely fs inodeNum) st a := by
  refine ⟨h.stored.size, ?_, fun idx size buffer hopen hok => (h.read buffer hopen hok).2,
    fun idx size data hopen hok => (h.write hopen hok).2, fun idx offset hopen hok => ?_⟩
  · rw [readsAs_iff h.stored.consistent.counted.coherent.fresh, h.stored.size]
    intro p hp _
    refine (h.stored.bytes p).trans ?_
    rw [if_pos hp]
  · have hcurrent := hok hopen rfl
    rw [Ext4State.Current] at hcurrent
    have hsize := h.stored.size
    have hsmall := h.stored.small
    have hhigh := highSize_or (fs.inodeAt st.drives inodeNum)
    rw [fileSize_toNat] at hsize
    have hend : iSize (fs.inodeAt st.drives inodeNum) = BitVec.ofNat 32 a.size := by
      apply BitVec.eq_of_toNat_eq
      rw [BitVec.toNat_ofNat]
      omega
    rw [ext4SeekFd, if_pos hopen]
    dsimp only
    rw [hcurrent, hend]
    rfl

theorem one_file {st' : Ext4State} {a' : ByteFile} (h : OpenOn fs inodeNum st a)
    (hrun : Relation.ReflTransGen (FdStep fs inodeNum (FdCall.Timely fs inodeNum)) (st, a) (st', a')) :
    OneFile fs inodeNum (FdCall.Timely fs inodeNum) st' a' := by
  have hinv (y : Ext4State × ByteFile)
      (hy : Relation.ReflTransGen (FdStep fs inodeNum (FdCall.Timely fs inodeNum)) (st, a) y) :
      OpenOn fs inodeNum y.1 y.2 := by
    induction hy with
    | refl => exact h
    | tail _ hstep ih =>
      obtain ⟨c, hok, rfl⟩ := hstep
      exact ih.run hok
  exact (hinv _ hrun).oneFile

theorem OpenOn.current (h : OpenOn fs inodeNum st a)
    (hidx : (ext4OpenFile fs inodeNum st).1 = some idx) :
    (ext4OpenFile fs inodeNum st).2.Current fs inodeNum idx := by
  have hplace := h.stored.place
  have hread := (h.stored.consistent.counted.coherent.fresh.read (fs.inodeBlock inodeNum) fun _ => 0).1
  have hdrives := ext2ReadBlock_drives fs.toFs (fs.inodeBlock inodeNum) (fun _ => 0) st.toState
  revert hidx
  rw [ext4OpenFile, ext2ReadInode, if_neg hplace.ne, if_neg hplace.group]
  dsimp only
  rw [hread]
  split
  · exact nofun
  · intro hidx
    cases hidx
    rw [Ext4State.Current, Ext4State.setFd]
    dsimp only
    rw [update_self, hdrives]
    rfl

theorem smallFs_inodeAt : (smallFs 1).inodeAt smallState.drives 1 = fun _ => 0 := by
  funext i
  rw [Fs.inodeAt, inodeCopy]
  split
  · next hi =>
    have hoffset : (smallFs 1).inodeOffset 1 = 0 := by decide
    have hblock : (smallFs 1).inodeBlock 1 = 5 := by decide
    have hlt : 0 + i < (smallFs 1).blockSize := show 0 + i < 1024 by omega
    rw [hoffset, hblock, Fs.bytes, Fs.loaded, dif_pos hlt, Fs.block, Fs.sector_eq]
    show (if (5 * (1024 / 512) + (0 + i) / 512) % 2 ^ 28 = 6 ∨ (5 * (1024 / 512) + (0 + i) / 512) % 2 ^ 28 = 7
      then (0xFE : Byte) else 0) = 0
    exact if_neg (by omega)
  · rfl

def emptyFile : ByteFile := ⟨0, fun _ => 0⟩

def noneOpen : Ext4State := { smallState with fds := fun _ => ⟨fun _ => 0, 0, 0, false⟩ }

def oneOpen : Ext4State := (ext4OpenFile (smallFs 1) 1 noneOpen).2

def twoOpen : Ext4State := (ext4OpenFile (smallFs 1) 1 oneOpen).2

theorem noneOpen_empty : OpenOn (smallFs 1) 1 noneOpen emptyFile := by
  have hinode : (smallFs 1).inodeAt noneOpen.drives 1 = fun _ => 0 := smallFs_inodeAt
  have hmap := blockMap_unmapped (smallFs 1).toFs noneOpen.drives iBlock_zeros
  have hplain : (smallFs 1).inodeBlock 1 ≠ 3 := by decide
  refine ⟨⟨⟨by decide, by decide, by decide, by decide, fun _ _ => hplain⟩, smallFs_consistent, ?_,
    mt (smallFs_free 1 5).mp (by decide), ?_, ?_, by decide, fun p => ?_⟩, fun idx hopen => ?_⟩
  · rw [hinode]
    exact intact_unmapped _ _ iBlock_zeros
  · rw [hinode]
    rintro ⟨hne, k, hk⟩
    rw [(hmap k).1, (hmap k).2] at hk
    exact hk.elim hne (List.not_mem_nil ·)
  · rw [hinode]
    decide
  · rw [hinode]
    exact if_pos (hmap _).1
  · exact absurd hopen.2 Bool.false_ne_true

def oneWritten : Ext4State := FdCall.run (smallFs 1) 1 oneOpen (.write 0 5 fun _ => 7)

theorem oneWritten_oneFile : OneFile (smallFs 1) 1 (FdCall.Timely (smallFs 1) 1) oneWritten
    (FdCall.effect (smallFs 1) oneOpen emptyFile (.write 0 5 fun _ => 7)) :=
  one_file noneOpen_empty.openFile
    (.single ⟨.write 0 5 fun _ => 7, fun _ => ⟨noneOpen_empty.current rfl, by decide, by decide⟩, rfl⟩)

def twoWritten : Ext4State := FdCall.run (smallFs 1) 1 twoOpen (.write 0 5 fun _ => 7)

def writtenFile : ByteFile := FdCall.effect (smallFs 1) twoOpen emptyFile (.write 0 5 fun _ => 7)

/-- The second descriptor still has the inode of the empty file, and finds nothing to read. -/
theorem twoWritten_not_oneFile :
    OpenOn (smallFs 1) 1 noneOpen emptyFile ∧
      Relation.ReflTransGen (FdStep (smallFs 1) 1 fun _ _ => True) (noneOpen, emptyFile)
        (twoWritten, writtenFile) ∧
      ¬ OneFile (smallFs 1) 1 (fun _ _ => True) twoWritten writtenFile := by
  refine ⟨noneOpen_empty, ((Relation.ReflTransGen.single ⟨.openFile, trivial, rfl⟩).tail
    ⟨.openFile, trivial, rfl⟩).tail ⟨.write 0 5 fun _ => 7, trivial, rfl⟩, fun h => ?_⟩
  have hread : (ext4ReadFd (smallFs 1) 1 (fun _ => 0) 5 twoWritten).1 = some 0 := by decide +kernel
  have hsize : writtenFile.size = 5 := by decide +kernel
  have hposition : (twoWritten.fds 1).position = 0 := by decide +kernel
  obtain ⟨n, hn, hcount, -⟩ := h.read 1 5 (fun _ => 0) (by decide +kernel) trivial
  rw [hread] at hn
  cases hn
  rw [hsize, hposition] at hcount
  exact absurd hcount (by decide)

end TocinOS.Ext2

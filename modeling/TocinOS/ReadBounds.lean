import TocinOS.FatRuns
import TocinOS.Ext2File
import TocinOS.TmpfsFiles

/-! How far `fat_read`, `ext2_read_file` and `tmpfs_file_read` read. Each of them compares the end
of the request, cut to 32 bits, with the file size before it cuts the request down. -/

namespace TocinOS

def clamped (size offset n : Nat) : Nat :=
  if size < (offset + n) % 2 ^ 32 then size - offset else n

/-- The end of the request does not overflow, or what is left of it still lies behind the file. -/
def EndFits (size offset n : Nat) : Prop := offset + n < 2 ^ 32 ∨ size < offset + n - 2 ^ 32

section

variable {size offset n : Nat}

theorem clamped_eq_min (hoffset : offset < 2 ^ 32) (hn : n < 2 ^ 32) (h : EndFits size offset n) :
    clamped size offset n = min n (size - offset) := by
  unfold clamped
  unfold EndFits at h
  split_ifs <;> omega

theorem clamped_of_not_endFits (hoffset : offset < 2 ^ 32) (hn : n < 2 ^ 32)
    (h : ¬EndFits size offset n) : clamped size offset n = n ∧ 2 ^ 32 ≤ offset + n := by
  unfold clamped
  unfold EndFits at h
  split_ifs <;> omega

end

namespace Fat

variable {ide : Ide} {s : State} {v : Volume} {chain : List Nat} {first size n : Nat} {file : File}

def ReadsWithin (ide : Ide) (s : State) (v : Volume) (chain : List Nat) (file : File) (n : Nat) :
    Prop :=
  ∃ t file' k, k ≤ file.size - file.position ∧ fatRead ide s file n =
    some (t, file', BitVec.ofNat 32 k, (List.range' file.position k).map (v.fileByte chain))

theorem Opened.readLoop (hf : Opened v chain size file) (h : Mounted ide s v)
    (hv : v.Sized) (hchain : v.Chain first chain) (hlen : size ≤ chain.length * v.clusterSize)
    (hcapacity : chain.length * v.clusterSize ≤ 2 ^ 32) (hlt : file.position < size)
    (hwhole : v.Whole chain file.position
      (file.position + min n (chain.length * v.clusterSize - file.position))) :
    ∃ t file', readLoop ide n n s file [] = some (t, file',
      (List.range' file.position (min n (chain.length * v.clusterSize - file.position))).map
        (v.fileByte chain)) := by
  obtain ⟨t, k, -, -, hfull, hloop⟩ := @Attached.readLoop ide s v first chain h.attached
    (fun t c _ => h.faultless t _) hv hchain file n n file.position [] (by omega) (by omega) hwhole
    (Nat.sub_le _ _)
  rw [hf.movedTo (by omega)] at hloop
  obtain rfl := hfull h.faultless
  exact ⟨t, _, hloop⟩

/-- The exact outcome: with the request cut down, the bytes up to the end of the file; otherwise
those up to the end of the chain. -/
theorem Opened.readsWithin_iff (hf : Opened v chain size file) (h : Mounted ide s v)
    (hv : v.Sized) (hchain : v.Chain first chain) (hlen : size ≤ chain.length * v.clusterSize)
    (hsize : size < 2 ^ 32) (hcapacity : chain.length * v.clusterSize ≤ 2 ^ 32) (hn : n < 2 ^ 32)
    (hwhole : v.Whole chain file.position (file.position +
      min (clamped file.size file.position n) (chain.length * v.clusterSize - file.position))) :
    ReadsWithin ide s v chain file n ↔
      file.size ≤ file.position ∨ EndFits file.size file.position n ∨
        chain.length * v.clusterSize = file.size := by
  have hpos := hf.position
  have hopen : ¬ ((!s.mounted) = true ∨ (!file.isOpen) = true) := by simp [h.mounted, hf.isOpen]
  rw [hf.fileSize] at hwhole
  rw [ReadsWithin, fatRead, if_neg hopen, hf.fileSize]
  by_cases heof : size ≤ file.position
  · rw [if_pos heof]
    exact iff_of_true ⟨s, file, 0, Nat.zero_le _, rfl⟩ (.inl heof)
  rw [if_neg heof, or_iff_right heof]
  by_cases hend : EndFits size file.position n
  · have hclamp := clamped_eq_min (by omega) hn hend
    rw [hclamp] at hwhole
    rw [clamped] at hclamp
    dsimp only
    rw [hclamp]
    refine iff_of_true ?_ (.inl hend)
    generalize hcount : min n (size - file.position) = count
    rw [hcount] at hwhole
    obtain ⟨t, file', hloop⟩ := hf.readLoop h hv hchain hlen hcapacity (by omega) hwhole
    rw [Nat.min_eq_left (by omega)] at hloop
    rw [hloop]
    dsimp only
    rw [List.length_map, List.length_range']
    exact ⟨t, file', count, by omega, rfl⟩
  · obtain ⟨hclamp, hover⟩ := clamped_of_not_endFits (by omega) hn hend
    rw [hclamp] at hwhole
    rw [clamped] at hclamp
    dsimp only
    obtain ⟨t, file', hloop⟩ := hf.readLoop h hv hchain hlen hcapacity (by omega) hwhole
    rw [Nat.min_eq_right (by omega)] at hloop
    rw [hclamp, hloop, or_iff_right hend]
    dsimp only
    rw [List.length_map, List.length_range']
    constructor
    · rintro ⟨t', file'', k, hk, heq⟩
      simp only [Option.some.injEq, Prod.mk.injEq] at heq
      have hlength := congrArg List.length heq.2.2.2
      simp only [List.length_map, List.length_range'] at hlength
      omega
    · intro heq
      exact ⟨t, file', size - file.position, Nat.le_refl _, by rw [heq]⟩

end Fat

namespace Ext2

open SparseBlocks (copyAt copyAt_congr copyAt_zero)

variable {fs : Fs} {s : State} {inode : Bytes} {good : BitVec 32 → Prop} {offset n : BitVec 32}

def ReadsWithin (fs : Fs) (s : State) (inode : Bytes) (offset n : BitVec 32) : Prop :=
  ∀ buffer, ∃ k, k ≤ (fileSize inode).toNat - offset.toNat ∧
    (ext2ReadFile fs inode offset n buffer s).1.toNat = k ∧
    (ext2ReadFile fs inode offset n buffer s).2.1 =
      copyAt 0 k (fun i => fs.layoutContents s.drives inode (offset.toNat + i)) buffer

theorem readsWithin_iff (hs : Fresh fs s) (hdvd : fs.blockSize ∣ 2 ^ 32)
    (hreach : ∀ i < n.toNat, offset.toNat + i < (fileSize inode).toNat →
      fs.Reaches s.drives inode (offset.toNat + i) ∧
        fs.Reaches s.drives inode ((offset.toNat + i) % 2 ^ 32)) :
    ReadsWithin fs s inode offset n ↔
      (fileSize inode).toNat ≤ offset.toNat ∨
        EndFits (fileSize inode).toNat offset.toNat n.toNat ∨
          n.toNat ≤ (fileSize inode).toNat - offset.toNat ∧ ∀ i < n.toNat,
            fs.layoutContents s.drives inode ((offset.toNat + i) % 2 ^ 32) =
              fs.layoutContents s.drives inode (offset.toNat + i) := by
  have hoffset := offset.isLt
  have hn := n.isLt
  rw [ReadsWithin]
  simp only [ext2ReadFile]
  by_cases heof : (fileSize inode).toNat ≤ offset.toNat
  · simp only [if_pos heof]
    exact iff_of_true (fun buffer => ⟨0, Nat.zero_le _, rfl, (copyAt_zero ..).symm⟩) (.inl heof)
  simp only [if_neg heof]
  rw [or_iff_right heof]
  generalize hm : (if (fileSize inode).toNat < (offset + n).toNat then
    BitVec.ofNat 32 ((fileSize inode).toNat - offset.toNat) else n) = m
  have hclamp : m.toNat = clamped (fileSize inode).toNat offset.toNat n.toNat := by
    rw [← hm, clamped, BitVec.toNat_add]
    split_ifs
    · rw [BitVec.toNat_ofNat, Nat.mod_eq_of_lt (by omega)]
    · rfl
  have hloop (buffer : Bytes) := @readLoop_spec fs (fun _ => True) s offset m s.drives inode
    (fun _ _ _ => trivial) (fun _ _ => trivial) (.inr hdvd) m.toNat 0 buffer hs rfl (Nat.zero_le _)
    (Nat.le_add_left ..)
  by_cases hend : EndFits (fileSize inode).toNat offset.toNat n.toNat
  · rw [clamped_eq_min hoffset hn hend] at hclamp
    refine iff_of_true (fun buffer => ⟨m.toNat, by omega, ?_⟩) (.inl hend)
    have hfits : offset.toNat + m.toNat ≤ 2 ^ 32 := by
      unfold EndFits at hend
      omega
    refine ⟨congrArg BitVec.toNat (hloop buffer).1, (hloop buffer).2.1.trans ?_⟩
    refine copyAt_congr (fun i hi => ?_) 0 buffer
    rw [Nat.mod_eq_of_lt (show _ + i < _ by omega)]
    exact (hreach i (by omega) (by omega)).1.contents_eq
  · rw [(clamped_of_not_endFits hoffset hn hend).1] at hclamp
    obtain rfl := BitVec.eq_of_toNat_eq hclamp
    rw [or_iff_right hend]
    constructor
    · intro h
      obtain ⟨k, hk, hres, -⟩ := h fun _ => 0
      rw [(hloop _).1] at hres
      refine ⟨by omega, fun i hi => ?_⟩
      obtain ⟨k, -, hres, hbuf⟩ := h fun _ => 0
      rw [(hloop _).1] at hres
      rw [(hloop _).2.1] at hbuf
      have hbyte := congrFun hbuf i
      rw [← (hreach i hi (by omega)).2.contents_eq]
      simpa [copyAt, hi, ← hres] using hbyte
    · rintro ⟨hle, heq⟩ buffer
      refine ⟨m.toNat, hle, congrArg BitVec.toNat (hloop buffer).1, (hloop buffer).2.1.trans ?_⟩
      exact copyAt_congr (fun i hi => (hreach i hi (by omega)).2.contents_eq.trans (heq i hi)) 0 buffer

end Ext2

namespace Tmpfs

variable {inode : Inode} {offset n : BitVec 32}

def ReadsWithin (inode : Inode) (offset n : BitVec 32) : Prop :=
  ∀ buffer, ∃ k : Nat, k ≤ inode.size.toNat - offset.toNat ∧ tmpfsFileRead inode offset buffer n =
    ((k : Int), fun i => if i < k then inode.byteAt (offset.toNat + i) else buffer i)

theorem readLoop_exhausts {toRead : Nat} (blocks : List (Option Bytes)) {off : Nat}
    (hoff : off < blockSize) (done : Nat) (dst : Bytes)
    (hmuch : done + (blockSize * blocks.length - off) ≤ toRead) :
    readLoop toRead blocks off done dst =
      readLoop (done + (blockSize * blocks.length - off)) blocks off done dst := by
  induction blocks generalizing off done dst with
  | nil => rfl
  | cons block rest ih =>
    have hlength : blockSize * (block :: rest).length = blockSize * rest.length + blockSize := by
      rw [List.length_cons, Nat.mul_succ]
    rw [hlength] at hmuch ⊢
    rw [readLoop, readLoop, if_pos (by omega), if_pos (by omega), Nat.min_eq_left (by omega),
      Nat.min_eq_left (by omega), ih (by decide) _ _ (by omega)]
    congr 1
    omega

theorem readsWithin_iff (htype : inode.type = .file)
    (hcover : inode.size.toNat ≤ blockSize * inode.blocks.length)
    (hcapacity : blockSize * inode.blocks.length ≤ 2 ^ 32) :
    ReadsWithin inode offset n ↔
      inode.size.toNat ≤ offset.toNat ∨ EndFits inode.size.toNat offset.toNat n.toNat ∨
        blockSize * inode.blocks.length = inode.size.toNat := by
  have hoffset := offset.isLt
  have hn := n.isLt
  rw [ReadsWithin]
  simp only [tmpfsFileRead, if_neg (not_not.2 htype), BitVec.le_def]
  by_cases heof : inode.size.toNat ≤ offset.toNat
  · simp only [if_pos heof]
    exact iff_of_true (fun buffer => ⟨0, Nat.zero_le _, rfl⟩) (.inl heof)
  simp only [if_neg heof]
  rw [or_iff_right heof]
  generalize hm : (if inode.size < offset + n then inode.size - offset else n) = m
  have hclamp : m.toNat = clamped inode.size.toNat offset.toNat n.toNat := by
    rw [← hm, clamped]
    simp only [BitVec.lt_def, BitVec.toNat_add]
    split_ifs
    · rw [BitVec.toNat_sub_of_le (by rw [BitVec.le_def]; omega)]
    · rfl
  have hloop (toRead : Nat) (hle : offset.toNat + toRead ≤ blockSize * inode.blocks.length)
      (buffer : Bytes) : readLoop toRead (inode.blocks.drop (offset.toNat / blockSize))
        (offset.toNat % blockSize) 0 buffer =
          (toRead, fun i => if i < toRead then inode.byteAt (offset.toNat + i) else buffer i) := by
    have hread := readLoop_spec 0 buffer (Nat.zero_le _) hle
    simpa [Inode.byteAt] using hread
  by_cases hend : EndFits inode.size.toNat offset.toNat n.toNat
  · rw [clamped_eq_min hoffset hn hend] at hclamp
    refine iff_of_true (fun buffer => ⟨m.toNat, by omega, ?_⟩) (.inl hend)
    rw [hloop _ (by omega)]
  · obtain ⟨hself, hover⟩ := clamped_of_not_endFits hoffset hn hend
    rw [hself] at hclamp
    -- the blocks from the first one read on hold what is left of the capacity
    have hleft : blockSize * (inode.blocks.drop (offset.toNat / blockSize)).length -
        offset.toNat % blockSize = blockSize * inode.blocks.length - offset.toNat := by
      rw [List.length_drop]
      simp only [blockSize]
      omega
    have hall (buffer : Bytes) : readLoop m.toNat (inode.blocks.drop (offset.toNat / blockSize))
        (offset.toNat % blockSize) 0 buffer =
          (blockSize * inode.blocks.length - offset.toNat, fun i =>
            if i < blockSize * inode.blocks.length - offset.toNat then
              inode.byteAt (offset.toNat + i) else buffer i) := by
      rw [readLoop_exhausts _ (Nat.mod_lt _ (by decide)) 0 buffer (by omega), hleft, Nat.zero_add,
        hloop _ (by omega)]
    rw [or_iff_right hend]
    simp only [hall, Prod.mk.injEq]
    constructor
    · intro h
      obtain ⟨k, hk, hres, -⟩ := h fun _ => 0
      omega
    · intro heq buffer
      exact ⟨_, by omega, rfl, rfl⟩

def twoBytes : Inode := { type := .file, size := 2, blocks := [some fun _ => 7] }

end Tmpfs

end TocinOS

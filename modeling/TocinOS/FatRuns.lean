import TocinOS.FatSteady
import TocinOS.FatTable

/-! Reading and seeking in a file of a mounted FAT16 or FAT32 volume give the
bytes that the file's cluster chain holds on the disk. -/

namespace TocinOS.Fat

/-! ### Calls on a disk whose reads may fail -/

def TableReadable (ide : Ide) (s : State) (v : Volume) (chain : List Nat) : Prop :=
  ∀ t, ∀ c ∈ chain, ide t s.currentDrive
    (BitVec.ofNat 32 (v.bpb.reservedSectors + v.entryOffset c / 512) + s.partitionOffset) ≠ none

def Faultless (ide : Ide) (s : State) : Prop :=
  ∀ t n, ide t s.currentDrive (BitVec.ofNat 32 n + s.partitionOffset) ≠ none

structure Mounted (ide : Ide) (s : State) (v : Volume) : Prop where
  mounted : s.mounted = true
  info : s.info = .ofBpb v.bpb
  readable : ∀ t n, ide t s.currentDrive (BitVec.ofNat 32 n + s.partitionOffset) = some (v n)

section

variable {ide : Ide} {s t : State} {v : Volume} {first n : Nat} {chain : List Nat}

theorem Mounted.readSector (h : Mounted ide s v) {sector : BitVec 32}
    (hn : sector = BitVec.ofNat 32 n) : ∃ t, fatReadSector ide s sector = (t, 0) ∧ Mounted ide t v ∧
      ∀ i < 512, t.sectorBuffer i = v n i := by
  subst hn
  simp only [fatReadSector, h.readable]
  refine ⟨_, rfl, ⟨h.mounted, h.info, h.readable⟩, fun i hi => ?_⟩
  simp [hi]

theorem fatMount_mounted {s₀ : State} {drive : BitVec 8} {content : BitVec 32 → Sector}
    (hread : ∀ t lba, ide t drive lba = some (content lba))
    (h : fatMount ide s₀ drive = (s, 0)) :
    Mounted ide s (fun n => content (BitVec.ofNat 32 n + s.partitionOffset)) := by
  obtain ⟨t, ht, hdrive, hbuf⟩ : ∃ t, fatReadSector ide { s₀ with currentDrive := drive } 0 = (t, 0) ∧
      t.currentDrive = drive ∧ ∀ i < 512, t.sectorBuffer i = content (0 + t.partitionOffset) i := by
    simp only [fatReadSector, hread]
    exact ⟨_, rfl, rfl, fun i hi => if_pos hi⟩
  simp only [fatMount, ht, ne_eq, not_true_eq_false, if_false] at h
  split_ifs at h with hsig
  · exact absurd (Prod.mk.inj h).2 (by decide)
  · cases h
    refine ⟨rfl, congrArg Info.ofBpb (Bpb.parse_congr hbuf), fun _ n => ?_⟩
    dsimp only
    rw [hdrive, hread]

theorem Attached.alike (h : Attached ide s v) (hm : Alike s t) :
    Attached ide t v where
  mounted := hm.mounted.trans h.mounted
  info := hm.info.trans h.info
  content := by
    rw [hm.drive, hm.offset]
    exact h.content

theorem TableReadable.alike (h : TableReadable ide s v chain)
    (hs : Alike s t) : TableReadable ide t v chain := by
  rw [TableReadable, hs.drive, hs.offset]
  exact h

theorem Faultless.alike (h : Faultless ide s) (hs : Alike s t) : Faultless ide t := by
  rw [Faultless, hs.drive, hs.offset]
  exact h

theorem Volume.Supported.not_straddles (hv : v.Supported) (c : Nat) : ¬v.Straddles c := by
  rintro ⟨ht, -⟩
  rcases hv.type with ht' | ht' <;> simp [ht] at ht'

/-- The table has the links of the chain between two positions in one piece. -/
def Volume.Whole (v : Volume) (chain : List Nat) (start stop : Nat) : Prop :=
  ∀ i c, chain[i]? = some c → start < (i + 1) * v.clusterSize → (i + 1) * v.clusterSize ≤ stop →
    ¬v.Straddles c

theorem Volume.Supported.whole (hv : v.Supported) (chain : List Nat) (start stop : Nat) :
    v.Whole chain start stop :=
  fun _ c _ _ _ => hv.not_straddles c

theorem Attached.readChunk (h : Attached ide s v) (hchain : v.Chain first chain)
    {position count : Nat} (hpos : position / v.clusterSize < chain.length)
    (hcluster : position % v.clusterSize + count ≤ v.clusterSize)
    (hsector : position % v.clusterSize % 512 + count ≤ 512) :
    let r := fatReadSector ide s
      (fatClusterToSector s (Volume.clusterAt chain (position / v.clusterSize)) +
        BitVec.ofNat 32 (position % v.clusterSize / 512))
    ∃ t, Alike s t ∧ (r = (t, -1) ∧ ¬ Faultless ide s ∨ r = (t, 0) ∧
      (List.range count).map (fun i => t.sectorBuffer (position % v.clusterSize % 512 + i)) =
        (List.range' position count).map (v.fileByte chain)) := by
  have hmem : Volume.clusterAt chain (position / v.clusterSize) ∈ chain := by
    simp [Volume.clusterAt, hpos]
  dsimp only
  rw [Volume.dataSector h.info (hchain.cluster _ hmem).1]
  generalize hn : v.dataStart + (Volume.clusterAt chain (position / v.clusterSize) - 2) *
    v.bpb.sectorsPerCluster + position % v.clusterSize / 512 = n
  have hmoved := fatReadSector_alike ide s (BitVec.ofNat 32 n)
  rw [fatReadSector] at hmoved ⊢
  cases hread : ide s.reads s.currentDrive (BitVec.ofNat 32 n + s.partitionOffset) with
  | none =>
    rw [hread] at hmoved
    exact ⟨_, hmoved, .inl ⟨rfl, fun hall => hall _ _ hread⟩⟩
  | some data =>
    rw [hread] at hmoved
    refine ⟨_, hmoved, .inr ⟨rfl, ?_⟩⟩
    rw [List.range'_eq_map_range, List.map_map]
    apply List.map_congr_left
    intro i hi
    have hlt := List.mem_range.mp hi
    rw [Function.comp_apply, Volume.fileByte_add (by omega) (by omega), hn]
    dsimp only
    rw [if_pos (by omega), h.content _ _ _ hread]

section

variable (h : Attached ide s v) (htable : TableReadable ide s v chain) (hv : v.Sized)
  (hchain : v.Chain first chain)

include h htable hv hchain

theorem Attached.next {i c : Nat} (hc : chain[i]? = some c) (hone : ¬v.Straddles c) :
    (fatGetNextCluster ide s c).2 = Volume.clusterAt chain (i + 1) := by
  have hmem := List.mem_of_getElem? hc
  have hmark := v.packedEnd_le
  have hlt := (hchain.cluster c hmem).2
  have hnext := h.nextCluster_eq hv.bytesPerSector (by omega) (htable _ c hmem) hone s.sectorBuffer
  rw [Volume.successor, hchain.next v hc] at hnext
  exact hnext

theorem Attached.advance {position count : Nat} (hpos : position / v.clusterSize < chain.length)
    (hcluster : position % v.clusterSize + count ≤ v.clusterSize)
    (hwhole : v.Whole chain position (position + count)) :
    ∃ t, Alike s t ∧
      (if v.clusterSize ≤ position % v.clusterSize + count then
        fatGetNextCluster ide s (Volume.clusterAt chain (position / v.clusterSize))
      else (s, Volume.clusterAt chain (position / v.clusterSize))) =
        (t, Volume.clusterAt chain ((position + count) / v.clusterSize)) := by
  split_ifs with hend
  · have hget : chain[position / v.clusterSize]? =
        some (Volume.clusterAt chain (position / v.clusterSize)) := by
      simp [Volume.clusterAt, hpos]
    have hmod := Nat.div_add_mod' position v.clusterSize
    have hlt := Nat.mod_lt position hv.clusterSize_pos
    have hone := hwhole _ _ hget (by rw [Nat.succ_mul]; omega) (by rw [Nat.succ_mul]; omega)
    refine ⟨_, fatGetNextCluster_alike ide s _, Prod.ext rfl ?_⟩
    rw [h.next htable hv hchain hget hone, div_add_of_end hv.clusterSize_pos (by omega)]
  · rw [(SparseBlocks.div_mod_add (by omega)).1]
    exact ⟨s, .refl s, rfl⟩

/-- The file at byte `p` of the chain. The position is a 32-bit number, so it is not `p` when the chain
ends at 2^32. -/
def File.movedTo (file : File) (v : Volume) (chain : List Nat) (p : Nat) : File :=
  { file with
    position := p % 2 ^ 32
    currentCluster := Volume.clusterAt chain (p / v.clusterSize) }

/-- A round stops at a data sector that cannot be read, or copies bytes of the file that are in one
cluster of the chain. -/
theorem Attached.readRound {size p : Nat} {buf : List (BitVec 8)}
    (hmore : buf.length < size) (hlt : p < chain.length * v.clusterSize) (hp : p < 2 ^ 32)
    (hwhole : v.Whole chain p (p + min (size - buf.length) (chain.length * v.clusterSize - p)))
    (file : File) (fuel : Nat) :
    ∃ t, Alike s t ∧ (¬Faultless ide s ∧ readLoop ide size (fuel + 1) s (file.movedTo v chain p) buf =
          some (t, file.movedTo v chain p, buf) ∨
      ∃ count, 0 < count ∧ count ≤ size - buf.length ∧ p + count ≤ chain.length * v.clusterSize ∧
        readLoop ide size (fuel + 1) s (file.movedTo v chain p) buf =
          readLoop ide size fuel t (file.movedTo v chain (p + count))
            (buf ++ (List.range' p count).map (v.fileByte chain))) := by
  have hpos : p / v.clusterSize < chain.length := Volume.div_lt hlt (Nat.le_refl _)
  have hmem : Volume.clusterAt chain (p / v.clusterSize) ∈ chain := by simp [Volume.clusterAt, hpos]
  have hgoOn := hchain.ne_endOfChain v hmem
  obtain ⟨hcount, hle, hcluster, hsector⟩ :=
    hv.copySize_bounds h.info p (size - buf.length) (by omega)
  generalize hn : s.info.copySize p (size - buf.length) = count at *
  obtain ⟨t, ht, ⟨hfail, hfault⟩ | ⟨hread, hbytes⟩⟩ := h.readChunk hchain hpos hcluster hsector
  · refine ⟨t, ht, .inl ⟨hfault, ?_⟩⟩
    simp [Fat.readLoop, File.movedTo, hmore, hgoOn, hv.clusterSize_eq h.info, hv.bytesPerSector_eq h.info,
      hfail, Nat.mod_eq_of_lt (show p < 4294967296 from hp)]
  have hinside : p + count ≤ chain.length * v.clusterSize := by
    have hdiv := Nat.div_add_mod p v.clusterSize
    have hmul := Nat.mul_le_mul_right v.clusterSize (Nat.succ_le_of_lt hpos)
    rw [Nat.succ_mul, Nat.mul_comm] at hmul
    omega
  obtain ⟨u, hu, hnext⟩ := (h.alike ht).advance (htable.alike ht) hv hchain hpos hcluster
    fun i c hc hlow hhigh => hwhole i c hc hlow (by omega)
  refine ⟨u, ht.trans hu, .inr ⟨count, hcount, hle, hinside, ?_⟩⟩
  simp only [Fat.readLoop, File.movedTo, hmore, hgoOn, ne_eq, not_false_eq_true, and_self, if_true,
    Nat.mod_eq_of_lt hp, hv.clusterSize_eq h.info, hv.bytesPerSector_eq h.info, hn, hread,
    hv.clusterSize_eq (h.alike ht).info, hnext, hbytes, not_true_eq_false, if_false]

/-- The loop stops when it has what it is asked for, at the end of the chain, or at a data sector
that cannot be read; what it has copied by then are bytes of the file. -/
theorem Attached.readLoop (file : File) {size fuel p : Nat} {buf : List (BitVec 8)} (hp : p ≤ chain.length * v.clusterSize)
    (hroom : p + min (size - buf.length) (chain.length * v.clusterSize - p) ≤ 2 ^ 32)
    (hwhole : v.Whole chain p (p + min (size - buf.length) (chain.length * v.clusterSize - p)))
    (hfuel : size - buf.length ≤ fuel) :
    ∃ t k, Alike s t ∧ k ≤ min (size - buf.length) (chain.length * v.clusterSize - p) ∧
      (Faultless ide s → k = min (size - buf.length) (chain.length * v.clusterSize - p)) ∧
      readLoop ide size fuel s (file.movedTo v chain p) buf =
        some (t, file.movedTo v chain (p + k), buf ++ (List.range' p k).map (v.fileByte chain)) := by
  induction fuel generalizing s buf p with
  | zero =>
    have hdone : ¬ buf.length < size := by omega
    refine ⟨s, 0, .refl s, Nat.zero_le _, fun _ => by omega, ?_⟩
    simp [Fat.readLoop, hdone]
  | succ fuel ih =>
    by_cases hmore : buf.length < size ∧ p < chain.length * v.clusterSize
    · obtain ⟨hmore, hlt⟩ := hmore
      obtain ⟨t, ht, ⟨hfault, hstop⟩ | ⟨count, hcount, hle, hinside, hround⟩⟩ :=
        h.readRound htable hv hchain hmore hlt (by omega) hwhole file fuel
      · exact ⟨t, 0, ht, Nat.zero_le _, fun hall => absurd hall hfault, by simp [hstop]⟩
      · have hlength : (buf ++ (List.range' p count).map (v.fileByte chain)).length =
            buf.length + count := by simp
        obtain ⟨u, k, hu, hk, hfull, hrest⟩ := @ih t (h.alike ht) (htable.alike ht) (p + count)
          (buf ++ (List.range' p count).map (v.fileByte chain)) hinside (by omega) (fun i c hc hlow hhigh => hwhole i c hc (by omega) (by omega)) (by omega)
        refine ⟨u, count + k, ht.trans hu, by omega, fun hall => ?_, ?_⟩
        · have hrest := hfull (hall.alike ht)
          omega
        · rw [hround, hrest, List.append_assoc, ← List.map_append, List.range'_append_1, Nat.add_assoc]
    · have hdone : ¬ (buf.length < size ∧ (file.movedTo v chain p).currentCluster ≠ endOfChain) := by
        rintro ⟨hless, hgoOn⟩
        obtain rfl : p = chain.length * v.clusterSize := by omega
        rw [File.movedTo, Nat.mul_div_cancel _ hv.clusterSize_pos] at hgoOn
        exact hgoOn (Volume.clusterAt_past (Nat.le_refl _))
      refine ⟨s, 0, .refl s, Nat.zero_le _, fun _ => by omega, ?_⟩
      simp [Fat.readLoop, hdone]

end

theorem Attached.walkChain (hv : v.Supported) (hchain : v.Chain first chain) {s : State}
    (h : Attached ide s v) (htable : TableReadable ide s v chain) (n i : Nat) :
    ∃ t, Alike s t ∧
      walkChain ide n s (Volume.clusterAt chain i) = (t, Volume.clusterAt chain (i + n)) := by
  induction n generalizing s i with
  | zero => exact ⟨s, .refl s, rfl⟩
  | succ n ih =>
    cases hi : chain[i]? with
    | some c =>
      have hgoOn : c ≠ endOfChain := hchain.ne_endOfChain v (List.mem_of_getElem? hi)
      have hm := fatGetNextCluster_alike ide s c
      obtain ⟨u, hu, hwalk⟩ := ih (h.alike hm) (htable.alike hm) (i + 1)
      refine ⟨u, hm.trans hu, ?_⟩
      simp only [Fat.walkChain, Volume.clusterAt_eq hi, ne_eq, hgoOn, not_false_eq_true, if_true,
        h.next htable hv.toSized hchain hi (hv.not_straddles c), hwalk, Nat.add_assoc, Nat.add_comm 1 n]
    | none =>
      refine ⟨s, .refl s, ?_⟩
      have hlen := List.getElem?_eq_none_iff.mp hi
      simp only [Fat.walkChain, Volume.clusterAt_past hlen,
        Volume.clusterAt_past (hlen.trans (Nat.le_add_right i _)), ne_eq, not_true_eq_false, if_false]

structure Opened (v : Volume) (chain : List Nat) (size : Nat) (file : File) : Prop where
  isOpen : file.isOpen = true
  fileSize : file.size = size
  first : file.firstCluster = Volume.clusterAt chain 0
  position : file.position ≤ size
  cluster : file.currentCluster = Volume.clusterAt chain (file.position / v.clusterSize)

variable {size : Nat} {file : File}

theorem Opened.movedTo (hf : Opened v chain size file) (hp : file.position < 2 ^ 32) :
    file.movedTo v chain file.position = file := by
  rw [File.movedTo, Nat.mod_eq_of_lt hp, ← hf.cluster]

theorem Opened.readSome (hf : Opened v chain size file) (h : Attached ide s v)
    (htable : TableReadable ide s v chain) (hv : v.Supported) (hchain : v.Chain first chain)
    (hlen : size ≤ chain.length * v.clusterSize) (hsize : size < 2 ^ 32) {n : Nat}
    (hn : file.position + n < 2 ^ 32) :
    ∃ t file' k, Alike s t ∧ Opened v chain size file' ∧
      k ≤ min n (size - file.position) ∧
      (Faultless ide s → k = min n (size - file.position)) ∧ fatRead ide s file n =
        some (t, file', BitVec.ofNat 32 k, (List.range' file.position k).map (v.fileByte chain)) ∧
      file'.position = file.position + k := by
  have hpos := hf.position
  have hopen : ¬ ((!s.mounted) = true ∨ (!file.isOpen) = true) := by simp [h.mounted, hf.isOpen]
  rw [fatRead, if_neg hopen, hf.fileSize]
  by_cases heof : size ≤ file.position
  · rw [if_pos heof]
    exact ⟨s, file, 0, .refl s, hf, Nat.zero_le _, fun _ => by omega, rfl, rfl⟩
  · have hclamp : (if size < (file.position + n) % 2 ^ 32 then size - file.position else n) =
        min n (size - file.position) := by
      rw [Nat.mod_eq_of_lt hn]
      split_ifs <;> omega
    rw [if_neg heof]
    simp only [hclamp]
    generalize hcount : min n (size - file.position) = count
    have hmin : min count (chain.length * v.clusterSize - file.position) = count := by omega
    obtain ⟨t, k, ht, hk, hfull, hloop⟩ := @Attached.readLoop ide s v first chain h htable hv.toSized
      hchain file count count file.position [] (by omega) (by rw [List.length_nil]; omega)
      (hv.whole _ _ _) (Nat.sub_le _ _)
    rw [List.length_nil, Nat.sub_zero, hmin] at hk hfull
    rw [hf.movedTo (by omega)] at hloop
    have hposition : (file.movedTo v chain (file.position + k)).position = file.position + k :=
      Nat.mod_eq_of_lt (by omega)
    refine ⟨t, file.movedTo v chain (file.position + k), k, ht,
      ⟨hf.isOpen, hf.fileSize, hf.first, by omega, ?_⟩, hk, hfull, ?_, hposition⟩
    · rw [hposition]
      rfl
    · rw [hloop]
      simp

theorem Opened.seekSome (hf : Opened v chain size file) (h : Attached ide s v)
    (htable : TableReadable ide s v chain) (hv : v.Supported) (hchain : v.Chain first chain)
    (target : Nat) :
    ∃ t file', Alike s t ∧ Opened v chain size file' ∧
      fatSeek ide s file target = (t, file', 0) ∧ file'.position = min target size := by
  have hclamp : (if size < target then size else target) = min target size := by
    split_ifs <;> omega
  obtain ⟨t, ht, hwalk⟩ := h.walkChain hv hchain htable (min target size / v.clusterSize) 0
  rw [Nat.zero_add] at hwalk
  refine ⟨t, { file with
    position := min target size
    currentCluster := Volume.clusterAt chain (min target size / v.clusterSize) }, ht,
    ⟨hf.isOpen, hf.fileSize, hf.first, Nat.min_le_right _ _, rfl⟩, ?_, rfl⟩
  simp only [fatSeek, hf.isOpen, hf.fileSize, hf.first, hclamp, hv.clusterSize_eq h.info, hwalk,
    Bool.not_true, Bool.false_eq_true, if_false]

/-! ### Calls on a disk without faults -/

theorem Mounted.attached (h : Mounted ide s v) : Attached ide s v where
  mounted := h.mounted
  info := h.info
  content t n _ hdata := (Option.some.inj ((h.readable t n).symm.trans hdata)).symm

theorem Mounted.faultless (h : Mounted ide s v) : Faultless ide s := by
  intro t n
  rw [h.readable]
  exact Option.some_ne_none _

theorem Mounted.alike (h : Mounted ide s v) (hs : Alike s t) : Mounted ide t v where
  mounted := hs.mounted.trans h.mounted
  info := hs.info.trans h.info
  readable := by
    rw [hs.drive, hs.offset]
    exact h.readable

theorem Opened.read (hf : Opened v chain size file) (h : Mounted ide s v) (hv : v.Supported)
    (hchain : v.Chain first chain) (hlen : size ≤ chain.length * v.clusterSize)
    (hsize : size < 2 ^ 32) (hn : file.position + n < 2 ^ 32) :
    ∃ t file', Mounted ide t v ∧ Opened v chain size file' ∧
      fatRead ide s file n = some (t, file', BitVec.ofNat 32 (min n (size - file.position)),
        (List.range' file.position (min n (size - file.position))).map (v.fileByte chain)) ∧
      file'.position = file.position + min n (size - file.position) := by
  obtain ⟨t, file', k, ht, ho, -, hfull, hread, hposition⟩ :=
    hf.readSome h.attached (fun t c _ => h.faultless t _) hv hchain hlen hsize hn
  obtain rfl := hfull h.faultless
  exact ⟨t, file', h.alike ht, ho, hread, hposition⟩

theorem Opened.seek (hf : Opened v chain size file) (h : Mounted ide s v) (hv : v.Supported)
    (hchain : v.Chain first chain) (target : Nat) :
    ∃ t file', Mounted ide t v ∧ Opened v chain size file' ∧
      fatSeek ide s file target = (t, file', 0) ∧ file'.position = min target size := by
  obtain ⟨t, file', ht, ho, hseek, hposition⟩ :=
    hf.seekSome h.attached (fun t c _ => h.faultless t _) hv hchain target
  exact ⟨t, file', h.alike ht, ho, hseek, hposition⟩

inductive Step (ide : Ide) : State × File → State × File → Prop
  | read {s t : State} {file file' : File} {n : Nat} {ret : BitVec 32} {bytes : List (BitVec 8)}
      (hn : file.position + n < 2 ^ 32) (h : fatRead ide s file n = some (t, file', ret, bytes)) :
      Step ide (s, file) (t, file')
  | seek {s t : State} {file file' : File} {target : Nat} {ret : Int} (ht : target < 2 ^ 32)
      (h : fatSeek ide s file target = (t, file', ret)) : Step ide (s, file) (t, file')

def openedFile (first size : Nat) : File := ⟨first, first, 0, size, true⟩

theorem openedFile_opened (hchain : v.Chain first chain) (hpos : 0 < size)
    (hlen : size ≤ chain.length * v.clusterSize) :
    Opened v chain size (openedFile first size) := by
  have hfirst : first = Volume.clusterAt chain 0 := by
    obtain ⟨c, l, rfl⟩ := List.exists_cons_of_ne_nil (l := chain) (by
      rintro rfl
      simp at hlen
      omega)
    simpa [Volume.clusterAt] using hchain.head.symm
  exact ⟨rfl, rfl, hfirst, Nat.zero_le _, by simpa [openedFile] using hfirst⟩

structure Reads (ide : Ide) (v : Volume) (chain : List Nat) (size : Nat) (s : State) (file : File) :
    Prop where
  cluster : file.currentCluster = Volume.clusterAt chain (file.position / v.clusterSize)
  read : ∀ n, file.position + n < 2 ^ 32 → ∃ t file',
    fatRead ide s file n = some (t, file', BitVec.ofNat 32 (min n (size - file.position)),
      (List.range' file.position (min n (size - file.position))).map (v.fileByte chain)) ∧
    file'.position = file.position + min n (size - file.position)
  seek : ∀ target < 2 ^ 32, ∃ t file', fatSeek ide s file target = (t, file', 0) ∧
    file'.position = min target size

theorem Opened.step {t : State} {file' : File} (hf : Opened v chain size file)
    (h : Mounted ide s v) (hv : v.Supported) (hchain : v.Chain first chain)
    (hlen : size ≤ chain.length * v.clusterSize) (hsize : size < 2 ^ 32)
    (hs : Step ide (s, file) (t, file')) : Mounted ide t v ∧ Opened v chain size file' := by
  cases hs with
  | read hn he =>
    obtain ⟨t', file'', hm, ho, he', _⟩ := hf.read h hv hchain hlen hsize hn
    rw [he, Option.some.injEq] at he'
    obtain ⟨rfl, rfl, -⟩ := he'
    exact ⟨hm, ho⟩
  | @seek _ _ _ _ target _ _ he =>
    obtain ⟨t', file'', hm, ho, he', _⟩ := hf.seek h hv hchain target
    rw [he] at he'
    obtain ⟨rfl, rfl, -⟩ := he'
    exact ⟨hm, ho⟩

/-- After any calls on a file of a mounted volume, reads return the bytes of its
cluster chain and the current cluster is the one of the position. -/
theorem runs_read_file {content : BitVec 32 → Sector} {s₀ : State} {drive : BitVec 8}
    (hread : ∀ t lba, ide t drive lba = some (content lba))
    (hmount : fatMount ide s₀ drive = (s, 0))
    (hvolume : v = fun n => content (BitVec.ofNat 32 n + s.partitionOffset)) (hv : v.Supported)
    (hpos : 0 < size) (hsize : size < 2 ^ 32) (hchain : v.Chain first chain)
    (hlen : size ≤ chain.length * v.clusterSize)
    (hrun : Relation.ReflTransGen (Step ide) (s, openedFile first size) (t, file)) :
    Reads ide v chain size t file := by
  have hinv : Mounted ide t v ∧ Opened v chain size file := by
    generalize he : (t, file) = c at hrun
    induction hrun generalizing t file with
    | refl =>
      cases he
      exact ⟨hvolume ▸ fatMount_mounted hread hmount, openedFile_opened hchain hpos hlen⟩
    | tail _ hs ih =>
      subst he
      obtain ⟨hm, ho⟩ := ih rfl
      exact ho.step hm hv hchain hlen hsize hs
  obtain ⟨hm, ho⟩ := hinv
  refine ⟨ho.cluster, fun n hn => ?_, fun target _ => ?_⟩
  · obtain ⟨t', file', _, _, he, hp⟩ := ho.read hm hv hchain hlen hsize hn
    exact ⟨t', file', he, hp⟩
  · obtain ⟨t', file', _, _, he, hp⟩ := ho.seek hm hv hchain target
    exact ⟨t', file', he, hp⟩

end

def smallContent (lba : BitVec 32) : Sector := fun i =>
  if lba = 0 then
    match i with
    | 12 => 2
    | 13 => 1
    | 14 => 1
    | 16 => 2
    | 18 => 2
    | 20 => 0x20
    | 22 => 32
    | 510 => 0x55
    | 511 => 0xAA
    | _ => 0
  else if lba = 1 then
    match i with
    | 4 => 3
    | 6 => 0xFF
    | 7 => 0xFF
    | _ => 0
  else BitVec.ofNat 8 (lba.toNat + i)

def smallIde : Ide := fun _ _ lba => some (smallContent lba)

theorem small_runs_read_file :
    Reads smallIde (fun n => smallContent (BitVec.ofNat 32 n + 0)) [2, 3] 600
      (fatMount smallIde unmounted 0).1 (openedFile 2 600) := by
  have hread : ∀ t lba, smallIde t 0 lba = some (smallContent lba) := fun _ _ => rfl
  have hmount : fatMount smallIde unmounted 0 = ((fatMount smallIde unmounted 0).1, 0) :=
    Prod.ext rfl (by decide)
  refine runs_read_file hread hmount rfl ⟨⟨by decide, by decide⟩, by decide⟩ (by decide) (by decide)
    ⟨rfl, by decide, ?_, by decide⟩ (by decide) .refl
  simp only [List.isChain_cons_cons, List.isChain_singleton, and_true]
  decide

end TocinOS.Fat

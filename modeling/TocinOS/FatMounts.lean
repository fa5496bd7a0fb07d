import TocinOS.FatRuns

/-! `fat_mount` and `fat_init` of `kernel/fat.c` on a driver that has a volume mounted already: what
a call that fails leaves to the open files. -/

namespace TocinOS.Fat

open Function (update)

def isFatPartition (type : BitVec 8) : Bool :=
  type == 0x01 || type == 0x04 || type == 0x06 || type == 0x0B || type == 0x0C || type == 0x0E

def hasFatName (sector : Sector) (offset : Nat) : Bool :=
  sector offset == 0x46 && sector (offset + 1) == 0x41 && sector (offset + 2) == 0x54

def lbaFirst (sector : Sector) (i : Nat) : Nat := field sector (454 + 16 * i) 4

def partitionStart (mbr : Sector) : BitVec 32 :=
  if mbr 510 ≠ 0x55 ∨ mbr 511 ≠ 0xAA then 0
  else if hasFatName mbr 0x36 || hasFatName mbr 0x52 then 0
  else
    match (List.range 4).find? fun i =>
      isFatPartition (mbr (450 + 16 * i)) && decide (0 < lbaFirst mbr i) with
    | some i => BitVec.ofNat 32 (lbaFirst mbr i)
    | none => 0

section

variable (ide : Ide)

def fatFindPartition (s : State) (drive : BitVec 8) : State × BitVec 32 :=
  match ide s.reads drive 0 with
  | none => ({ s with reads := s.reads + 1 }, 0)
  | some data =>
    let s := { s with
      reads := s.reads + 1
      sectorBuffer := fun i => if i < 512 then data i else s.sectorBuffer i }
    (s, partitionStart s.sectorBuffer)

def fatInit (s : State) (drive : BitVec 8) : State × Int :=
  let (s, partitionStart) := fatFindPartition ide s drive
  fatMount ide { s with partitionOffset := partitionStart } drive

/-! ### Calls on open files -/

inductive FileCall where
  | open (handle : Nat) (path : Str)
  | seek (handle position : Nat)
  | read (handle size : Nat)

inductive Outcome where
  | status (ret : Int)
  | data (ret : BitVec 32) (bytes : List (BitVec 8))
  | stuck

def FileCall.handle : FileCall → Nat
  | .open handle _ | .seek handle _ | .read handle _ => handle

def FileCall.run (files : Nat → File) (s : State) : FileCall → State × File × Outcome
  | .open handle path =>
    let (s, file, ret) := fatOpen ide s path (files handle)
    (s, file, .status ret)
  | .seek handle position =>
    let (s, file, ret) := fatSeek ide s (files handle) position
    (s, file, .status ret)
  | .read handle size =>
    match fatRead ide s (files handle) size with
    | none => (s, files handle, .stuck)
    | some (s, file, ret, bytes) => (s, file, .data ret bytes)

def outcomes : State → (Nat → File) → List FileCall → List (File × Outcome)
  | _, _, [] => []
  | s, files, call :: calls =>
    let (s, file, outcome) := call.run ide files s
    (file, outcome) :: outcomes s (update files call.handle file) calls

def Unnoticed (s t : State) : Prop :=
  ∀ files calls, outcomes ide s files calls = outcomes ide t files calls

end

section

variable {ide : Ide} {s s₀ t : State}

theorem FileCall.settles (hide : FaultFree ide s₀.currentDrive)
    (hbps : 0 < s₀.info.bytesPerSector) (hcluster : 0 < s₀.info.clusterSize)
    (files : Nat → File) (call : FileCall) : ∃ r, Settles s₀ (call.run ide files) r := by
  cases call with
  | «open» handle path =>
    obtain ⟨found, -, hopen⟩ := fatOpen_settles hide path
    refine ⟨(found.getD (files handle), .status (if found.isSome then 0 else -1)), fun s hs => ?_⟩
    obtain ⟨t, ht, he⟩ := hopen (files handle) s hs
    exact ⟨t, ht, by simp only [FileCall.run, he]⟩
  | seek handle position =>
    obtain ⟨r, hseek⟩ := fatSeek_settles hide (files handle) position
    refine ⟨(r.1, .status r.2), fun s hs => ?_⟩
    obtain ⟨t, ht, he⟩ := hseek s hs
    exact ⟨t, ht, by simp only [FileCall.run, he]⟩
  | read handle size =>
    obtain ⟨r, hread⟩ := fatRead_settles hide hbps hcluster (files handle) size
    refine ⟨(r.1, .data r.2.1 r.2.2), fun s hs => ?_⟩
    obtain ⟨t, ht, he⟩ := hread s hs
    exact ⟨t, ht, by simp only [FileCall.run, he]⟩

theorem Alike.unnoticed (hide : FaultFree ide s₀.currentDrive)
    (hbps : 0 < s₀.info.bytesPerSector) (hcluster : 0 < s₀.info.clusterSize)
    (h : Alike s₀ t) : Unnoticed ide s₀ t := by
  intro files calls
  suffices hsame : ∃ l, ∀ s, Alike s₀ s → outcomes ide s files calls = l by
    obtain ⟨l, hl⟩ := hsame
    rw [hl s₀ (.refl s₀), hl t h]
  clear h
  induction calls generalizing files with
  | nil => exact ⟨[], fun _ _ => rfl⟩
  | cons call calls ih =>
    obtain ⟨⟨file, outcome⟩, hcall⟩ := call.settles hide hbps hcluster files
    obtain ⟨l, hl⟩ := ih (update files call.handle file)
    refine ⟨(file, outcome) :: l, fun s hs => ?_⟩
    obtain ⟨t, ht, he⟩ := hcall s hs
    simp only [outcomes, he, hl t ht]

/-! ### What a failing call leaves -/

/-- `t` is `s` up to the buffer, the drive and the start of the partition. -/
structure Moved (s t : State) (drive : BitVec 8) (offset : BitVec 32) : Prop where
  info : t.info = s.info
  mounted : t.mounted = s.mounted
  drive : t.currentDrive = drive
  offset : t.partitionOffset = offset
  behind : ∀ i, 512 ≤ i → t.sectorBuffer i = s.sectorBuffer i

theorem fatMount_moved {drive : BitVec 8} (hfail : (fatMount ide s drive).2 ≠ 0) :
    Moved s (fatMount ide s drive).1 drive s.partitionOffset := by
  obtain ⟨hinfo, hmounted, hdrive, hoffset, hbehind⟩ :=
    fatReadSector_alike ide { s with currentDrive := drive } 0
  have hread : Moved s (fatReadSector ide { s with currentDrive := drive } 0).1 drive
      s.partitionOffset := ⟨hinfo, hmounted, hdrive, hoffset, hbehind⟩
  simp only [fatMount] at hfail ⊢
  split_ifs at hfail ⊢
  · exact hread
  · exact hread
  · exact absurd rfl hfail

theorem fatFindPartition_moved (ide : Ide) (s : State) (drive : BitVec 8) :
    Moved s (fatFindPartition ide s drive).1 s.currentDrive s.partitionOffset := by
  rw [fatFindPartition]
  cases ide s.reads drive 0 with
  | none => exact ⟨rfl, rfl, rfl, rfl, fun _ _ => rfl⟩
  | some data => exact ⟨rfl, rfl, rfl, rfl, fun i hi => if_neg (Nat.not_lt.mpr hi)⟩

theorem fatInit_moved {drive : BitVec 8} (hfail : (fatInit ide s drive).2 ≠ 0) :
    Moved s (fatInit ide s drive).1 drive (fatFindPartition ide s drive).2 := by
  have hfound := fatFindPartition_moved ide s drive
  rw [fatInit] at hfail ⊢
  have hmount := fatMount_moved hfail
  exact ⟨hmount.info.trans hfound.info, hmount.mounted.trans hfound.mounted, hmount.drive,
    hmount.offset, fun i hi => (hmount.behind i hi).trans (hfound.behind i hi)⟩

/-- A call that mounts: `fat_mount`, or `fat_init` on a drive whose partition table leads to the
given sector. -/
inductive MountCall where
  | mount (drive : BitVec 8)
  | init (drive : BitVec 8) (partition : BitVec 32)

def MountCall.drive : MountCall → BitVec 8
  | .mount drive | .init drive _ => drive

def MountCall.offset (s : State) : MountCall → BitVec 32
  | .mount _ => s.partitionOffset
  | .init _ partition => partition

def MountCall.run (ide : Ide) (s : State) : MountCall → State × Int
  | .mount drive => fatMount ide s drive
  | .init drive _ => fatInit ide s drive

def MountCall.Fails (ide : Ide) (s : State) : MountCall → Prop
  | .mount drive => (fatMount ide s drive).2 ≠ 0
  | .init drive partition =>
    (fatFindPartition ide s drive).2 = partition ∧ (fatInit ide s drive).2 ≠ 0

theorem MountCall.Fails.moved {call : MountCall} (h : call.Fails ide s) :
    Moved s (call.run ide s).1 call.drive (call.offset s) := by
  cases call with
  | mount drive => exact fatMount_moved h
  | init drive partition =>
    obtain ⟨rfl, hfail⟩ := h
    exact fatInit_moved hfail

theorem Moved.alike (h : Moved s t s.currentDrive s.partitionOffset) : Alike s t :=
  ⟨h.info, h.mounted, h.drive, h.offset, h.behind⟩

/-! ### A disk on which a move is noticed -/

def probe : File := ⟨2, 2, 0, 1, true⟩

theorem fatRead_probe (ide : Ide) {data : Sector} (hmounted : s.mounted = true)
    (hbps : 0 < s.info.bytesPerSector) (hcluster : 0 < s.info.clusterSize)
    (hdata : ide s.reads s.currentDrive (s.info.dataStart + s.partitionOffset) = some data) :
    ∃ t file, fatRead ide s probe 1 = some (t, file, 1, [data 0]) := by
  have hcopy : s.info.copySize 0 1 = 1 := by
    have hpos := s.info.copySize_pos 0 hbps hcluster Nat.one_pos
    have hle := s.info.copySize_le 0 1
    omega
  have hsector : fatClusterToSector s 2 + BitVec.ofNat 32 (0 / s.info.bytesPerSector) =
      s.info.dataStart := by
    rw [fatClusterToSector, show BitVec.ofNat 32 2 - 2 = 0 from rfl, Nat.zero_div]
    simp
  have hread : fatReadSector ide s s.info.dataStart = ({ s with
      reads := s.reads + 1
      sectorBuffer := fun i => if i < 512 then data i else s.sectorBuffer i }, 0) := by
    rw [fatReadSector, hdata]
  obtain ⟨t, file, hloop⟩ : ∃ t file, readLoop ide 1 1 s probe [] = some (t, file, [data 0]) := by
    simp only [probe, readLoop, List.length_nil, Nat.sub_zero, Nat.zero_mod, hcopy, hsector, hread,
      Nat.lt_irrefl, Nat.zero_lt_one, endOfChain, ne_eq, true_and, not_true_eq_false, if_false,
      List.range_one, List.map_cons, List.map_nil, List.nil_append, List.length_cons, false_and]
    exact ⟨_, _, rfl⟩
  refine ⟨t, file, ?_⟩
  rw [fatRead, if_neg (by simp [hmounted, probe]), if_neg (by decide)]
  simp only [show (if probe.size < (probe.position + 1) % 2 ^ 32 then probe.size - probe.position
    else 1) = 1 from rfl, hloop, List.length_singleton]
  rfl

def partitionTable (partition : BitVec 32) : Sector :=
  LittleEndian.put (fun i => if i = 450 then 0x06 else if i = 510 then 0x55
    else if i = 511 then 0xAA else 0) 454 4 partition.toNat

/-- The first data byte of the mounted volume is the only one that is not zero, apart from the
partition tables, which lead to `partition` if it is not zero. -/
def probeDisk (s : State) (partition : BitVec 32) : Ide := fun _ drive lba => some fun i =>
  if i = 0 then
    if drive = s.currentDrive ∧ lba = s.info.dataStart + s.partitionOffset then 1 else 0
  else if lba = 0 ∧ partition ≠ 0 then partitionTable partition i
  else 0

theorem partitionStart_table {mbr : Sector} {partition : BitVec 32} (hpartition : partition ≠ 0)
    (hmbr : ∀ i, i ≠ 0 → i < 512 → mbr i = partitionTable partition i) :
    partitionStart mbr = partition := by
  have hfirst : lbaFirst mbr 0 = partition.toNat := by
    have hget : lbaFirst mbr 0 = LittleEndian.get (partitionTable partition) 454 4 :=
      LittleEndian.decode_congr fun i hi => hmbr _ (by omega) (by omega)
    rw [hget, partitionTable, LittleEndian.get_put _ _ partition.isLt]
  have hpos : 0 < partition.toNat := by
    refine Nat.pos_of_ne_zero fun he => hpartition ?_
    exact BitVec.eq_of_toNat_eq he
  have hfind : (List.range 4).find? (fun i =>
      isFatPartition (mbr (450 + 16 * i)) && decide (0 < lbaFirst mbr i)) = some 0 := by
    rw [show List.range 4 = 0 :: [1, 2, 3] from rfl, List.find?_cons_of_pos]
    rw [hfirst, hmbr _ (by decide) (by decide)]
    simp only [hpos, decide_true, Bool.and_true]
    rfl
  rw [partitionStart, hfind, hmbr 510 (by decide) (by decide), hmbr 511 (by decide) (by decide),
    if_neg (by simp [partitionTable, LittleEndian.put]), if_neg]
  · dsimp only
    rw [hfirst, BitVec.ofNat_toNat, BitVec.setWidth_eq]
  · simp [hasFatName, hmbr, partitionTable, LittleEndian.put]

theorem probeDisk_fails (call : MountCall) :
    call.Fails (probeDisk s (call.offset s)) s := by
  -- the sector that is taken for the boot sector has no signature
  have hmount (t : State) (drive : BitVec 8) :
      (fatMount (probeDisk s t.partitionOffset) t drive).2 ≠ 0 := by
    simp [fatMount, fatReadSector, probeDisk]
  cases call with
  | mount drive => exact hmount s drive
  | init drive partition =>
    have hfind : (fatFindPartition (probeDisk s partition) s drive).2 = partition := by
      simp only [fatFindPartition, probeDisk]
      by_cases hpartition : partition = 0
      · rw [partitionStart, if_pos (by simp [hpartition]), hpartition]
      · refine partitionStart_table hpartition fun i hne hlt => ?_
        simp only [hlt, if_true, hne, if_false, hpartition, ne_eq, not_false_eq_true, and_self]
    refine ⟨hfind, ?_⟩
    rw [MountCall.offset, fatInit]
    generalize fatFindPartition (probeDisk s partition) s drive = r at hfind ⊢
    obtain ⟨t, start⟩ := r
    obtain rfl : start = partition := hfind
    exact hmount { t with partitionOffset := start } drive

/-- A call that fails on any disk with a readable volume goes unnoticed exactly if it does not
change the drive and the start of the partition. -/
theorem failed_mount_unnoticed_iff (hmounted : s.mounted = true)
    (hbps : 0 < s.info.bytesPerSector) (hcluster : 0 < s.info.clusterSize) (call : MountCall) :
    (∀ ide, FaultFree ide s.currentDrive → call.Fails ide s →
        Unnoticed ide s (call.run ide s).1) ↔
      call.drive = s.currentDrive ∧ call.offset s = s.partitionOffset := by
  constructor
  · intro hall
    have hfails := probeDisk_fails (s := s) call
    have hsame := hall _ ⟨_, fun _ _ => rfl⟩ hfails (fun _ => probe) [.read 0 1]
    have hmoved := hfails.moved
    generalize call.run (probeDisk s (call.offset s)) s = r at hsame hmoved
    obtain ⟨t₁, file₁, hread₁⟩ := fatRead_probe (probeDisk s (call.offset s)) hmounted hbps
      hcluster rfl
    obtain ⟨t₂, file₂, hread₂⟩ := fatRead_probe (probeDisk s (call.offset s)) (s := r.1)
      (hmoved.mounted.trans hmounted) (by rw [hmoved.info]; exact hbps)
      (by rw [hmoved.info]; exact hcluster) rfl
    simp only [outcomes, FileCall.run, hread₁, hread₂, List.cons.injEq, Prod.mk.injEq,
      Outcome.data.injEq, and_true] at hsame
    have hbyte := hsame.2.2
    by_contra hmove
    simp [hmoved.drive, hmoved.offset, hmoved.info, hmove] at hbyte
  · rintro ⟨hdrive, hoffset⟩ ide hide hfails
    have hmoved := hfails.moved
    rw [hdrive, hoffset] at hmoved
    exact hmoved.alike.unnoticed hide hbps hcluster

end

def smallMounted : State := (fatMount smallIde unmounted 0).1

def zeroDisk : Ide := fun _ _ _ => some fun _ => 0

theorem failed_small_mount_unnoticed : (fatMount zeroDisk smallMounted 0).2 ≠ 0 ∧
    Unnoticed zeroDisk smallMounted (fatMount zeroDisk smallMounted 0).1 := by
  have hfails : (fatMount zeroDisk smallMounted 0).2 ≠ 0 := by decide
  have hunnoticed := (failed_mount_unnoticed_iff (s := smallMounted) (by decide) (by decide)
    (by decide) (.mount 0)).mpr ⟨by decide, rfl⟩
  exact ⟨hfails, hunnoticed zeroDisk ⟨fun _ _ => 0, fun _ _ => rfl⟩ hfails⟩

def oneDrive : Ide := fun _ drive lba => if drive = 0 then some (smallContent lba) else none

/-- After the failing mount of drive 1 the files of drive 0 are read from drive 1. -/
theorem absent_drive_noticed : (fatMount oneDrive smallMounted 1).2 = -1 ∧
    ¬ Unnoticed oneDrive smallMounted (fatMount oneDrive smallMounted 1).1 := by
  refine ⟨by decide, fun h => ?_⟩
  have hlengths := congrArg (List.map fun r => match r.2 with
    | .data _ bytes => bytes.length
    | _ => 0) (h (fun _ => openedFile 2 600) [.read 0 1])
  exact absurd hlengths (by decide)

end TocinOS.Fat

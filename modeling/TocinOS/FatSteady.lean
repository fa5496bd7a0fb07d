import TocinOS.FatOpen

/-! All calls of the driver go through one sector buffer. On a disk without faults
their results are nevertheless the same whatever the buffer held before. -/

namespace TocinOS.Fat

/-- `t` is `s` up to the part of the buffer that a read replaces and the number of reads. -/
structure Alike (s t : State) : Prop where
  info : t.info = s.info
  mounted : t.mounted = s.mounted
  drive : t.currentDrive = s.currentDrive
  offset : t.partitionOffset = s.partitionOffset
  behind : ∀ i, 512 ≤ i → t.sectorBuffer i = s.sectorBuffer i

theorem Alike.refl (s : State) : Alike s s := ⟨rfl, rfl, rfl, rfl, fun _ _ => rfl⟩

theorem Alike.trans {s t u : State} (h : Alike s t) (h' : Alike t u) : Alike s u :=
  ⟨h'.info.trans h.info, h'.mounted.trans h.mounted, h'.drive.trans h.drive,
    h'.offset.trans h.offset, fun i hi => (h'.behind i hi).trans (h.behind i hi)⟩

theorem fatReadSector_alike (ide : Ide) (s : State) (sector : BitVec 32) :
    Alike s (fatReadSector ide s sector).1 := by
  rw [fatReadSector]
  cases ide s.reads s.currentDrive (sector + s.partitionOffset) with
  | none => exact ⟨rfl, rfl, rfl, rfl, fun _ _ => rfl⟩
  | some data => exact ⟨rfl, rfl, rfl, rfl, fun i hi => if_neg (Nat.not_lt.mpr hi)⟩

theorem fatGetNextCluster_alike (ide : Ide) (s : State) (c : Nat) :
    Alike s (fatGetNextCluster ide s c).1 := by
  rw [fatGetNextCluster]
  by_cases hmounted : (!s.mounted) = true
  · rw [if_pos hmounted]
    exact .refl s
  · rw [if_neg hmounted]
    cases s.info.type <;> exact fatReadSector_alike ide s _

def FaultFree (ide : Ide) (drive : BitVec 8) : Prop :=
  ∃ content : BitVec 32 → Sector, ∀ n lba, ide n drive lba = some (content lba)

/-- From all states like `s₀` the call has the result `r`, and leads to such a state. -/
def Settles {α : Type} (s₀ : State) (call : State → State × α) (r : α) : Prop :=
  ∀ s, Alike s₀ s → ∃ t, Alike s₀ t ∧ call s = (t, r)

section

variable {ide : Ide} {s₀ s t : State}

theorem readSector_settles (hide : FaultFree ide s₀.currentDrive) (sector : BitVec 32) :
    ∃ buffer, ∀ s, Alike s₀ s →
      ∃ t, Alike s₀ t ∧ t.sectorBuffer = buffer ∧ fatReadSector ide s sector = (t, 0) := by
  obtain ⟨content, hcontent⟩ := hide
  refine ⟨fun i => if i < 512 then content (sector + s₀.partitionOffset) i
    else s₀.sectorBuffer i, fun s hs => ?_⟩
  have hdata : ide s.reads s.currentDrive (sector + s.partitionOffset) =
      some (content (sector + s₀.partitionOffset)) := by
    rw [hs.drive, hs.offset, hcontent]
  refine ⟨{ s with
    reads := s.reads + 1
    sectorBuffer := fun i => if i < 512 then content (sector + s₀.partitionOffset) i
      else s.sectorBuffer i }, ⟨hs.info, hs.mounted, hs.drive, hs.offset, fun i hi => ?_⟩,
    funext fun i => ?_, by simp only [fatReadSector, hdata]⟩
  · exact (if_neg (Nat.not_lt.mpr hi)).trans (hs.behind i hi)
  · by_cases hi : i < 512
    · simp only [if_pos hi]
    · simp only [if_neg hi, hs.behind i (Nat.not_lt.mp hi)]

theorem readEntry_settles (hide : FaultFree ide s₀.currentDrive) (fatOffset width : Nat) :
    ∃ r, Settles s₀ (readEntry ide · fatOffset width) r := by
  obtain ⟨buffer, hread⟩ := readSector_settles hide
    (s₀.info.fatStart + BitVec.ofNat 32 (fatOffset / s₀.info.bytesPerSector))
  refine ⟨field buffer (fatOffset % s₀.info.bytesPerSector) width, fun s hs => ?_⟩
  obtain ⟨t, ht, hbuffer, he⟩ := hread s hs
  refine ⟨t, ht, ?_⟩
  simp only [readEntry, hs.info, he, hbuffer]

theorem nextCluster_settles (hide : FaultFree ide s₀.currentDrive) (cluster : Nat) :
    ∃ r, Settles s₀ (fatGetNextCluster ide · cluster) r := by
  cases hm : s₀.mounted with
  | false =>
    refine ⟨endOfChain, fun s hs => ⟨s, hs, ?_⟩⟩
    simp [fatGetNextCluster, hs.mounted, hm]
  | true =>
    cases ht : s₀.info.type with
    | fat12 =>
      obtain ⟨word, hword⟩ := readEntry_settles hide ((cluster + cluster / 2) % 2 ^ 32) 2
      refine ⟨if 0xFF8 ≤ (if cluster % 2 = 1 then word / 16 else word % 0x1000) then endOfChain
        else if cluster % 2 = 1 then word / 16 else word % 0x1000, fun s hs => ?_⟩
      obtain ⟨t, hst, he⟩ := hword s hs
      refine ⟨t, hst, ?_⟩
      simp only [fatGetNextCluster, hs.mounted, hm, hs.info, ht, he, Bool.not_true,
        Bool.false_eq_true, if_false]
    | fat16 =>
      obtain ⟨next, hnext⟩ := readEntry_settles hide (cluster * 2 % 2 ^ 32) 2
      refine ⟨if 0xFFF8 ≤ next then endOfChain else next, fun s hs => ?_⟩
      obtain ⟨t, hst, he⟩ := hnext s hs
      refine ⟨t, hst, ?_⟩
      simp only [fatGetNextCluster, hs.mounted, hm, hs.info, ht, he, Bool.not_true,
        Bool.false_eq_true, if_false]
    | fat32 =>
      obtain ⟨word, hword⟩ := readEntry_settles hide (cluster * 4 % 2 ^ 32) 4
      refine ⟨if 0x0FFFFFF8 ≤ word % 0x10000000 then endOfChain else word % 0x10000000,
        fun s hs => ?_⟩
      obtain ⟨t, hst, he⟩ := hword s hs
      refine ⟨t, hst, ?_⟩
      simp only [fatGetNextCluster, hs.mounted, hm, hs.info, ht, he, Bool.not_true,
        Bool.false_eq_true, if_false]

theorem clusterToSector_alike (hs : Alike s₀ s) (cluster : Nat) :
    fatClusterToSector s cluster = fatClusterToSector s₀ cluster := by
  simp only [fatClusterToSector, hs.info]

theorem Info.copySize_le (info : Info) (position left : Nat) :
    info.copySize position left ≤ left := by
  simp only [Info.copySize]
  split_ifs <;> omega

theorem Info.copySize_pos (info : Info) (position : Nat) {left : Nat} (hbps : 0 < info.bytesPerSector)
    (hcluster : 0 < info.clusterSize) (hleft : 0 < left) : 0 < info.copySize position left := by
  have hoffset := Nat.mod_lt position hcluster
  have hsector := Nat.mod_lt (position % info.clusterSize) hbps
  simp only [Info.copySize]
  split_ifs <;> omega

theorem readLoop_settles (hide : FaultFree ide s₀.currentDrive)
    (hbps : 0 < s₀.info.bytesPerSector) (hcluster : 0 < s₀.info.clusterSize) {size fuel : Nat}
    (file : File) (buf : List (BitVec 8)) (hfuel : size - buf.length ≤ fuel) :
    ∃ r, ∀ s, Alike s₀ s →
      ∃ t, Alike s₀ t ∧ readLoop ide size fuel s file buf = some (t, r) := by
  induction fuel generalizing file buf with
  | zero =>
    have hdone : ¬ (buf.length < size ∧ file.currentCluster ≠ endOfChain) := by omega
    exact ⟨(file, buf), fun s hs => ⟨s, hs, by simp only [readLoop, if_neg hdone]⟩⟩
  | succ fuel ih =>
    by_cases hmore : buf.length < size ∧ file.currentCluster ≠ endOfChain
    · -- the sector, the bytes and the next cluster of this round, then the other rounds
      have hcopy := s₀.info.copySize_pos file.position hbps hcluster
        (Nat.sub_pos_of_lt hmore.1)
      generalize hn : s₀.info.copySize file.position (size - buf.length) = count at hcopy
      generalize hoff : file.position % s₀.info.clusterSize = offset
      obtain ⟨buffer, hread⟩ := readSector_settles hide
        (fatClusterToSector s₀ file.currentCluster +
          BitVec.ofNat 32 (offset / s₀.info.bytesPerSector))
      obtain ⟨next, hnext⟩ : ∃ next, Settles s₀ (fun s =>
          if s₀.info.clusterSize ≤ offset + count then fatGetNextCluster ide s file.currentCluster
          else (s, file.currentCluster)) next := by
        by_cases hend : s₀.info.clusterSize ≤ offset + count
        · simp only [if_pos hend]
          exact nextCluster_settles hide _
        · simp only [if_neg hend]
          exact ⟨_, fun s hs => ⟨s, hs, rfl⟩⟩
      obtain ⟨r, hrest⟩ := ih
        { file with position := (file.position + count) % 2 ^ 32, currentCluster := next }
        (buf ++ (List.range count).map fun i => buffer (offset % s₀.info.bytesPerSector + i))
        (by
          simp only [List.length_append, List.length_map, List.length_range]
          omega)
      refine ⟨r, fun s hs => ?_⟩
      obtain ⟨t, ht, hbuffer, he⟩ := hread s hs
      obtain ⟨u, hu, hstep⟩ := hnext t ht
      obtain ⟨w, hw, hlast⟩ := hrest u hu
      refine ⟨w, hw, ?_⟩
      simp only [readLoop, if_pos hmore, hs.info, clusterToSector_alike hs, hoff, hn, he,
        ne_eq, not_true_eq_false, if_false, ht.info, hbuffer, hstep, hlast]
    · exact ⟨(file, buf), fun s hs => ⟨s, hs, by simp only [readLoop, if_neg hmore]⟩⟩

theorem fatRead_settles (hide : FaultFree ide s₀.currentDrive)
    (hbps : 0 < s₀.info.bytesPerSector) (hcluster : 0 < s₀.info.clusterSize) (file : File)
    (size : Nat) :
    ∃ r, ∀ s, Alike s₀ s → ∃ t, Alike s₀ t ∧ fatRead ide s file size = some (t, r) := by
  by_cases hclosed : (!s₀.mounted) = true ∨ (!file.isOpen) = true
  · exact ⟨_, fun s hs => ⟨s, hs, by simp only [fatRead, hs.mounted, if_pos hclosed]; rfl⟩⟩
  by_cases heof : file.size ≤ file.position
  · exact ⟨_, fun s hs =>
      ⟨s, hs, by simp only [fatRead, hs.mounted, if_neg hclosed, if_pos heof]; rfl⟩⟩
  obtain ⟨r, hloop⟩ := readLoop_settles hide hbps hcluster file [] (Nat.sub_le
    (if file.size < (file.position + size) % 2 ^ 32 then file.size - file.position else size) 0)
  refine ⟨(r.1, BitVec.ofNat 32 r.2.length, r.2), fun s hs => ?_⟩
  obtain ⟨t, ht, he⟩ := hloop s hs
  exact ⟨t, ht, by simp only [fatRead, hs.mounted, if_neg hclosed, if_neg heof, he]⟩

theorem walkChain_settles (hide : FaultFree ide s₀.currentDrive) (n cluster : Nat) :
    ∃ r, Settles s₀ (walkChain ide n · cluster) r := by
  induction n generalizing cluster with
  | zero => exact ⟨cluster, fun s hs => ⟨s, hs, rfl⟩⟩
  | succ n ih =>
    by_cases hend : cluster ≠ endOfChain
    · obtain ⟨next, hnext⟩ := nextCluster_settles hide cluster
      obtain ⟨r, hrest⟩ := ih next
      refine ⟨r, fun s hs => ?_⟩
      obtain ⟨t, ht, he⟩ := hnext s hs
      obtain ⟨u, hu, hlast⟩ := hrest t ht
      exact ⟨u, hu, by simp only [walkChain, if_pos hend, he, hlast]⟩
    · exact ⟨cluster, fun s hs => ⟨s, hs, by simp only [walkChain, if_neg hend]⟩⟩

theorem fatSeek_settles (hide : FaultFree ide s₀.currentDrive) (file : File) (position : Nat) :
    ∃ r, Settles s₀ (fatSeek ide · file position) r := by
  by_cases hopen : (!file.isOpen) = true
  · exact ⟨_, fun s hs => ⟨s, hs, by simp only [fatSeek, if_pos hopen]; rfl⟩⟩
  obtain ⟨cluster, hwalk⟩ := walkChain_settles hide
    ((if file.size < position then file.size else position) / s₀.info.clusterSize)
    file.firstCluster
  refine ⟨({ file with
    position := if file.size < position then file.size else position
    currentCluster := cluster }, 0), fun s hs => ?_⟩
  obtain ⟨t, ht, he⟩ := hwalk s hs
  exact ⟨t, ht, by simp only [fatSeek, if_neg hopen, hs.info, he]⟩

theorem scanEntries_found {sector : Sector} {name83 : Str} {js : List Nat} {file : File}
    (h : scanEntries sector name83 js = .found file) :
    file.isOpen = true ∧ file.position = 0 := by
  induction js with
  | nil => exact nomatch h
  | cons j js ih =>
    simp only [scanEntries] at h
    split_ifs at h
    · exact ih h
    · exact ih h
    · exact ih h
    · obtain rfl := Search.found.inj h
      exact ⟨rfl, rfl⟩
    · exact ih h

theorem searchSectors_settles (hide : FaultFree ide s₀.currentDrive) (name83 : Str) (n : Nat)
    (sector : BitVec 32) :
    ∃ r, Settles s₀ (searchSectors ide name83 n · sector) r ∧
      ∀ file ∈ r, file.isOpen = true ∧ file.position = 0 := by
  induction n generalizing sector with
  | zero => exact ⟨none, fun s hs => ⟨s, hs, rfl⟩, nofun⟩
  | succ n ih =>
    obtain ⟨buffer, hread⟩ := readSector_settles hide sector
    obtain ⟨r, hrest, hfresh⟩ := ih (sector + 1)
    cases hscan : scanEntries buffer name83 (List.range 16) with
    | goOn =>
      refine ⟨r, fun s hs => ?_, hfresh⟩
      obtain ⟨t, ht, hbuffer, he⟩ := hread s hs
      obtain ⟨u, hu, hlast⟩ := hrest t ht
      exact ⟨u, hu, by
        simp only [searchSectors, he, hbuffer, hscan, ne_eq, not_true_eq_false, if_false, hlast]⟩
    | ended =>
      refine ⟨none, fun s hs => ?_, nofun⟩
      obtain ⟨t, ht, hbuffer, he⟩ := hread s hs
      exact ⟨t, ht, by
        simp only [searchSectors, he, hbuffer, hscan, ne_eq, not_true_eq_false, if_false]⟩
    | found file =>
      refine ⟨some file, fun s hs => ?_, fun file' hfile => ?_⟩
      rotate_left
      · cases hfile
        exact scanEntries_found hscan
      obtain ⟨t, ht, hbuffer, he⟩ := hread s hs
      exact ⟨t, ht, by
        simp only [searchSectors, he, hbuffer, hscan, ne_eq, not_true_eq_false, if_false]⟩

theorem fatOpen_settles (hide : FaultFree ide s₀.currentDrive) (path : Str) :
    ∃ found : Option File, (∀ file ∈ found, file.isOpen = true ∧ file.position = 0) ∧
      ∀ file, Settles s₀ (fatOpen ide · path file)
        (found.getD file, if found.isSome then 0 else -1) := by
  cases hm : s₀.mounted with
  | false => exact ⟨none, nofun, fun file s hs => ⟨s, hs, by simp [fatOpen, hs.mounted, hm]⟩⟩
  | true =>
    obtain ⟨found, hsearch, hfresh⟩ := searchSectors_settles hide (fatNameTo83 path)
      (if 4 < s₀.info.maxEntries / 16 then 4 else s₀.info.maxEntries / 16) (rootSector s₀)
    refine ⟨found, hfresh, fun file s hs => ?_⟩
    obtain ⟨t, ht, he⟩ := hsearch s hs
    have hroot : rootSector s = rootSector s₀ := by
      simp only [rootSector, clusterToSector_alike hs, hs.info]
    refine ⟨t, ht, ?_⟩
    simp only [fatOpen, hs.mounted, hm, hs.info, hroot, he, Bool.not_true, Bool.false_eq_true,
      if_false]
    cases found <;> rfl

end

end TocinOS.Fat

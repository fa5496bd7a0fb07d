import TocinOS.FatMounts

/-! Reading a file of a FAT16 or FAT32 volume when sector reads fail. A failing read of a data
sector ends the call early; a failing read of the table is not noticed. -/

namespace TocinOS.Fat

/-- One call on the file, within the 32-bit range of positions. Each call has a disk of its own:
it holds the volume, and its reads fail as they like. -/
inductive FaultStep (v : Volume) (allowed : Ide → State → Prop) : State × File → State × File → Prop
  | read {s t : State} {file file' : File} {n : Nat} {ret : BitVec 32} {bytes : List (BitVec 8)}
      (ide : Ide) (attached : Attached ide s v) (hallowed : allowed ide s)
      (hn : file.position + n < 2 ^ 32) (h : fatRead ide s file n = some (t, file', ret, bytes)) :
      FaultStep v allowed (s, file) (t, file')
  | seek {s t : State} {file file' : File} {target : Nat} {ret : Int} (ide : Ide)
      (attached : Attached ide s v) (hallowed : allowed ide s) (ht : target < 2 ^ 32)
      (h : fatSeek ide s file target = (t, file', ret)) : FaultStep v allowed (s, file) (t, file')

section

variable {v : Volume} {s t : State} {first size : Nat} {chain : List Nat} {file file' : File}

theorem Opened.faultStep (hf : Opened v chain size file) (hv : v.Supported)
    (hchain : v.Chain first chain) (hlen : size ≤ chain.length * v.clusterSize)
    (hsize : size < 2 ^ 32)
    (hs : FaultStep v (TableReadable · · v chain) (s, file) (t, file')) :
    Opened v chain size file' := by
  cases hs with
  | read ide hattached htable hn he =>
    obtain ⟨t', file'', k, -, ho, -, -, he', -⟩ := hf.readSome hattached htable hv hchain hlen hsize hn
    rw [he, Option.some.injEq] at he'
    obtain ⟨-, rfl, -⟩ := he'
    exact ho
  | @seek _ _ _ _ target _ ide hattached htable _ he =>
    obtain ⟨t', file'', -, ho, he', -⟩ := hf.seekSome hattached htable hv hchain target
    rw [he] at he'
    obtain ⟨-, rfl, -⟩ := he'
    exact ho

end

def smallVolume : Volume := fun n => smallContent (BitVec.ofNat 32 n + 0)

theorem small_attached {ide : Ide} {s : State} (hinfo : s.info = smallMounted.info)
    (hmounted : s.mounted = true) (hoffset : s.partitionOffset = 0)
    (hide : ∀ n lba, ide n s.currentDrive lba = none ∨
      ide n s.currentDrive lba = some (smallContent lba)) : Attached ide s smallVolume where
  mounted := hmounted
  info := hinfo.trans (congrArg Info.ofBpb (Bpb.parse_congr fun i hi => if_pos hi))
  content t n data hdata := by
    rw [hoffset] at hdata
    obtain hnone | hsome := hide t (BitVec.ofNat 32 n + 0)
    · exact absurd (hnone.symm.trans hdata) nofun
    · exact (Option.some.inj (hsome.symm.trans hdata)).symm

theorem small_chain : smallVolume.Chain 2 [2, 3] := by
  refine ⟨rfl, by decide, ?_, by decide⟩
  simp only [List.isChain_cons_cons, List.isChain_singleton, and_true]
  decide

theorem small_supported : smallVolume.Supported := ⟨⟨by decide, by decide⟩, by decide⟩

def soughtFile : File := (fatSeek smallIde smallMounted (openedFile 2 600) 511).2.1

def brokenData : Ide := fun _ _ lba => if lba = 98 then none else some (smallContent lba)

def brokenTable : Ide := fun _ _ lba => if lba = 1 then none else some (smallContent lba)

end TocinOS.Fat

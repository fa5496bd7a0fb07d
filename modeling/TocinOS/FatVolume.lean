import TocinOS.Fat

/-! What a FAT volume holds: the cluster chains of its table, and the bytes of a file whose clusters
such a chain lists. -/

namespace TocinOS.Fat

open LittleEndian (decode)
open SparseBlocks (div_mod_add)

abbrev Volume := Nat → Sector

variable {c i n j position : Nat}

namespace Volume

variable (v : Volume)

def bpb : Bpb := .parse (v 0)

def type : FatType := fatDetectType v.bpb

def clusterSize : Nat := v.bpb.sectorsPerCluster * 512

def dataStart : Nat :=
  v.bpb.reservedSectors +
    v.bpb.fatCount * (if v.type = .fat32 then v.bpb.sectorsPerFat32 else v.bpb.sectorsPerFat16) +
    rootDirSectors v.bpb.rootEntryCount v.bpb.bytesPerSector

def fatByte (k : Nat) : BitVec 8 := v (v.bpb.reservedSectors + k / 512) (k % 512)

def nibble (k : Nat) : Nat :=
  if k % 2 = 0 then (v.fatByte (k / 2)).toNat % 16 else (v.fatByte (k / 2)).toNat / 16

/-- The number that the table holds for a cluster: three halves of bytes, two bytes, or 28 bits of
four bytes. -/
def packed (c : Nat) : Nat :=
  match v.type with
  | .fat12 => v.nibble (3 * c) + 16 * v.nibble (3 * c + 1) + 256 * v.nibble (3 * c + 2)
  | .fat16 => decode 2 fun i => v.fatByte (2 * c + i)
  | .fat32 => (decode 4 fun i => v.fatByte (4 * c + i)) % 2 ^ 28

def packedEnd : Nat :=
  match v.type with
  | .fat12 => 0xFF8
  | .fat16 => 0xFFF8
  | .fat32 => 0x0FFFFFF8

def clusterByte (cluster k : Nat) : BitVec 8 :=
  v (v.dataStart + (cluster - 2) * v.bpb.sectorsPerCluster + k / 512) (k % 512)

/-- The clusters of a file, in order; the mark below `packedEnd` is for bad clusters. -/
structure Chain (first : Nat) (chain : List Nat) : Prop where
  head : chain.head? = some first
  cluster : ∀ c ∈ chain, 2 ≤ c ∧ c + 1 < v.packedEnd
  linked : chain.IsChain (fun c d => v.packed c = d)
  last : ∀ c ∈ chain.getLast?, v.packedEnd ≤ v.packed c

def clusterAt (chain : List Nat) (i : Nat) : Nat := chain.getD i endOfChain

def fileByte (chain : List Nat) (position : Nat) : BitVec 8 :=
  v.clusterByte (clusterAt chain (position / v.clusterSize)) (position % v.clusterSize)

theorem packedEnd_le : v.packedEnd ≤ 0x0FFFFFF8 := by
  unfold packedEnd
  split <;> decide

theorem Chain.ne_endOfChain {first : Nat} {chain : List Nat} (h : v.Chain first chain)
    (hc : c ∈ chain) : c ≠ endOfChain := by
  have hvalid := (h.cluster c hc).2
  have hmark := v.packedEnd_le
  simp only [endOfChain]
  omega

theorem clusterAt_eq {chain : List Nat} (hi : chain[i]? = some c) : clusterAt chain i = c := by
  simp [clusterAt, List.getD_eq_getElem?_getD, hi]

theorem clusterAt_past {chain : List Nat} (h : chain.length ≤ i) :
    clusterAt chain i = endOfChain := by
  simp [clusterAt, List.getD_eq_getElem?_getD, h]

theorem Chain.next {first : Nat} {chain : List Nat} (h : v.Chain first chain)
    (hi : chain[i]? = some c) :
    (if v.packedEnd ≤ v.packed c then endOfChain else v.packed c) = clusterAt chain (i + 1) := by
  unfold clusterAt
  rw [List.getD_eq_getElem?_getD]
  cases hd : chain[i + 1]? with
  | none =>
    have hlast : c ∈ chain.getLast? := by
      rw [List.getLast?_eq_getElem?]
      have h₁ := List.getElem?_eq_none_iff.mp hd
      have h₂ := (List.getElem?_eq_some_iff.mp hi).1
      rwa [show chain.length - 1 = i by omega]
    rw [if_pos (h.last c hlast)]
    rfl
  | some d =>
    have hentry : v.packed c = d := by
      obtain ⟨hlt, hd'⟩ := List.getElem?_eq_some_iff.mp hd
      obtain ⟨_, hc'⟩ := List.getElem?_eq_some_iff.mp hi
      have := List.isChain_iff_getElem.mp h.linked i hlt
      rwa [hd', hc'] at this
    have hvalid := (h.cluster d (List.mem_of_getElem? hd)).2
    rw [hentry, if_neg (by omega)]
    rfl

end Volume

theorem field_congr {a b : Sector} {offset width : Nat}
    (h : ∀ i < width, a (offset + i) = b (offset + i)) :
    field a offset width = field b offset width :=
  LittleEndian.decode_congr h

theorem Bpb.parse_congr {a b : Sector} (h : ∀ i < 512, a i = b i) : Bpb.parse a = Bpb.parse b := by
  simp only [Bpb.parse, Bpb.mk.injEq]
  refine ⟨?_, ?_, ?_, ?_, ?_, ?_, ?_, ?_, ?_, ?_⟩ <;>
    exact field_congr fun i hi => h _ (by omega)

section

variable {s : State} {v : Volume}

structure Volume.Sized (v : Volume) : Prop where
  bytesPerSector : v.bpb.bytesPerSector = 512
  sectorsPerCluster : 0 < v.bpb.sectorsPerCluster

structure Volume.Supported (v : Volume) : Prop extends v.Sized where
  type : v.type = .fat16 ∨ v.type = .fat32

theorem Volume.Sized.clusterSize_eq (hv : v.Sized) (h : s.info = .ofBpb v.bpb) :
    s.info.clusterSize = v.clusterSize := by
  simp [h, Info.ofBpb, Info.clusterSize, hv.bytesPerSector, Volume.clusterSize]

theorem Volume.Sized.bytesPerSector_eq (hv : v.Sized) (h : s.info = .ofBpb v.bpb) :
    s.info.bytesPerSector = 512 := by
  simp [h, Info.ofBpb, hv.bytesPerSector]

theorem Volume.dataSector (h : s.info = .ofBpb v.bpb) (hc : 2 ≤ c) (k : Nat) :
    fatClusterToSector s c + BitVec.ofNat 32 k =
      BitVec.ofNat 32 (v.dataStart + (c - 2) * v.bpb.sectorsPerCluster + k) := by
  obtain ⟨d, rfl⟩ := Nat.exists_eq_add_of_le' hc
  have hsub : BitVec.ofNat 32 d + 2#32 - 2 = BitVec.ofNat 32 d := BitVec.add_sub_cancel _ _
  simp only [fatClusterToSector, hsub, h, Info.ofBpb, Volume.dataStart, Volume.type,
    Nat.add_sub_cancel, BitVec.ofNat_add, BitVec.ofNat_mul]
  rfl

theorem div_add_of_end {k : Nat} (hk : 0 < k) (h : n % k + j = k) : (n + j) / k = n / k + 1 := by
  have hsum : n + j = k * (n / k + 1) := by
    have := Nat.mod_add_div n k
    rw [Nat.mul_add, Nat.mul_one]
    omega
  rw [hsum, Nat.mul_div_cancel_left _ hk]

theorem Volume.fileByte_add {chain : List Nat}
    (hcluster : position % v.clusterSize + j < v.clusterSize)
    (hsector : position % v.clusterSize % 512 + j < 512) : v.fileByte chain (position + j) =
      v (v.dataStart + (clusterAt chain (position / v.clusterSize) - 2) * v.bpb.sectorsPerCluster +
        position % v.clusterSize / 512) (position % v.clusterSize % 512 + j) := by
  obtain ⟨hdiv, hmod⟩ := div_mod_add hcluster
  obtain ⟨hdiv', hmod'⟩ := div_mod_add hsector
  rw [fileByte, clusterByte, hdiv, hmod, hdiv', hmod']

theorem Volume.Sized.clusterSize_pos (hv : v.Sized) : 0 < v.clusterSize :=
  Nat.mul_pos hv.sectorsPerCluster (by decide)

theorem Volume.Sized.copySize_bounds (hv : v.Sized) (h : s.info = .ofBpb v.bpb)
    (position left : Nat) (hleft : 0 < left) :
    0 < s.info.copySize position left ∧ s.info.copySize position left ≤ left ∧
      position % v.clusterSize + s.info.copySize position left ≤ v.clusterSize ∧
      position % v.clusterSize % 512 + s.info.copySize position left ≤ 512 := by
  have hmod := Nat.mod_lt position hv.clusterSize_pos
  simp only [Info.copySize, hv.clusterSize_eq h, hv.bytesPerSector_eq h]
  split_ifs <;> omega

theorem Volume.div_lt {chain : List Nat} {size : Nat} (hlt : position < size)
    (hlen : size ≤ chain.length * v.clusterSize) : position / v.clusterSize < chain.length :=
  Nat.div_lt_of_lt_mul (by rw [Nat.mul_comm]; omega)

end

end TocinOS.Fat

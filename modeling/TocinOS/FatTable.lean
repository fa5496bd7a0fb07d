import TocinOS.FatVolume

/-! The file allocation table as a packed sequence of numbers, and what `fat_get_next_cluster`
makes of it on a disk whose reads may fail. -/

namespace TocinOS.Fat

open LittleEndian (decode)

namespace Volume

variable (v : Volume)

def successor (c : Nat) : Nat := if v.packedEnd ≤ v.packed c then endOfChain else v.packed c

def entryOffset (c : Nat) : Nat :=
  match v.type with
  | .fat12 => c + c / 2
  | .fat16 => c * 2
  | .fat32 => c * 4

def Straddles (c : Nat) : Prop := v.type = .fat12 ∧ v.entryOffset c % 512 = 511

end Volume

def FatType.entryWidth : FatType → Nat
  | .fat12 | .fat16 => 2
  | .fat32 => 4

def FatType.unpack (type : FatType) (c word : Nat) : Nat :=
  match type with
  | .fat12 => if c % 2 = 1 then word / 16 else word % 0x1000
  | .fat16 => word
  | .fat32 => word % 0x10000000

theorem Volume.nibble_low (v : Volume) (k : Nat) : v.nibble (2 * k) = (v.fatByte k).toNat % 16 := by
  rw [nibble, if_pos (by omega), Nat.mul_div_cancel_left _ (by decide)]

theorem Volume.nibble_high (v : Volume) (k : Nat) :
    v.nibble (2 * k + 1) = (v.fatByte k).toNat / 16 := by
  rw [nibble, if_neg (by omega), show (2 * k + 1) / 2 = k by omega]

theorem Volume.packed_eq (v : Volume) (c : Nat) : v.packed c = v.type.unpack c
    (decode v.type.entryWidth fun i => v.fatByte (v.entryOffset c + i)) := by
  cases htype : v.type with
  | fat12 =>
    simp only [packed, entryOffset, htype, FatType.unpack, FatType.entryWidth, decode,
      Nat.add_zero, Nat.mul_zero, Nat.zero_add]
    split_ifs with hodd
    · -- the high half of a byte, and the next byte
      obtain ⟨k, rfl⟩ : ∃ k, c = 2 * k + 1 := ⟨c / 2, by omega⟩
      have hlow := v.nibble_high (3 * k + 1)
      have hmid := v.nibble_low (3 * k + 2)
      have hhigh := v.nibble_high (3 * k + 2)
      rw [show 3 * (2 * k + 1) = 2 * (3 * k + 1) + 1 by omega,
        show 2 * k + 1 + (2 * k + 1) / 2 = 3 * k + 1 by omega, hlow,
        show 2 * (3 * k + 1) + 1 + 1 = 2 * (3 * k + 2) by omega, hmid,
        show 2 * (3 * k + 1) + 1 + 2 = 2 * (3 * k + 2) + 1 by omega, hhigh,
        show 3 * k + 1 + 1 = 3 * k + 2 by omega]
      omega
    · -- a byte, and the low half of the next one
      obtain ⟨k, rfl⟩ : ∃ k, c = 2 * k := ⟨c / 2, by omega⟩
      have hlow := v.nibble_low (3 * k)
      have hmid := v.nibble_high (3 * k)
      have hhigh := v.nibble_low (3 * k + 1)
      rw [show 3 * (2 * k) = 2 * (3 * k) by omega, show 2 * k + 2 * k / 2 = 3 * k by omega, hlow,
        hmid, show 2 * (3 * k) + 2 = 2 * (3 * k + 1) by omega, hhigh]
      have hbyte := (v.fatByte (3 * k)).isLt
      omega
  | fat16 => simp only [packed, entryOffset, htype, FatType.unpack, FatType.entryWidth, Nat.mul_comm]
  | fat32 =>
    simp only [packed, entryOffset, htype, FatType.unpack, FatType.entryWidth, Nat.mul_comm,
      Nat.reducePow]

/-! ### A disk whose reads may fail -/

/-- The driver has mounted the volume `v`; a read of one of its sectors finds it or fails. -/
structure Attached (ide : Ide) (s : State) (v : Volume) : Prop where
  mounted : s.mounted = true
  info : s.info = .ofBpb v.bpb
  content : ∀ t n data, ide t s.currentDrive (BitVec.ofNat 32 n + s.partitionOffset) = some data →
    data = v n

section

variable {ide : Ide} {s : State} {v : Volume} {c : Nat}

def Readable (ide : Ide) (s : State) (v : Volume) (c : Nat) : Prop :=
  ide s.reads s.currentDrive
    (BitVec.ofNat 32 (v.bpb.reservedSectors + v.entryOffset c / 512) + s.partitionOffset) ≠ none

def tableBuffer (ide : Ide) (s : State) (v : Volume) (c : Nat) (buffer : Sector) : Sector :=
  match ide s.reads s.currentDrive
    (BitVec.ofNat 32 (v.bpb.reservedSectors + v.entryOffset c / 512) + s.partitionOffset) with
  | some data => fun i => if i < 512 then data i else buffer i
  | none => buffer

theorem Attached.nextCluster (h : Attached ide s v) (hbps : v.bpb.bytesPerSector = 512)
    (hc : c < 2 ^ 28) (buffer : Sector) :
    (fatGetNextCluster ide { s with sectorBuffer := buffer } c).2 =
      let next := v.type.unpack c
        (field (tableBuffer ide s v c buffer) (v.entryOffset c % 512) v.type.entryWidth)
      if v.packedEnd ≤ next then endOfChain else next := by
  have hinfo : s.info.bytesPerSector = 512 := by simp [h.info, Info.ofBpb, hbps]
  have hstart : s.info.fatStart = BitVec.ofNat 32 v.bpb.reservedSectors := by
    simp [h.info, Info.ofBpb]
  have htype : s.info.type = v.type := by simp [h.info, Info.ofBpb, Volume.type]
  have hentry (width : Nat) : (readEntry ide { s with sectorBuffer := buffer } (v.entryOffset c)
      width).2 = field (tableBuffer ide s v c buffer) (v.entryOffset c % 512) width := by
    simp only [readEntry, fatReadSector, hinfo, hstart, ← BitVec.ofNat_add, tableBuffer]
    cases ide s.reads s.currentDrive
      (BitVec.ofNat 32 (v.bpb.reservedSectors + v.entryOffset c / 512) + s.partitionOffset) <;> rfl
  simp only [fatGetNextCluster, h.mounted, Bool.not_true, Bool.false_eq_true, if_false, htype,
    Volume.packedEnd, ← hentry]
  cases ht : v.type with
  | fat12 =>
    rw [show (c + c / 2) % 2 ^ 32 = v.entryOffset c by simp only [Volume.entryOffset, ht]; omega]
    rfl
  | fat16 =>
    rw [show c * 2 % 2 ^ 32 = v.entryOffset c by simp only [Volume.entryOffset, ht]; omega]
    rfl
  | fat32 =>
    rw [show c * 4 % 2 ^ 32 = v.entryOffset c by simp only [Volume.entryOffset, ht]; omega]
    rfl

theorem Volume.entry_fits (hone : ¬ v.Straddles c) :
    v.entryOffset c % 512 + v.type.entryWidth ≤ 512 := by
  simp only [Straddles, entryOffset, FatType.entryWidth] at hone ⊢
  cases ht : v.type with
  | fat12 =>
    simp only [ht, true_and] at hone ⊢
    omega
  | fat16 => simp only; omega
  | fat32 => simp only; omega

theorem Attached.tableBuffer_eq (h : Attached ide s v) (hread : Readable ide s v c)
    (buffer : Sector) : tableBuffer ide s v c buffer = fun i =>
      if i < 512 then v (v.bpb.reservedSectors + v.entryOffset c / 512) i else buffer i := by
  obtain ⟨data, hdata⟩ := Option.ne_none_iff_exists'.mp hread
  rw [tableBuffer, hdata, h.content _ _ _ hdata]

theorem tableBuffer_of_not_readable (hread : ¬ Readable ide s v c) (buffer : Sector) :
    tableBuffer ide s v c buffer = buffer := by
  rw [Readable, not_not] at hread
  rw [tableBuffer, hread]

theorem Attached.nextCluster_stale (h : Attached ide s v) (hbps : v.bpb.bytesPerSector = 512)
    (hc : c < 2 ^ 28) (hread : ¬ Readable ide s v c) :
    (fatGetNextCluster ide { s with sectorBuffer := fun _ => 0 } c).2 ≠
      (fatGetNextCluster ide { s with sectorBuffer := fun _ => 1 } c).2 := by
  rw [h.nextCluster hbps hc, h.nextCluster hbps hc, tableBuffer_of_not_readable hread,
    tableBuffer_of_not_readable hread]
  cases ht : v.type with
  | fat12 =>
    simp only [ht, FatType.unpack, FatType.entryWidth, field, decode, Volume.packedEnd]
    by_cases hodd : c % 2 = 1
    · simp [hodd]
    · simp [hodd]
  | fat16 => simp [ht, FatType.unpack, FatType.entryWidth, field, decode, Volume.packedEnd]
  | fat32 => simp [ht, FatType.unpack, FatType.entryWidth, field, decode, Volume.packedEnd]

theorem Attached.nextCluster_behind (h : Attached ide s v) (hbps : v.bpb.bytesPerSector = 512)
    (hc : c < 2 ^ 28) (hread : Readable ide s v c) (hstraddles : v.Straddles c) :
    (fatGetNextCluster ide { s with sectorBuffer := fun _ => 0 } c).2 ≠
      (fatGetNextCluster ide { s with sectorBuffer := fun _ => 1 } c).2 := by
  obtain ⟨ht, hoffset⟩ := hstraddles
  have hbyte := (v (v.bpb.reservedSectors + v.entryOffset c / 512) 511).isLt
  rw [h.nextCluster hbps hc, h.nextCluster hbps hc, h.tableBuffer_eq hread, h.tableBuffer_eq hread]
  simp only [ht, FatType.unpack, FatType.entryWidth, field, decode, Volume.packedEnd,
    hoffset, Nat.add_zero, Nat.zero_add, Nat.reduceAdd, Nat.reduceLT, if_true, if_false,
    Nat.lt_irrefl, endOfChain]
  by_cases hodd : c % 2 = 1
  · simp only [hodd, if_true]
    split_ifs <;> simp at * <;> omega
  · simp only [hodd, if_false]
    split_ifs <;> simp at * <;> omega

theorem Attached.nextCluster_eq (h : Attached ide s v) (hbps : v.bpb.bytesPerSector = 512)
    (hc : c < 2 ^ 28) (hread : Readable ide s v c) (hone : ¬ v.Straddles c) (buffer : Sector) :
    (fatGetNextCluster ide { s with sectorBuffer := buffer } c).2 = v.successor c := by
  have hfits := Volume.entry_fits hone
  rw [h.nextCluster hbps hc, h.tableBuffer_eq hread, Volume.successor, v.packed_eq]
  have hword : field (fun i => if i < 512 then
        v (v.bpb.reservedSectors + v.entryOffset c / 512) i else buffer i)
      (v.entryOffset c % 512) v.type.entryWidth =
      decode v.type.entryWidth fun i => v.fatByte (v.entryOffset c + i) := by
    refine LittleEndian.decode_congr fun i hi => ?_
    dsimp only
    rw [if_pos (by omega), Volume.fatByte]
    congr 1
    · omega
    · omega
  rw [hword]

/-- `fat_get_next_cluster` returns what the packed table holds, whatever the buffer and the memory
behind it held before, exactly if the table sector can be read and has the whole entry. -/
theorem next_cluster_unpacks_iff (h : Attached ide s v) (hbps : v.bpb.bytesPerSector = 512)
    (hc : c < 2 ^ 28) :
    (∀ buffer, (fatGetNextCluster ide { s with sectorBuffer := buffer } c).2 = v.successor c) ↔
      Readable ide s v c ∧ ¬ v.Straddles c := by
  refine ⟨fun hall => ?_, fun ⟨hread, hone⟩ => h.nextCluster_eq hbps hc hread hone⟩
  have hsame := (hall fun _ => 0).trans (hall fun _ => 1).symm
  by_contra hnot
  by_cases hread : Readable ide s v c
  · exact h.nextCluster_behind hbps hc hread (by_contra fun hone => hnot ⟨hread, hone⟩) hsame
  · exact h.nextCluster_stale hbps hc hread hsame

end

def unmounted : State where
  info := .ofBpb (.parse fun _ => 0)
  mounted := false
  currentDrive := 0
  partitionOffset := 0
  sectorBuffer := fun _ => 0
  reads := 0

/-- A FAT12 disk of 2880 sectors. The chain leads from cluster 341 to cluster 342, and the number
342 lies in the last byte of sector 1 and the first byte of sector 2. -/
def floppyContent (lba : BitVec 32) : Sector := fun i =>
  if lba = 0 then
    match i with
    | 12 => 2
    | 13 => 1
    | 14 => 1
    | 16 => 2
    | 17 => 224
    | 19 => 0x40
    | 20 => 0x0B
    | 22 => 9
    | 510 => 0x55
    | 511 => 0xAA
    | _ => 0
  else if lba = 1 ∧ i = 511 then 0x60
  else if lba = 2 ∧ i = 0 then 0x15
  else 0

def floppyIde : Ide := fun _ _ lba => some (floppyContent lba)

def floppyVolume : Volume := fun n => floppyContent (BitVec.ofNat 32 n + 0)

theorem floppy_attached : Attached floppyIde (fatMount floppyIde unmounted 0).1 floppyVolume :=
  ⟨by decide, congrArg Info.ofBpb (Bpb.parse_congr fun i hi => if_pos hi),
    fun _ _ _ hdata => (Option.some.inj hdata).symm⟩

theorem floppy_unpacks_two : (fatGetNextCluster floppyIde
    { (fatMount floppyIde unmounted 0).1 with sectorBuffer := fun _ => 1 } 2).2 =
      floppyVolume.successor 2 :=
  (next_cluster_unpacks_iff floppy_attached (by decide) (by decide)).mpr
    ⟨Option.some_ne_none _, fun h => absurd h.2 (by decide)⟩ fun _ => 1

/-- With zeros behind the buffer cluster 6 comes after cluster 341. -/
theorem floppy_straddling_entry :
    (fatGetNextCluster floppyIde (fatMount floppyIde unmounted 0).1 341).2 = 6 ∧
      floppyVolume.successor 341 = 342 := by
  decide

end TocinOS.Fat

import TocinOS.NetChecksums

/-! The way of a received frame through `tcpip_process_packet` and `ip_receive` of
`kernel/tcpip.c` to a protocol handler. -/

namespace TocinOS.IpReceive

open OnesComplement
open Tcp (Byte Packet wordSum foldCarry)

abbrev ethFrameSize : Nat := 1514

abbrev ipv4HeaderSize : Nat := 20

structure Interface where
  initialized : Bool
  ipAddr : BitVec 32

inductive Handler where
  | icmp
  | tcp
  | udp
deriving DecidableEq

structure Delivery where
  handler : Handler
  srcIp : BitVec 32
  dstIp : BitVec 32
  offset : Nat
  length : Nat
deriving DecidableEq

def ipChecksum (byte : Nat → Byte) (offset length : Nat) : BitVec 16 :=
  ~~~ BitVec.ofNat 16 (foldCarry 2 (wordSum byte offset length))

def handlerOf (protocol : Byte) : Option Handler :=
  if protocol = 1 then some .icmp
  else if protocol = 6 then some .tcp
  else if protocol = 17 then some .udp
  else none

def word32 (byte : Nat → Byte) (offset : Nat) : BitVec 32 :=
  byte offset ++ byte (offset + 1) ++ byte (offset + 2) ++ byte (offset + 3)

def totalLength (frame : Packet) : Nat := (frame.byte 16 ++ frame.byte 17 : BitVec 16).toNat

/-- `ip_receive` for the packet at offset 14 of the frame. The payload length is computed
in 16 bits. -/
def ipReceive (iface : Interface) (frame : Packet) (length : Nat) : Option Delivery :=
  if length < ipv4HeaderSize then none
  else if ipChecksum frame.byte 14 ipv4HeaderSize ≠ 0 then none
  else if word32 frame.byte 30 ≠ iface.ipAddr then none
  else
    (handlerOf (frame.byte 23)).map fun handler =>
      { handler
        srcIp := word32 frame.byte 26
        dstIp := word32 frame.byte 30
        offset := 14 + ipv4HeaderSize
        length := (totalLength frame + 65536 - ipv4HeaderSize) % 65536 }

def tcpipProcessPacket (iface : Interface) (frame : Packet) : Option Delivery :=
  if !iface.initialized || frame.length < ethFrameSize then none
  else if frame.byte 12 ++ frame.byte 13 = (0x0800 : BitVec 16) then
    ipReceive iface frame (frame.length - 14)
  else none

/-! ### What the IP layer is for -/

def headerLength (frame : Packet) : Nat := (frame.byte 14).toNat % 16 * 4

def headerBytes (frame : Packet) (n : Nat) : List Byte :=
  (List.range n).map fun i => frame.byte (14 + i)

structure Accepts (iface : Interface) (frame : Packet) : Prop where
  valid : checksum (headerBytes frame (headerLength frame)) = 0
  dest : word32 frame.byte 30 = iface.ipAddr
  header : 20 ≤ headerLength frame
  total : headerLength frame ≤ totalLength frame ∧ totalLength frame ≤ frame.length - 14

structure Correct (iface : Interface) (frame : Packet) : Prop where
  called : (tcpipProcessPacket iface frame).isSome ↔ Accepts iface frame
  payload : ∀ d, tcpipProcessPacket iface frame = some d →
    d.offset = 14 + headerLength frame ∧ d.length = totalLength frame - headerLength frame ∧
      d.offset + d.length ≤ frame.length

/-- What the code looks at: a full-size frame whose first 20 bytes have a valid checksum. -/
structure Passes (iface : Interface) (frame : Packet) : Prop where
  initialized : iface.initialized = true
  size : ethFrameSize ≤ frame.length
  valid : checksum (headerBytes frame 20) = 0
  dest : word32 frame.byte 30 = iface.ipAddr
  known : (handlerOf (frame.byte 23)).isSome

/-! ### The code's test -/

theorem ipChecksum_eq_zero_iff_full {byte : Nat → Byte} {offset n : Nat} (hn : n < 65536) :
    ipChecksum byte offset n = 0 ↔
      0 < wordSum byte offset n ∧ wordSum byte offset n % 65535 = 0 := by
  have hle := NetChecksums.wordSum_le byte offset n
  have hcode := NetChecksums.foldCarry_folds (n := wordSum byte offset n) (by omega)
  have hlt := hcode.lt
  rw [← hcode.full_iff, ipChecksum, ← BitVec.toNat_inj, BitVec.toNat_not, BitVec.toNat_ofNat]
  show _ = 0 ↔ _
  omega

theorem ipChecksum_eq_zero_iff (byte : Nat → Byte) (offset : Nat) {n : Nat} (hn : n < 65536) :
    ipChecksum byte offset n = 0 ↔
      checksum ((List.range n).map fun i => byte (offset + i)) = 0 := by
  have hsum := NetChecksums.wordSum_network byte offset n
  have hzero := NetChecksums.wordSum_network_zero byte offset n
  have hspec := networkWords_folds ((List.range n).map fun i => byte (offset + i))
  have hfull : checksum ((List.range n).map fun i => byte (offset + i)) = 0 ↔
      total (networkWords ((List.range n).map fun i => byte (offset + i))) = 65535 := by
    have hlt := hspec.lt
    unfold checksum
    omega
  rw [ipChecksum_eq_zero_iff_full hn, hfull, hspec.full_iff]
  omega

theorem tcpipProcessPacket_isSome_iff (iface : Interface) {frame : Packet}
    (h : frame.byte 12 ++ frame.byte 13 = (0x0800 : BitVec 16)) :
    (tcpipProcessPacket iface frame).isSome ↔ Passes iface frame := by
  have hsum := ipChecksum_eq_zero_iff frame.byte 14 (n := ipv4HeaderSize) (by decide)
  constructor
  · intro hsome
    simp only [tcpipProcessPacket, ipReceive, if_pos h] at hsome
    split_ifs at hsome with hframe hlen hvalid hdest
    all_goals try cases hsome
    simp only [Bool.or_eq_true, Bool.not_eq_true', decide_eq_true_eq, not_or, Nat.not_lt,
      Bool.not_eq_false] at hframe
    exact ⟨hframe.1, hframe.2, hsum.mp (not_not.mp hvalid), not_not.mp hdest, by simpa using hsome⟩
  · intro hp
    have hsize := hp.size
    simp only [ethFrameSize] at hsize
    simp only [tcpipProcessPacket, ipReceive, if_pos h]
    rw [if_neg (by simp [hp.initialized, hp.size]), if_neg (by simp only [ipv4HeaderSize]; omega),
      if_neg (not_not.mpr (hsum.mpr hp.valid)), if_neg (not_not.mpr hp.dest)]
    simpa using hp.known

theorem tcpipProcessPacket_payload {iface : Interface} {frame : Packet} {d : Delivery}
    (h : tcpipProcessPacket iface frame = some d) :
    d.offset = 34 ∧ d.length = (totalLength frame + 65536 - 20) % 65536 := by
  simp only [tcpipProcessPacket, ipReceive] at h
  split_ifs at h
  obtain ⟨handler, -, rfl⟩ := Option.map_eq_some_iff.mp h
  exact ⟨rfl, rfl⟩

/-- The IP layer does what it is for on a frame exactly when the packet is acceptable, the
frame has full size, the header has no options and there is a handler, or when the packet
is not acceptable and fails the code's test too. -/
theorem ip_receive_correct_iff {iface : Interface} {frame : Packet}
    (h : frame.byte 12 ++ frame.byte 13 = (0x0800 : BitVec 16)) :
    Correct iface frame ↔
      Accepts iface frame ∧ iface.initialized = true ∧ ethFrameSize ≤ frame.length ∧
          headerLength frame = 20 ∧ (handlerOf (frame.byte 23)).isSome ∨
        ¬ Accepts iface frame ∧ ¬ Passes iface frame := by
  have hiff := tcpipProcessPacket_isSome_iff iface h
  constructor
  · intro hc
    by_cases ha : Accepts iface frame
    · have hp := hiff.mp (hc.called.mpr ha)
      obtain ⟨d, hd⟩ := Option.isSome_iff_exists.mp (hc.called.mpr ha)
      have hoffset := (hc.payload d hd).1
      rw [(tcpipProcessPacket_payload hd).1] at hoffset
      exact .inl ⟨ha, hp.initialized, hp.size, by omega, hp.known⟩
    · exact .inr ⟨ha, fun hp => ha (hc.called.mp (hiff.mpr hp))⟩
  · rintro (⟨ha, hinit, hsize, hheader, hknown⟩ | ⟨ha, hp⟩)
    · have hvalid := ha.valid
      rw [hheader] at hvalid
      refine ⟨iff_of_true (hiff.mpr ⟨hinit, hsize, hvalid, ha.dest, hknown⟩) ha, fun d hd => ?_⟩
      obtain ⟨hoffset, hlength⟩ := tcpipProcessPacket_payload hd
      have htotal := ha.total
      have hlt := frame.length_lt
      rw [hoffset, hlength]
      omega
    · refine ⟨iff_of_false (fun hs => hp (hiff.mp hs)) ha, fun d hd => ?_⟩
      exact absurd (hiff.mp (by rw [hd]; rfl)) hp

def datagramFrame (length : Nat) (h : length < 65536) : Packet where
  length := length
  byte := fun k => ((List.replicate 12 0 ++ [0x08, 0x00] ++
    [0x45, 0, 0, 28, 0, 0, 0, 0, 64, 17, 0x62, 0xC1, 10, 0, 2, 2, 10, 0, 2, 15] : List Byte)).getD k 0
  length_lt := h

def hostInterface : Interface := ⟨true, 0x0A00020F⟩

variable {length : Nat}

theorem datagramFrame_totalLength (h : length < 65536) :
    totalLength (datagramFrame length h) = 28 := by
  show (((0 : Byte) ++ (28 : Byte)) : BitVec 16).toNat = 28
  decide

theorem datagramFrame_headerLength (h : length < 65536) :
    headerLength (datagramFrame length h) = 20 := by
  show (0x45 : Byte).toNat % 16 * 4 = 20
  decide

theorem datagramFrame_accepts (h : length < 65536) (hlen : 42 ≤ length) :
    Accepts hostInterface (datagramFrame length h) where
  valid := by
    rw [datagramFrame_headerLength]
    show checksum (headerBytes (datagramFrame 0 (by decide)) 20) = 0
    decide
  dest := by
    show (((10 : Byte) ++ (0 : Byte)) ++ (2 : Byte)) ++ (15 : Byte) = (0x0A00020F : BitVec 32)
    decide
  header := by rw [datagramFrame_headerLength]
  total := by
    rw [datagramFrame_totalLength, datagramFrame_headerLength]
    show 20 ≤ 28 ∧ 28 ≤ length - 14
    omega

theorem full_frame_received : Correct hostInterface (datagramFrame 1514 (by decide)) := by
  apply (ip_receive_correct_iff (by decide)).mpr
  exact .inl ⟨datagramFrame_accepts _ (by decide), rfl, by decide, by decide, by decide⟩

/-- A valid packet in a frame of the minimum length is dropped. -/
theorem minimum_frame_dropped : Accepts hostInterface (datagramFrame 60 (by decide)) ∧
    tcpipProcessPacket hostInterface (datagramFrame 60 (by decide)) = none :=
  ⟨datagramFrame_accepts _ (by decide), rfl⟩

end TocinOS.IpReceive

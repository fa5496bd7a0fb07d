import TocinOS.OnesComplement
import TocinOS.TcpSend
import TocinOS.Udp

/-! The checksums that `tcp_send_segment` and `udp_sendto` store, against those of RFC 793
and RFC 768. Both routines add the addresses in host order to words that the processor
loads from network-order memory. -/

namespace TocinOS.NetChecksums

open OnesComplement
open Tcp (Byte htons wordSum foldCarry bigEndian16 bigEndian32)

def pseudoHeader (srcIp destIp : BitVec 32) (protocol : Byte) (length : Nat) : List Byte :=
  bigEndian32 srcIp ++ bigEndian32 destIp ++ [0, protocol] ++ bigEndian16 (BitVec.ofNat 16 length)

def cleared (bytes : List Byte) (offset : Nat) : List Byte := (bytes.set offset 0).set (offset + 1) 0

def rfc793 (srcIp destIp : BitVec 32) (segment : List Byte) : Nat :=
  checksum (pseudoHeader srcIp destIp 6 segment.length ++ cleared segment 16)

def rfc768 (srcIp destIp : BitVec 32) (packet : List Byte) : Nat :=
  let sum := checksum (pseudoHeader srcIp destIp 17 packet.length ++ cleared packet 6)
  if sum = 0 then 65535 else sum

def networkWord (bytes : List Byte) (offset : Nat) : Nat :=
  (bytes.getD offset 0).toNat * 256 + (bytes.getD (offset + 1) 0).toNat

def addressSum (srcIp destIp : BitVec 32) : Nat :=
  srcIp.toNat / 65536 + srcIp.toNat % 65536 + (destIp.toNat / 65536 + destIp.toNat % 65536)

/-! ### The sum over memory words -/

theorem foldCarry_folds {n : Nat} (h : n < 2 ^ 32) : Folds n (foldCarry 2 n) := by
  refine ⟨Tcp.foldCarry_lt h, ?_, ?_⟩
  · simp only [foldCarry]
    split_ifs <;> omega
  · simp only [foldCarry]
    split_ifs <;> omega

theorem wordSum_le (byte : Nat → Byte) (offset n : Nat) :
    wordSum byte offset n ≤ 65535 * ((n + 1) / 2) := by
  fun_induction wordSum byte offset n with
  | case1 offset => simp
  | case2 offset =>
    have := (byte offset).isLt
    omega
  | case3 offset n ih =>
    have := (byte offset).isLt
    have := (byte (offset + 1)).isLt
    omega

theorem wordSum_congr {byte byte' : Nat → Byte} {offset n : Nat}
    (h : ∀ i, offset ≤ i → i < offset + n → byte i = byte' i) :
    wordSum byte offset n = wordSum byte' offset n := by
  fun_induction wordSum byte offset n with
  | case1 offset => rfl
  | case2 offset => rw [wordSum, h offset (Nat.le_refl _) (by omega)]
  | case3 offset n ih =>
    rw [wordSum, h offset (Nat.le_refl _) (by omega), h (offset + 1) (by omega) (by omega),
      ih fun i hi hn => h i (by omega) (by omega)]

theorem wordSum_update {byte byte' : Nat → Byte} {m offset n : Nat} (hn : 2 * m + 2 ≤ n)
    (hsame : ∀ i, i ≠ offset + 2 * m → i ≠ offset + 2 * m + 1 → byte' i = byte i)
    (hlow : byte' (offset + 2 * m) = 0) (hhigh : byte' (offset + 2 * m + 1) = 0) :
    wordSum byte offset n = wordSum byte' offset n +
      ((byte (offset + 2 * m)).toNat + 256 * (byte (offset + 2 * m + 1)).toNat) := by
  have hzero : (0 : Byte).toNat = 0 := rfl
  have hfirst (byte : Nat → Byte) (offset n : Nat) : wordSum byte offset (n + 2) =
      (byte offset).toNat + 256 * (byte (offset + 1)).toNat + wordSum byte (offset + 2) n := rfl
  induction m generalizing offset n with
  | zero =>
    obtain ⟨n, rfl⟩ := Nat.exists_eq_add_of_le' (show 2 ≤ n by omega)
    have htail : wordSum byte' (offset + 2) n = wordSum byte (offset + 2) n :=
      wordSum_congr fun i hi _ => hsame i (by omega) (by omega)
    simp only [Nat.mul_zero, Nat.add_zero] at hlow hhigh ⊢
    rw [hfirst, hfirst, htail, hlow, hhigh, hzero]
    omega
  | succ m ih =>
    obtain ⟨n, rfl⟩ := Nat.exists_eq_add_of_le' (show 2 ≤ n by omega)
    have hshift : offset + 2 * (m + 1) = offset + 2 + 2 * m := by omega
    rw [hshift] at hsame hlow hhigh ⊢
    rw [hfirst, hfirst, ih (by omega) hsame hlow hhigh, hsame offset (by omega) (by omega),
      hsame (offset + 1) (by omega) (by omega)]
    omega

theorem wordSum_cleared (bytes : List Byte) {m n : Nat} (hn : 2 * m + 2 ≤ n) :
    wordSum (fun i => bytes.getD i 0) 0 n = wordSum (fun i => (cleared bytes (2 * m)).getD i 0) 0 n +
      ((bytes.getD (2 * m) 0).toNat + 256 * (bytes.getD (2 * m + 1) 0).toNat) := by
  have hupdate := @wordSum_update (fun i => bytes.getD i 0) (fun i => (cleared bytes (2 * m)).getD i 0)
    m 0 n hn
  simp only [Nat.zero_add] at hupdate
  apply hupdate
  · intro i hlow hhigh
    simp [cleared, List.getElem?_set_ne, Ne.symm hlow, Ne.symm hhigh]
  · simp only [cleared, List.getD_eq_getElem?_getD, List.getElem?_set]
    grind
  · simp only [cleared, List.getD_eq_getElem?_getD, List.getElem?_set]
    grind

theorem map_range_add_two (byte : Nat → Byte) (offset n : Nat) :
    ((List.range (n + 2)).map fun i => byte (offset + i)) =
      byte offset :: byte (offset + 1) :: (List.range n).map fun i => byte (offset + 2 + i) := by
  simp only [List.range_succ_eq_map, List.map_cons, List.map_map]
  simp only [Function.comp_def, Nat.add_zero, List.cons.injEq, true_and]
  exact List.map_congr_left fun i _ => congrArg byte (by omega)

theorem wordSum_network (byte : Nat → Byte) (offset n : Nat) :
    (networkWords ((List.range n).map fun i => byte (offset + i))).sum % 65535 =
      256 * wordSum byte offset n % 65535 := by
  fun_induction wordSum byte offset n with
  | case1 offset => rfl
  | case2 offset =>
    simp only [List.range_one, List.map_cons, List.map_nil, networkWords,
      List.sum_singleton, Nat.add_zero]
    omega
  | case3 offset n ih =>
    rw [map_range_add_two, networkWords, List.sum_cons]
    omega

theorem wordSum_network_zero (byte : Nat → Byte) (offset n : Nat) :
    (networkWords ((List.range n).map fun i => byte (offset + i))).sum = 0 ↔
      wordSum byte offset n = 0 := by
  fun_induction wordSum byte offset n with
  | case1 offset => simp [networkWords]
  | case2 offset => simp [networkWords]
  | case3 offset n ih =>
    rw [map_range_add_two, networkWords, List.sum_cons]
    omega

theorem wordSum_getD (bytes : List Byte) :
    (networkWords bytes).sum % 65535 =
      256 * wordSum (fun i => bytes.getD i 0) 0 bytes.length % 65535 := by
  have hbytes : ((List.range bytes.length).map fun i => bytes.getD (0 + i) 0) = bytes := by
    apply List.ext_getElem
    · simp
    · intro i _ hi
      simp [hi]
  rw [← wordSum_network, hbytes]

/-! ### The pseudo-header -/

theorem networkWords_bigEndian32 (x : BitVec 32) (rest : List Byte) :
    (networkWords (bigEndian32 x ++ rest)).sum =
      x.toNat / 65536 + x.toNat % 65536 + (networkWords rest).sum := by
  have := x.isLt
  simp only [bigEndian32, List.cons_append, List.nil_append, networkWords, List.sum_cons,
    BitVec.extractLsb'_toNat, Nat.shiftRight_eq_div_pow]
  omega

theorem pseudoHeader_sum (srcIp destIp : BitVec 32) (protocol : Byte) {length : Nat}
    (h : length < 65536) (rest : List Byte) :
    (networkWords (pseudoHeader srcIp destIp protocol length ++ rest)).sum =
      addressSum srcIp destIp + protocol.toNat + length + (networkWords rest).sum := by
  rw [pseudoHeader]
  simp only [List.append_assoc]
  rw [networkWords_bigEndian32, networkWords_bigEndian32]
  have hzero : (0 : Byte).toNat = 0 := rfl
  simp only [bigEndian16, List.cons_append, List.nil_append, networkWords, List.sum_cons,
    BitVec.extractLsb'_toNat, Nat.shiftRight_eq_div_pow, BitVec.toNat_ofNat, addressSum, hzero]
  omega

variable {x : Nat} {bytes : List Byte}

theorem htons_eq_swap (h : x < 65536) : htons x = swap x := by
  unfold htons swap
  omega

theorem htons_folds (h : x < 65536) : Folds (256 * x) (htons x) := by
  rw [htons_eq_swap h]
  exact (Folds.of_lt h).swap

theorem htons_mod (h : x < 65536) : 256 * htons x % 65535 = x % 65535 := by
  have := (htons_folds h).mod
  omega

def codeSum (srcIp destIp : BitVec 32) (protocol : Nat) (bytes : List Byte) : Nat :=
  addressSum srcIp destIp + htons protocol + htons bytes.length
    + wordSum (fun i => bytes.getD i 0) 0 bytes.length

theorem codeSum_folds (srcIp destIp : BitVec 32) (protocol : Nat) (h : bytes.length < 65536) :
    Folds (codeSum srcIp destIp protocol bytes) (foldCarry 2 (codeSum srcIp destIp protocol bytes)) := by
  apply foldCarry_folds
  have hwords := wordSum_le (fun i => bytes.getD i 0) 0 bytes.length
  have := srcIp.isLt
  have := destIp.isLt
  simp only [codeSum, addressSum, htons]
  omega

theorem codeSum_pos (srcIp destIp : BitVec 32) (protocol : Byte) (hpos : 0 < protocol.toNat)
    (bytes : List Byte) : 0 < codeSum srcIp destIp protocol.toNat bytes := by
  have hne : htons protocol.toNat ≠ 0 := fun hzero => by
    have := (htons_folds (Nat.lt_trans protocol.isLt (by decide))).zero.mp hzero
    omega
  unfold codeSum
  omega

theorem pseudoHeader_pos (srcIp destIp : BitVec 32) (protocol : Byte) (hpos : 0 < protocol.toNat)
    {length : Nat} (h : length < 65536) (rest : List Byte) :
    0 < (networkWords (pseudoHeader srcIp destIp protocol length ++ rest)).sum := by
  rw [pseudoHeader_sum srcIp destIp protocol h]
  omega

/-- The folded sum with its bytes exchanged is the sum of the RFCs exactly when the address
halves add up to a multiple of 257. -/
theorem swap_eq_total_iff (srcIp destIp : BitVec 32) (protocol : Byte) (hpos : 0 < protocol.toNat)
    (h : bytes.length < 65536) : swap (foldCarry 2 (codeSum srcIp destIp protocol.toNat bytes)) =
        total (networkWords (pseudoHeader srcIp destIp protocol bytes.length ++ bytes)) ↔
      257 ∣ addressSum srcIp destIp := by
  have hlt : protocol.toNat < 65536 := Nat.lt_trans protocol.isLt (by decide)
  rw [Folds.eq_iff (codeSum_folds srcIp destIp protocol.toNat h).swap (networkWords_folds _)
    (Nat.mul_pos (by decide) (codeSum_pos srcIp destIp protocol hpos bytes))
    (pseudoHeader_pos srcIp destIp protocol hpos h bytes), pseudoHeader_sum srcIp destIp protocol h, codeSum]
  have hprotocol := htons_mod hlt
  have hlength := htons_mod h
  have hwords := wordSum_getD bytes
  omega

/-! ### The stored checksums -/

theorem stored_swap (x : BitVec 16) :
    (x.extractLsb' 0 8).toNat * 256 + (x.extractLsb' 8 8).toNat = swap x.toNat := by
  have := x.isLt
  simp only [BitVec.extractLsb'_toNat, Nat.shiftRight_eq_div_pow, swap]
  omega

theorem stored_word (x : BitVec 16) :
    (x.extractLsb' 0 8).toNat + 256 * (x.extractLsb' 8 8).toNat = x.toNat := by
  have := x.isLt
  simp only [BitVec.extractLsb'_toNat, Nat.shiftRight_eq_div_pow]
  omega

theorem swap_complement {n : Nat} (h : n < 65536) :
    swap (~~~ BitVec.ofNat 16 n).toNat = 65535 - swap n := by
  rw [BitVec.toNat_not, BitVec.toNat_ofNat, Nat.mod_eq_of_lt h]
  unfold swap
  omega

theorem total_lt (bytes : List Byte) : total (networkWords bytes) < 65536 :=
  (networkWords_folds bytes).lt

theorem segment_networkWord (seg : Tcp.Segment) :
    networkWord seg.bytes 16 = swap seg.checksum.toNat :=
  stored_swap seg.checksum

theorem cleared_segment (seg : Tcp.Segment) :
    cleared seg.bytes 16 = { seg with checksum := 0 }.bytes := by
  simp [cleared, Tcp.Segment.bytes, bigEndian16, bigEndian32]

theorem segment_length (seg : Tcp.Segment) : seg.bytes.length = 20 + seg.payload.length := by
  simp [Tcp.Segment.bytes, bigEndian16, bigEndian32]
  omega

theorem cleared_withChecksum {seg : Tcp.Segment} (hseg : seg.checksum = 0) :
    cleared seg.withChecksum.bytes 16 = seg.bytes ∧
      seg.withChecksum.bytes.length = seg.bytes.length := by
  rw [cleared_segment, Tcp.Segment.withChecksum, ← hseg]
  exact ⟨rfl, by simp only [segment_length]⟩

theorem segment_checksum_iff {seg : Tcp.Segment} (h : 20 + seg.payload.length < 65536)
    (hseg : seg.checksum = 0) :
    networkWord seg.withChecksum.bytes 16 = rfc793 seg.srcIp seg.destIp seg.withChecksum.bytes ↔
      257 ∣ addressSum seg.srcIp seg.destIp := by
  have hlen : seg.bytes.length < 65536 := by rwa [segment_length]
  obtain ⟨hclear, hlength⟩ := cleared_withChecksum hseg
  have hstored : seg.withChecksum.checksum =
      ~~~ BitVec.ofNat 16 (foldCarry 2 (codeSum seg.srcIp seg.destIp 6 seg.bytes)) := rfl
  have hfolds := codeSum_folds seg.srcIp seg.destIp 6 hlen
  have hswap := hfolds.swap.lt
  have htotal := total_lt (pseudoHeader seg.srcIp seg.destIp 6 seg.bytes.length ++ seg.bytes)
  rw [segment_networkWord, hstored, swap_complement hfolds.lt, rfc793, hclear, hlength, checksum,
    ← swap_eq_total_iff seg.srcIp seg.destIp 6 (by decide) hlen]
  show 65535 - swap (foldCarry 2 (codeSum seg.srcIp seg.destIp 6 seg.bytes)) = _ ↔
    swap (foldCarry 2 (codeSum seg.srcIp seg.destIp 6 seg.bytes)) = _
  omega

theorem packet_networkWord (srcPort destPort sum : BitVec 16) (data : List Byte) :
    networkWord (Udp.packetBytes srcPort destPort sum data) 6 = swap sum.toNat :=
  stored_swap sum

theorem cleared_packet (srcPort destPort sum : BitVec 16) (data : List Byte) :
    cleared (Udp.packetBytes srcPort destPort sum data) 6 =
      Udp.packetBytes srcPort destPort 0 data := rfl

theorem udpChecksum_swap (srcIp destIp : BitVec 32) (h : bytes.length < 65536) :
    swap (Udp.udpChecksum srcIp destIp (fun i => bytes.getD i 0) bytes.length).toNat =
      let sum := 65535 - swap (foldCarry 2 (codeSum srcIp destIp 17 bytes))
      if sum = 0 then 65535 else sum := by
  have hlt := (codeSum_folds srcIp destIp 17 h).lt
  have hresult : Udp.udpChecksum srcIp destIp (fun i => bytes.getD i 0) bytes.length =
      let sum := ~~~ BitVec.ofNat 16 (foldCarry 2 (codeSum srcIp destIp 17 bytes))
      if sum = 0 then 0xFFFF else sum := rfl
  have hcomplement := swap_complement hlt
  dsimp only at hresult ⊢
  rw [hresult, ← hcomplement]
  generalize ~~~ BitVec.ofNat 16 (foldCarry 2 (codeSum srcIp destIp 17 bytes)) = x
  have hzero : swap x.toNat = 0 ↔ x = 0 := by
    rw [← BitVec.toNat_inj, swap]
    have := x.isLt
    show _ ↔ x.toNat = 0
    omega
  by_cases hx : x = 0
  · rw [if_pos hx, if_pos (hzero.mpr hx)]
    rfl
  · rw [if_neg hx, if_neg (fun h => hx (hzero.mp h))]

theorem complement_eq_iff {a b : Nat} (ha : 0 < a) (ha' : a < 65536) (hb : 0 < b) (hb' : b < 65536) :
    (if 65535 - a = 0 then 65535 else 65535 - a) = (if 65535 - b = 0 then 65535 else 65535 - b) ↔
      a = b := by
  split_ifs <;> omega

theorem datagram_checksum_iff (srcIp destIp : BitVec 32) (srcPort destPort : BitVec 16)
    {data : List Byte} (h : data.length ≤ Udp.maxPayload) :
    networkWord (Udp.datagram srcIp destIp srcPort destPort data).bytes 6 =
        rfc768 srcIp destIp (Udp.datagram srcIp destIp srcPort destPort data).bytes ↔
      257 ∣ addressSum srcIp destIp := by
  have hlength : ∀ sum, (Udp.packetBytes srcPort destPort sum data).length = 8 + data.length :=
    fun _ => Udp.packetBytes_length
  simp only [Udp.maxPayload] at h
  have hlen : (Udp.packetBytes srcPort destPort 0 data).length < 65536 := by
    rw [hlength]
    omega
  have hcode := (codeSum_folds srcIp destIp 17 hlen).swap
  have htotal := networkWords_folds (pseudoHeader srcIp destIp 17
    (Udp.packetBytes srcPort destPort 0 data).length ++ Udp.packetBytes srcPort destPort 0 data)
  have hcode' := hcode.pos (Nat.mul_pos (by decide) (codeSum_pos srcIp destIp 17 (by decide) _))
  have htotal' := htotal.pos (pseudoHeader_pos srcIp destIp 17 (by decide) hlen _)
  have hiff := swap_eq_total_iff srcIp destIp 17 (by decide) hlen
  have hsum := udpChecksum_swap srcIp destIp hlen
  rw [← hiff, Udp.datagram, packet_networkWord, rfc768, cleared_packet]
  rw [hlength] at hsum
  rw [hsum, checksum, hlength, ← hlength 0]
  exact complement_eq_iff hcode' hcode.lt htotal' htotal.lt

theorem sent_segment {env : Tcp.Env} {s : Tcp.State} {i : Nat} {flags : Byte} {data : List Byte}
    {seg : Tcp.Segment} (h : (Tcp.tcpSendSegment env s i flags data).sent = s.sent ++ [seg]) :
    (s.connections i).segment flags data = seg := by
  by_cases hok : Tcp.SendsNext env s
  · rw [Tcp.tcpSendSegment_of_sends hok] at h
    exact List.head_eq_of_cons_eq (List.append_cancel_left h)
  · rw [(Tcp.tcpSendSegment_of_fails hok i flags data).2] at h
    simp at h

/-- A segment or datagram that is handed to the IP layer carries the checksum of its RFC
exactly when the four address halves add up to a multiple of 257. -/
theorem stored_checksums_rfc_iff (data : List Byte) :
    (∀ (env : Tcp.Env) (s : Tcp.State) (i : Nat) (flags : Byte) (seg : Tcp.Segment),
      20 + data.length < 65536 →
      (Tcp.tcpSendSegment env s i flags data).sent = s.sent ++ [seg] →
      (networkWord seg.bytes 16 = rfc793 seg.srcIp seg.destIp seg.bytes ↔
        257 ∣ addressSum seg.srcIp seg.destIp)) ∧
    ∀ (env : Udp.Env) (s : Udp.State) (sockfd : Int) (destIp : BitVec 32) (destPort : BitVec 16)
        (d : Udp.Datagram),
      (Udp.udpSendto env s sockfd data destIp destPort).2.sent = s.sent ++ [d] →
      (networkWord d.bytes 6 = rfc768 d.srcIp d.destIp d.bytes ↔
        257 ∣ addressSum d.srcIp d.destIp) := by
  constructor
  · intro env s i flags seg hlen hsent
    obtain rfl := sent_segment hsent
    exact segment_checksum_iff hlen rfl
  · intro env s sockfd destIp destPort d hsent
    rcases Udp.udpSendto_cases env s sockfd data destIp destPort with
      ⟨-, hnone⟩ | ⟨-, hlen, srcIp, srcPort, -, hone⟩
    · rw [hnone] at hsent
      simp at hsent
    · rw [hone] at hsent
      obtain rfl := List.head_eq_of_cons_eq (List.append_cancel_left hsent)
      exact datagram_checksum_iff srcIp destIp srcPort destPort hlen

def onesState : Tcp.State where
  connections := fun _ => { inUse := true, state := .established, localIp := 0x01010101
                            localPort := 80, remoteIp := 0x01010101, remotePort := 1000 }

def onesSockets : Udp.State where
  sockets := fun _ => { inUse := true, bound := true, localIp := 0x01010101, localPort := 53 }

theorem ones_checksums_rfc :
    networkWord ((onesState.connections 0).segment Tcp.flagAck [0x61]).bytes 16 =
        rfc793 0x01010101 0x01010101 ((onesState.connections 0).segment Tcp.flagAck [0x61]).bytes ∧
      networkWord (Udp.datagram 0x01010101 0x01010101 53 1000 [0x61]).bytes 6 =
        rfc768 0x01010101 0x01010101 (Udp.datagram 0x01010101 0x01010101 53 1000 [0x61]).bytes := by
  have hboth := stored_checksums_rfc_iff [0x61]
  constructor
  · exact (hboth.1 Tcp.reliableEnv onesState 0 Tcp.flagAck _ (by decide) rfl).mpr (by decide)
  · exact (hboth.2 Udp.plentyEnv onesSockets 0 0x01010101 1000 _ rfl).mpr (by decide)

/-- Between 10.0.2.15 and 10.0.2.2 both stored checksums are wrong. -/
theorem private_checksums_wrong :
    let tcb : Tcp.Tcb := { localIp := 0x0A00020F, remoteIp := 0x0A000202, localPort := 1000
                           remotePort := 80 }
    let d := Udp.datagram 0x0A00020F 0x0A000202 1000 53 [0x61]
    networkWord (tcb.segment Tcp.flagSyn []).bytes 16 ≠
        rfc793 0x0A00020F 0x0A000202 (tcb.segment Tcp.flagSyn []).bytes ∧
      networkWord d.bytes 6 ≠ rfc768 0x0A00020F 0x0A000202 d.bytes := by
  decide

/-! ### A segment that comes back -/

theorem codeSum_withChecksum {seg : Tcp.Segment} (hseg : seg.checksum = 0) :
    codeSum seg.srcIp seg.destIp 6 seg.withChecksum.bytes =
      codeSum seg.srcIp seg.destIp 6 seg.bytes + seg.withChecksum.checksum.toNat := by
  obtain ⟨hclear, hlength⟩ := cleared_withChecksum hseg
  have hwords := @wordSum_cleared seg.withChecksum.bytes 8 seg.bytes.length
    (by rw [segment_length]; omega)
  rw [hclear] at hwords
  rw [codeSum, codeSum, hlength, hwords, ← stored_word seg.withChecksum.checksum]
  exact (Nat.add_assoc ..).symm

theorem tcpChecksum_withChecksum {seg : Tcp.Segment} (h : 20 + seg.payload.length < 65536)
    (hseg : seg.checksum = 0) :
    Tcp.tcpChecksum seg.srcIp seg.destIp (fun i => seg.withChecksum.bytes.getD i 0)
      seg.withChecksum.bytes.length = 0 := by
  have hlen : seg.bytes.length < 65536 := by rwa [segment_length]
  have hfolds := codeSum_folds seg.srcIp seg.destIp 6 hlen
  have hlen' : seg.withChecksum.bytes.length < 65536 := by rwa [(cleared_withChecksum hseg).2]
  have hback := codeSum_folds seg.srcIp seg.destIp 6 hlen'
  have hstored : seg.withChecksum.checksum.toNat =
      65535 - foldCarry 2 (codeSum seg.srcIp seg.destIp 6 seg.bytes) := by
    have hlt := hfolds.lt
    show (~~~ BitVec.ofNat 16 (foldCarry 2 (codeSum seg.srcIp seg.destIp 6 seg.bytes))).toNat = _
    rw [BitVec.toNat_not, BitVec.toNat_ofNat]
    omega
  have hfull : foldCarry 2 (codeSum seg.srcIp seg.destIp 6 seg.withChecksum.bytes) = 65535 := by
    rw [hback.full_iff, codeSum_withChecksum hseg, hstored]
    exact hfolds.complement
  show ~~~ BitVec.ofNat 16 (foldCarry 2 (codeSum seg.srcIp seg.destIp 6 seg.withChecksum.bytes)) = 0
  rw [hfull]
  decide

theorem tcpChecksum_segment (tcb : Tcp.Tcb) (flags : Byte) {data : List Byte}
    (h : 20 + data.length < 65536) :
    Tcp.tcpChecksum tcb.localIp tcb.remoteIp (fun i => (tcb.segment flags data).bytes.getD i 0)
      (tcb.segment flags data).bytes.length = 0 := by
  obtain ⟨seg, hbuilt, hseg, hsrc, hdest, hdata⟩ : ∃ seg : Tcp.Segment,
      tcb.segment flags data = seg.withChecksum ∧ seg.checksum = 0 ∧ seg.srcIp = tcb.localIp ∧
        seg.destIp = tcb.remoteIp ∧ seg.payload = data := ⟨_, rfl, rfl, rfl, rfl, rfl⟩
  rw [hbuilt, ← hsrc, ← hdest]
  exact tcpChecksum_withChecksum (hdata ▸ h) hseg

/-- The segment that `tcp_send_segment` hands to the IP layer passes the tests that `tcp_receive`
makes before it looks for a connection, whatever stands in memory behind it. -/
theorem sent_segment_valid (env : Tcp.Env) (s : Tcp.State) (i : Nat) (flags : Byte) (data : List Byte)
    (seg : Tcp.Segment) (p : Tcp.Packet) (hdata : data.length ≤ Tcp.mss)
    (hsent : (Tcp.tcpSendSegment env s i flags data).sent = s.sent ++ [seg])
    (hlength : p.length = seg.bytes.length) (hbytes : ∀ k < p.length, p.byte k = seg.bytes.getD k 0) :
    ¬ p.length < Tcp.headerMinSize ∧
      Tcp.tcpChecksum (s.connections i).localIp (s.connections i).remoteIp p.byte p.length = 0 := by
  obtain rfl := sent_segment hsent
  have hsum : wordSum p.byte 0 p.length =
      wordSum (fun k => ((s.connections i).segment flags data).bytes.getD k 0) 0 p.length :=
    wordSum_congr fun k _ hk => hbytes k (by omega)
  constructor
  · rw [hlength, segment_length, Nat.not_lt]
    exact Nat.le_add_right ..
  · rw [Tcp.tcpChecksum, hsum, hlength]
    exact tcpChecksum_segment _ flags (by simp only [Tcp.mss] at hdata; omega)

def oneByteBack : Tcp.Packet where
  length := 21
  byte := fun k => ((onesState.connections 0).segment Tcp.flagAck [0x61]).bytes.getD k 0
  length_lt := show 20 + 1 < 65536 by decide

theorem one_byte_valid : Tcp.tcpChecksum 0x01010101 0x01010101 oneByteBack.byte 21 = 0 :=
  (sent_segment_valid Tcp.reliableEnv onesState 0 Tcp.flagAck [0x61] _ oneByteBack (by decide) rfl rfl
    fun _ _ => rfl).2

end TocinOS.NetChecksums

import TocinOS.IpReceive
import TocinOS.Kmalloc

/-! The control messages of `kernel/net/icmp.c` over the heap of `kernel/mm/slab.c`, whose `kfree`
does nothing. The IP layer answers every call in turn; the bytes of a message are kept in `sent`, and
the statistics and the debug output are left out. -/

namespace TocinOS.Icmp

open OnesComplement
open Tcp (Byte Packet wordSum foldCarry bigEndian32)
open IpReceive (word32 ipChecksum)

abbrev headerSize : Nat := 8

abbrev typeEchoReply : Byte := 0
abbrev typeEchoRequest : Byte := 8

structure Message where
  destIp : BitVec 32
  packet : Packet

structure State where
  heap : Slab.State
  transmissions : Nat := 0
  sent : List Message := []

def icmpChecksum (byte : Nat → Byte) (length : Nat) : BitVec 16 := ipChecksum byte 0 length

/-- The message as it lies in memory. The checksum is stored as the processor holds it. -/
def messageBytes (type code : Byte) (checksum : BitVec 16) (rest : BitVec 32)
    (data : List Byte) : List Byte :=
  [type, code] ++ [checksum.extractLsb' 0 8, checksum.extractLsb' 8 8] ++ bigEndian32 rest ++ data

def buildPacket (type code : Byte) (rest : BitVec 32) (data : List Byte) : Packet where
  length := (headerSize + data.length) % 65536
  byte :=
    let sum := icmpChecksum (fun i => (messageBytes type code 0 rest data).getD i 0)
      ((headerSize + data.length) % 65536)
    fun i => (messageBytes type code sum rest data).getD i 0
  length_lt := Nat.mod_lt _ (by decide)

section

variable (ipSendPacket : Nat → Int)

/-- What is returned and the state after it, or none where `kmalloc` does not come back. -/
def sendMessage (s : State) (destIp : BitVec 32) (type code : Byte) (rest : BitVec 32)
    (data : List Byte) : Option (Int × State) := do
  let totalLen := (headerSize + data.length) % 65536
  let (packet, heap) ← Slab.kmallocReturns totalLen s.heap
  let s := { s with heap }
  if packet = 0 then return (-1, s)
  else
    return (ipSendPacket s.transmissions,
      { s with
        transmissions := s.transmissions + 1
        sent := s.sent ++ [⟨destIp, buildPacket type code rest data⟩] })

def icmpEchoRequest (s : State) (destIp : BitVec 32) (id seq : BitVec 16) (data : List Byte) :
    Option (Int × State) :=
  sendMessage ipSendPacket s destIp typeEchoRequest 0 (id ++ seq) data

def icmpEchoReply (s : State) (destIp : BitVec 32) (id seq : BitVec 16) (data : List Byte) :
    Option (Int × State) :=
  sendMessage ipSendPacket s destIp typeEchoReply 0 (id ++ seq) data

end

def identifier (p : Packet) : BitVec 16 := (word32 p.byte 4).extractLsb' 16 16

def sequence (p : Packet) : BitVec 16 := (word32 p.byte 4).extractLsb' 0 16

def data (p : Packet) : List Byte :=
  (List.range (p.length - headerSize)).map fun k => p.byte (headerSize + k)

def icmpReceive (ipSendPacket : Nat → Int) (s : State) (srcIp : BitVec 32) (p : Packet) :
    Option (Int × State) :=
  if p.length < headerSize then some (-1, s)
  else if icmpChecksum p.byte p.length ≠ 0 then some (-1, s)
  else if p.byte 0 = typeEchoRequest then
    icmpEchoReply ipSendPacket s srcIp (identifier p) (sequence p) (data p)
  -- replies, errors and unknown types are printed only
  else some (0, s)

/-! ### What an echo is for -/

def bytes (p : Packet) : List Byte := (List.range p.length).map p.byte

/-- The echo of a request, which a receiver accepts without an answer of its own. -/
structure Echoes (request reply : Packet) : Prop where
  length : reply.length = request.length
  type : reply.byte 0 = typeEchoReply
  code : reply.byte 1 = 0
  identifier : identifier reply = identifier request
  sequence : sequence reply = sequence request
  data : data reply = data request
  valid : checksum (bytes reply) = 0
  accepted : ∀ (ipSendPacket : Nat → Int) (s : State) (srcIp : BitVec 32),
    icmpReceive ipSendPacket s srcIp reply = some (0, s)

/-- The call hands exactly one message to the IP layer. -/
def Sends (s : State) (message : Message) (ret : Int) (result : Option (Int × State)) : Prop :=
  ∃ t, result = some (ret, t) ∧ t.sent = s.sent ++ [message] ∧ t.transmissions = s.transmissions + 1

/-! ### Checksums -/

theorem icmpChecksum_eq_zero_iff (p : Packet) :
    icmpChecksum p.byte p.length = 0 ↔ checksum (bytes p) = 0 := by
  have h := IpReceive.ipChecksum_eq_zero_iff p.byte 0 p.length_lt
  simp only [Nat.zero_add] at h
  exact h

theorem wordSum_messageBytes (type code : Byte) (sum : BitVec 16) (rest : BitVec 32)
    (data : List Byte) {n : Nat} (hn : 4 ≤ n) :
    wordSum (fun i => (messageBytes type code sum rest data).getD i 0) 0 n =
      wordSum (fun i => (messageBytes type code 0 rest data).getD i 0) 0 n + sum.toNat := by
  rw [← NetChecksums.stored_word sum]
  exact NetChecksums.wordSum_cleared (m := 1) (messageBytes type code sum rest data) hn

theorem icmpChecksum_buildPacket (type code : Byte) (rest : BitVec 32) (data : List Byte)
    (h : headerSize + data.length < 65536) :
    icmpChecksum (buildPacket type code rest data).byte
      (buildPacket type code rest data).length = 0 := by
  have hlen : (headerSize + data.length) % 65536 = headerSize + data.length := Nat.mod_eq_of_lt h
  simp only [headerSize] at h hlen
  simp only [icmpChecksum, buildPacket, hlen]
  rw [IpReceive.ipChecksum_eq_zero_iff_full h, wordSum_messageBytes _ _ _ _ _ (by omega)]
  set byte : Nat → Byte := fun i => (messageBytes type code 0 rest data).getD i 0
  have hle := NetChecksums.wordSum_le byte 0 (8 + data.length)
  have hfolds := NetChecksums.foldCarry_folds (n := wordSum byte 0 (8 + data.length)) (by omega)
  have hstored : (ipChecksum byte 0 (8 + data.length)).toNat =
      65535 - foldCarry 2 (wordSum byte 0 (8 + data.length)) := by
    have hlt := hfolds.lt
    rw [ipChecksum, BitVec.toNat_not, BitVec.toNat_ofNat]
    omega
  rw [hstored]
  exact hfolds.complement

/-! ### Echoes -/

theorem word32_buildPacket (type code : Byte) (rest : BitVec 32) (data : List Byte) :
    word32 (buildPacket type code rest data).byte 4 = rest := by
  show rest.extractLsb' 24 8 ++ rest.extractLsb' 16 8 ++ rest.extractLsb' 8 8 ++
    rest.extractLsb' 0 8 = rest
  apply BitVec.eq_of_getLsbD_eq
  intro i hi
  simp only [BitVec.getLsbD_append, BitVec.getLsbD_extractLsb']
  split_ifs <;> simp <;> grind

theorem data_buildPacket (type code : Byte) (rest : BitVec 32) (payload : List Byte)
    (h : headerSize + payload.length < 65536) :
    data (buildPacket type code rest payload) = payload := by
  have hlen : (buildPacket type code rest payload).length - headerSize = payload.length := by
    show (headerSize + payload.length) % 65536 - headerSize = _
    rw [Nat.mod_eq_of_lt h, Nat.add_sub_cancel_left]
  rw [data, hlen]
  apply List.ext_getElem
  · simp
  · intro i _ hi
    have hbyte : (buildPacket type code rest payload).byte (headerSize + i) = payload.getD i 0 := by
      rw [Nat.add_comm]
      rfl
    simp [hbyte, hi]

theorem data_length (p : Packet) : (data p).length = p.length - headerSize := by
  simp [data]

theorem echoes_buildPacket {p : Packet} (h : headerSize ≤ p.length) :
    Echoes p (buildPacket typeEchoReply 0 (identifier p ++ sequence p) (data p)) := by
  have hlt := p.length_lt
  have hlength : headerSize + (data p).length = p.length := by
    rw [data_length, Nat.add_sub_of_le h]
  have hbound : headerSize + (data p).length < 65536 := by rwa [hlength]
  have hvalid := icmpChecksum_buildPacket typeEchoReply 0 (identifier p ++ sequence p) (data p)
    hbound
  have hlen : (buildPacket typeEchoReply 0 (identifier p ++ sequence p) (data p)).length =
      p.length := by
    show (headerSize + (data p).length) % 65536 = _
    rw [hlength, Nat.mod_eq_of_lt hlt]
  refine ⟨hlen, rfl, rfl, ?_, ?_, data_buildPacket _ _ _ _ hbound,
    (icmpChecksum_eq_zero_iff _).mp hvalid, fun ipSendPacket s srcIp => ?_⟩
  · rw [identifier, word32_buildPacket]
    exact BitVec.extractLsb'_append_eq_left
  · rw [sequence, word32_buildPacket]
    exact BitVec.extractLsb'_append_eq_right
  · have htype : (buildPacket typeEchoReply 0 (identifier p ++ sequence p) (data p)).byte 0 ≠
        typeEchoRequest := fun heq => absurd heq (by decide : typeEchoReply ≠ typeEchoRequest)
    rw [icmpReceive, if_neg (by omega), if_neg (not_not.mpr hvalid), if_neg htype]

variable {s t : State} {ipSendPacket : Nat → Int}

theorem sendMessage_of_hands {data : List Byte} (hlen : headerSize + data.length < 65536)
    (hmem : Slab.Hands (headerSize + data.length) s.heap) (destIp : BitVec 32) (type code : Byte)
    (rest : BitVec 32) : Sends s ⟨destIp, buildPacket type code rest data⟩
      (ipSendPacket s.transmissions) (sendMessage ipSendPacket s destIp type code rest data) := by
  obtain ⟨p, heap, hreturns, hne⟩ := hmem
  refine ⟨{ s with
    heap
    transmissions := s.transmissions + 1
    sent := s.sent ++ [⟨destIp, buildPacket type code rest data⟩] }, ?_, rfl, rfl⟩
  rw [sendMessage, Nat.mod_eq_of_lt hlen, hreturns]
  exact if_neg hne

theorem icmpReceive_request {p : Packet} (hlen : headerSize ≤ p.length)
    (hsum : icmpChecksum p.byte p.length = 0) (htype : p.byte 0 = typeEchoRequest) (srcIp : BitVec 32) :
    icmpReceive ipSendPacket s srcIp p =
      sendMessage ipSendPacket s srcIp typeEchoReply 0 (identifier p ++ sequence p) (data p) := by
  rw [icmpReceive, if_neg hlen.not_gt, if_neg (not_not.mpr hsum), if_pos htype, icmpEchoReply]

/-- A request that no cache serves is not answered: the call does not come back, or it fails. -/
theorem not_sends_of_not_hands {data : List Byte} (hlen : headerSize + data.length < 65536)
    (hmem : ¬ Slab.Hands (headerSize + data.length) s.heap) (destIp : BitVec 32) (type code : Byte)
    (rest : BitVec 32) (message : Message) (ret : Int) :
    ¬ Sends s message ret (sendMessage ipSendPacket s destIp type code rest data) := by
  rintro ⟨t, hresult, -, hsent⟩
  rw [sendMessage, Nat.mod_eq_of_lt hlen] at hresult
  cases hreturns : Slab.kmallocReturns (headerSize + data.length) s.heap with
  | none =>
    rw [hreturns] at hresult
    cases hresult
  | some r =>
    have hzero : r.1 = 0 := by
      by_contra hne
      exact hmem ⟨r.1, r.2, hreturns, hne⟩
    rw [hreturns] at hresult
    simp only [Option.bind_eq_bind, Option.bind_some, hzero, if_true] at hresult
    cases hresult
    exact absurd hsent (Nat.ne_of_lt (Nat.lt_succ_self _))

/-- With memory available, a valid echo request is answered by exactly one message, its echo to the
sender, just if it is not longer than half a page or longer than a page. -/
theorem echo_request_echoed_iff {memory : MemoryWords.Memory} {w : Slab.Arena}
    (hheap : Relation.ReflTransGen (Slab.Call Slab.Served) (Slab.started memory) w)
    (hs : s.heap = w.state) (srcIp : BitVec 32) {p : Packet} (hlen : headerSize ≤ p.length)
    (hvalid : checksum (bytes p) = 0) (htype : p.byte 0 = typeEchoRequest)
    (hmem : Slab.Available p.length s.heap) :
    (∃ reply, Echoes p reply ∧ Sends s ⟨srcIp, reply⟩ (ipSendPacket s.transmissions)
        (icmpReceive ipSendPacket s srcIp p)) ↔ p.length ≤ 2048 ∨ 4096 < p.length := by
  obtain ⟨sh, hsettled⟩ := Slab.Settled.run hheap
  have hpos : p.length ≠ 0 := by
    simp only [headerSize] at hlen
    omega
  have hhands := hsettled.hands_iff hpos (hs ▸ hmem)
  rw [← hs] at hhands
  have hlength : headerSize + (data p).length = p.length := by rw [data_length, Nat.add_sub_of_le hlen]
  have hbound : headerSize + (data p).length < 65536 := by
    rw [hlength]
    exact p.length_lt
  rw [icmpReceive_request hlen ((icmpChecksum_eq_zero_iff p).mpr hvalid) htype, ← hhands, ← hlength]
  constructor
  · rintro ⟨reply, -, hsends⟩
    by_contra hno
    exact not_sends_of_not_hands hbound hno _ _ _ _ _ _ hsends
  · intro hmem
    exact ⟨_, echoes_buildPacket hlen, sendMessage_of_hands hbound hmem _ _ _ _⟩

def freshHost : State := { heap := (Slab.started fun _ => 0).state }

theorem freshHost_available {size : Nat} (h : size ≤ 4096) : Slab.Available size freshHost.heap := by
  rw [Slab.Available, if_pos h, freshHost, Slab.started, Slab.slabInit_heap]
  decide

theorem freshHost_hands {size : Nat} (hzero : size ≠ 0) (h : size ≤ 4096) :
    Slab.Hands size freshHost.heap ↔ size ≤ 2048 := by
  obtain ⟨sh, hsettled⟩ := Slab.settled_started fun _ => 0
  have hiff := hsettled.hands_iff hzero (freshHost_available h)
  rw [or_iff_left h.not_gt] at hiff
  exact hiff

def ping : Packet := buildPacket typeEchoRequest 0 0x00010002 [0x61, 0x62, 0x63]

theorem ping_echoed : ∃ reply, Echoes ping reply ∧ Sends freshHost ⟨0x0A000202, reply⟩ 0
    (icmpReceive (fun _ => 0) freshHost 0x0A000202 ping) := by
  have hmem : Slab.Available ping.length freshHost.heap := freshHost_available (by decide)
  exact (echo_request_echoed_iff (w := Slab.started fun _ => 0) .refl rfl 0x0A000202 (by decide)
    (by decide +kernel) rfl hmem).mpr (.inl (by decide))

def longPing : Packet := buildPacket typeEchoRequest 0 0x00010002 (List.replicate 2992 0x61)

theorem longPing_length : longPing.length = 3000 := by
  show (headerSize + (List.replicate 2992 0x61).length) % 65536 = 3000
  rw [List.length_replicate]
  rfl

/-- A valid request of 3000 bytes stops the first host with free memory that gets it. -/
theorem long_ping_not_echoed : checksum (bytes longPing) = 0 ∧ Slab.Available 3000 freshHost.heap ∧
    ¬ ∃ reply, Echoes longPing reply ∧ Sends freshHost ⟨0x0A000202, reply⟩ 0
      (icmpReceive (fun _ => 0) freshHost 0x0A000202 longPing) := by
  have hbound : headerSize + (List.replicate 2992 (0x61 : Byte)).length < 65536 := by
    rw [List.length_replicate]
    decide
  have hsum := icmpChecksum_buildPacket typeEchoRequest 0 0x00010002 _ hbound
  have hlength : headerSize + (data longPing).length = 3000 := by
    rw [data_length, longPing_length]
    rfl
  refine ⟨(icmpChecksum_eq_zero_iff longPing).mp hsum, freshHost_available (by decide), ?_⟩
  rintro ⟨reply, -, hsends⟩
  have hno : ¬ Slab.Hands 3000 freshHost.heap :=
    (freshHost_hands (by decide) (by decide)).not.mpr (by decide)
  have hlen : headerSize ≤ longPing.length := by
    rw [longPing_length]
    decide
  rw [icmpReceive_request hlen hsum rfl] at hsends
  rw [← hlength] at hno
  exact not_sends_of_not_hands (by rw [hlength]; decide) hno _ _ _ _ _ _ hsends

/-- A host that gets the echo request of another sends exactly its echo back, which ends the exchange. -/
theorem ping_exchange {ipSendPacket ipSendPacket' : Nat → Int} (payload : List Byte)
    (hlen : headerSize + payload.length < 65536) (hmem : Slab.Hands (headerSize + payload.length) s.heap)
    (hmem' : Slab.Hands (headerSize + payload.length) t.heap) (host peer : BitVec 32) (id seq : BitVec 16) :
    ∃ request reply,
      Sends s ⟨peer, request⟩ (ipSendPacket s.transmissions)
        (icmpEchoRequest ipSendPacket s peer id seq payload) ∧
      identifier request = id ∧ sequence request = seq ∧ data request = payload ∧
      Sends t ⟨host, reply⟩ (ipSendPacket' t.transmissions) (icmpReceive ipSendPacket' t host request) ∧
      Echoes request reply := by
  let request := buildPacket typeEchoRequest 0 (id ++ seq) payload
  have hlength : headerSize ≤ request.length := (Nat.le_add_right ..).trans_eq (Nat.mod_eq_of_lt hlen).symm
  have hsum := icmpChecksum_buildPacket typeEchoRequest 0 (id ++ seq) payload hlen
  have hdata : data request = payload := data_buildPacket _ _ _ _ hlen
  refine ⟨request, _, sendMessage_of_hands hlen hmem _ _ _ _, ?_, ?_, hdata, ?_,
    echoes_buildPacket hlength⟩
  · rw [identifier, word32_buildPacket]
    exact BitVec.extractLsb'_append_eq_left
  · rw [sequence, word32_buildPacket]
    exact BitVec.extractLsb'_append_eq_right
  · rw [icmpReceive_request hlength hsum rfl]
    rw [← hdata] at hlen hmem'
    exact sendMessage_of_hands hlen hmem' _ _ _ _

/-- The first host of an exchange has sent a message before. -/
def busyHost : State := { freshHost with transmissions := 1, sent := [⟨0x0A000203, ping⟩] }

theorem abc_ping_exchange : ∃ request reply,
    Sends busyHost ⟨0x0A000202, request⟩ 0
      (icmpEchoRequest (fun _ => 0) busyHost 0x0A000202 3 4 [0x61, 0x62, 0x63]) ∧
    identifier request = 3 ∧ sequence request = 4 ∧ data request = [0x61, 0x62, 0x63] ∧
    Sends freshHost ⟨0x0A00020F, reply⟩ (-1) (icmpReceive (fun _ => -1) freshHost 0x0A00020F request) ∧
    Echoes request reply := by
  have hmem : Slab.Hands (headerSize + [0x61, 0x62, 0x63].length) freshHost.heap :=
    (freshHost_hands (by decide) (by decide)).mpr (by decide)
  have hbusy : Slab.Hands (headerSize + [0x61, 0x62, 0x63].length) busyHost.heap := hmem
  exact ping_exchange [0x61, 0x62, 0x63] (by decide) hbusy hmem 0x0A00020F 0x0A000202 3 4

end TocinOS.Icmp

import TocinOS.Tcp

/-! The datagram sockets of `kernel/net/udp.c`: port allocation, binding, sending and
receiving. The heap and the IP layer answer every call in turn; the statistics and the
debug output are left out. -/

namespace TocinOS.Udp

open Tcp (Byte htons wordSum foldCarry bigEndian16)

abbrev headerSize : Nat := 8
abbrev maxSockets : Nat := 64
abbrev recvQueueSize : Nat := 16
abbrev maxPayload : Nat := 65507

structure Received where
  srcIp : BitVec 32
  srcPort : BitVec 16
  data : List Byte

structure Socket where
  inUse : Bool := false
  localPort : BitVec 16 := 0
  localIp : BitVec 32 := 0
  bound : Bool := false
  remoteIp : BitVec 32 := 0
  remotePort : BitVec 16 := 0
  connected : Bool := false
  recvQueue : List Received := []

structure Datagram where
  srcIp : BitVec 32
  destIp : BitVec 32
  bytes : List Byte

/-- Whether the n-th `kmalloc` and `ip_send_packet` succeed, for any reason. -/
structure Env where
  kmalloc : Nat → Bool
  ipSend : Nat → Bool

structure State where
  sockets : Nat → Socket
  nextEphemeralPort : BitVec 16 := 49152
  ipAddr : BitVec 32 := 0
  mallocs : Nat := 0
  transmissions : Nat := 0
  sent : List Datagram := []

def State.modify (s : State) (i : Nat) (f : Socket → Socket) : State :=
  { s with sockets := Function.update s.sockets i (f (s.sockets i)) }

def udpChecksum (srcIp destIp : BitVec 32) (byte : Nat → Byte) (length : Nat) : BitVec 16 :=
  let sum := srcIp.toNat / 65536 + srcIp.toNat % 65536
    + (destIp.toNat / 65536 + destIp.toNat % 65536)
    + htons 17 + htons length + wordSum byte 0 length
  let result := ~~~ BitVec.ofNat 16 (foldCarry 2 sum)
  if result = 0 then 0xFFFF else result

/-! ### Ports and sockets -/

def nextPort (port : BitVec 16) : BitVec 16 := if port + 1 = 0 then 49152 else port + 1

def portTaken (s : State) (port : BitVec 16) : Bool :=
  (List.range maxSockets).any fun i => (s.sockets i).inUse && (s.sockets i).localPort == port

def udpAllocPort : Nat → State → Option (BitVec 16 × State)
  | 0, _ => none
  | tries + 1, s =>
    let port := s.nextEphemeralPort
    let s := { s with nextEphemeralPort := nextPort port }
    if portTaken s port then udpAllocPort tries s else some (port, s)

def udpFindSocket (s : State) (localPort : BitVec 16) : Option Nat :=
  (List.range maxSockets).find? fun i =>
    (s.sockets i).inUse && (s.sockets i).bound && (s.sockets i).localPort == localPort

def State.bindTo (s : State) (i : Nat) (port : BitVec 16) : State :=
  s.modify i fun sock => { sock with localPort := port, localIp := s.ipAddr, bound := true }

/-- The value returned, 0 or -1, and the state. One port more than there are sockets is
enough for the search to end. -/
def udpBind (s : State) (sockfd : Int) (port : BitVec 16) : Int × State :=
  if sockfd < 0 ∨ sockfd ≥ maxSockets then (-1, s)
  else
    let i := sockfd.toNat
    if !(s.sockets i).inUse then (-1, s)
    else if port ≠ 0 then
      if (List.range maxSockets).any fun j => j != i && (s.sockets j).inUse
          && (s.sockets j).bound && (s.sockets j).localPort == port then (-1, s)
      else (0, s.bindTo i port)
    else
      match udpAllocPort (maxSockets + 1) s with
      | some (port, s) => (0, s.bindTo i port)
      | none => (-1, s)

/-- Both `udp_connect` and `udp_sendto` bind an unbound socket first. -/
def autoBind (s : State) (sockfd : Int) : Int × State :=
  if (s.sockets sockfd.toNat).bound then (0, s) else udpBind s sockfd 0

/-! ### Sending -/

/-- The packet as it lies in memory. The checksum is stored as the processor holds it. -/
def packetBytes (srcPort destPort checksum : BitVec 16) (data : List Byte) : List Byte :=
  bigEndian16 srcPort ++ bigEndian16 destPort
    ++ bigEndian16 (BitVec.ofNat 16 (headerSize + data.length))
    ++ [checksum.extractLsb' 0 8, checksum.extractLsb' 8 8] ++ data

def datagram (srcIp destIp : BitVec 32) (srcPort destPort : BitVec 16) (data : List Byte) :
    Datagram where
  srcIp := srcIp
  destIp := destIp
  bytes := packetBytes srcPort destPort
    (udpChecksum srcIp destIp (fun i => (packetBytes srcPort destPort 0 data).getD i 0)
      (headerSize + data.length)) data

/-- The value returned, the number of bytes or -1, and the state. -/
def udpSendto (env : Env) (s : State) (sockfd : Int) (data : List Byte) (destIp : BitVec 32)
    (destPort : BitVec 16) : Int × State :=
  if sockfd < 0 ∨ sockfd ≥ maxSockets then (-1, s)
  else if data.length = 0 ∨ data.length > maxPayload then (-1, s)
  else
    let i := sockfd.toNat
    if !(s.sockets i).inUse then (-1, s)
    else
      let (r, s) := autoBind s sockfd
      if r ≠ 0 then (-1, s)
      else
        let packet := env.kmalloc s.mallocs
        let s := { s with mallocs := s.mallocs + 1 }
        if !packet then (-1, s)
        else
          let sock := s.sockets i
          let d := datagram sock.localIp destIp sock.localPort destPort data
          if env.ipSend s.transmissions then
            (data.length, { s with transmissions := s.transmissions + 1, sent := s.sent ++ [d] })
          else (-1, { s with transmissions := s.transmissions + 1 })

/-! ### Receiving -/

def lengthField (p : Tcp.Packet) : Nat := (p.byte 4 ++ p.byte 5 : BitVec 16).toNat

def checksumField (p : Tcp.Packet) : BitVec 16 := p.byte 7 ++ p.byte 6

/-- The value returned, 0 or -1, and the state. -/
def udpReceive (env : Env) (s : State) (srcIp destIp : BitVec 32) (p : Tcp.Packet) :
    Int × State :=
  if p.length < headerSize then (-1, s)
  else if lengthField p < headerSize ∨ lengthField p > p.length then (-1, s)
  else if checksumField p ≠ 0 ∧ udpChecksum srcIp destIp p.byte (lengthField p) ≠ 0 then (-1, s)
  else
    match udpFindSocket s p.destPort with
    | none => (-1, s)
    | some i =>
      let sock := s.sockets i
      if sock.connected ∧ (sock.remoteIp ≠ srcIp ∨ sock.remotePort ≠ p.srcPort) then (0, s)
      else if sock.recvQueue.length ≥ recvQueueSize then (-1, s)
      else
        let dataLen := lengthField p - headerSize
        let pkt := env.kmalloc s.mallocs
        let s := { s with mallocs := s.mallocs + 1 }
        if !pkt then (-1, s)
        else
          let data := env.kmalloc s.mallocs
          let s := { s with mallocs := s.mallocs + 1 }
          if !data then (-1, s)
          else (0, s.modify i fun sock => { sock with recvQueue := sock.recvQueue ++
            [⟨srcIp, p.srcPort, (List.range dataLen).map fun k => p.byte (headerSize + k)⟩] })

/-! ### What is sent and what is received -/

theorem udpAllocPort_sent {tries : Nat} {s : State} {r : BitVec 16 × State}
    (h : udpAllocPort tries s = some r) : r.2.sent = s.sent := by
  induction tries generalizing s with
  | zero => cases h
  | succ tries ih =>
    simp only [udpAllocPort] at h
    split_ifs at h
    · have := ih h
      exact this
    · cases h
      rfl

theorem udpBind_sent (s : State) (sockfd : Int) (port : BitVec 16) :
    (udpBind s sockfd port).2.sent = s.sent := by
  simp only [udpBind]
  split_ifs
  · rfl
  · rfl
  · rfl
  · rfl
  · cases halloc : udpAllocPort (maxSockets + 1) s with
    | none => rfl
    | some r =>
      have hsent := udpAllocPort_sent halloc
      exact hsent

theorem autoBind_sent (s : State) (sockfd : Int) : (autoBind s sockfd).2.sent = s.sent := by
  unfold autoBind
  split_ifs
  · rfl
  · exact udpBind_sent s sockfd 0

theorem udpSendto_cases (env : Env) (s : State) (sockfd : Int) (data : List Byte)
    (destIp : BitVec 32) (destPort : BitVec 16) :
    (udpSendto env s sockfd data destIp destPort).1 = -1 ∧
        (udpSendto env s sockfd data destIp destPort).2.sent = s.sent ∨
      0 < data.length ∧ data.length ≤ maxPayload ∧ ∃ srcIp srcPort,
        (udpSendto env s sockfd data destIp destPort).1 = data.length ∧
        (udpSendto env s sockfd data destIp destPort).2.sent =
          s.sent ++ [datagram srcIp destIp srcPort destPort data] := by
  have hsent := autoBind_sent s sockfd
  simp only [udpSendto]
  generalize autoBind s sockfd = r at hsent ⊢
  split_ifs with hfd hlen
  · exact .inl ⟨rfl, rfl⟩
  · exact .inl ⟨rfl, rfl⟩
  · exact .inl ⟨rfl, rfl⟩
  · exact .inl ⟨rfl, hsent⟩
  · exact .inl ⟨rfl, hsent⟩
  · exact .inr ⟨by omega, by omega, _, _, rfl, congrArg (· ++ _) hsent⟩
  · exact .inl ⟨rfl, hsent⟩

theorem udpChecksum_ne_zero (srcIp destIp : BitVec 32) (byte : Nat → Byte) (length : Nat) :
    udpChecksum srcIp destIp byte length ≠ 0 := by
  unfold udpChecksum
  dsimp only
  split_ifs with h
  · decide
  · exact h

structure Carries (p : Tcp.Packet) (bytes : List Byte) : Prop where
  length : p.length = bytes.length
  byte : ∀ i < bytes.length, p.byte i = bytes.getD i 0

theorem append_extract (x : BitVec 16) :
    (x.extractLsb' 8 8 ++ x.extractLsb' 0 8 : BitVec 16) = x := by
  rw [BitVec.extractLsb'_append_extractLsb'_eq_extractLsb' (by rfl)]
  simp

section

variable {srcPort destPort checksum : BitVec 16} {data : List Byte} {p : Tcp.Packet}

@[simp] theorem packetBytes_length :
    (packetBytes srcPort destPort checksum data).length = 8 + data.length := by
  simp [packetBytes, bigEndian16]
  omega

variable (h : Carries p (packetBytes srcPort destPort checksum data))

include h

theorem Carries.header {i : Nat} (hi : i < headerSize) :
    p.byte i = (packetBytes srcPort destPort checksum data).getD i 0 := by
  refine h.byte i ?_
  rw [packetBytes_length]
  exact Nat.lt_add_right _ hi

theorem Carries.lengthField_eq (hlen : data.length ≤ maxPayload) :
    lengthField p = headerSize + data.length := by
  rw [lengthField, h.header (by decide), h.header (by decide)]
  refine (congrArg BitVec.toNat (append_extract _)).trans ?_
  simp only [maxPayload] at hlen
  rw [BitVec.toNat_ofNat, Nat.mod_eq_of_lt]
  simp only [headerSize]
  omega

theorem Carries.checksumField_eq : checksumField p = checksum := by
  rw [checksumField, h.header (by decide), h.header (by decide)]
  exact append_extract checksum

end

/-- Every datagram that `udp_sendto` sends is refused by `udp_receive`, which leaves all
sockets as they are. -/
theorem sent_datagram_refused (env : Env) (s : State) (sockfd : Int) (data : List Byte)
    (destIp : BitVec 32) (destPort : BitVec 16)
    (h : (udpSendto env s sockfd data destIp destPort).1 ≠ -1) :
    ∃ d, (udpSendto env s sockfd data destIp destPort).2.sent = s.sent ++ [d] ∧
      d.destIp = destIp ∧ ∀ (env' : Env) (t : State) (p : Tcp.Packet), Carries p d.bytes →
        udpReceive env' t d.srcIp d.destIp p = (-1, t) := by
  rcases udpSendto_cases env s sockfd data destIp destPort with
    ⟨hfail, -⟩ | ⟨-, hlen, srcIp, srcPort, -, hsent⟩
  · exact absurd hfail h
  refine ⟨_, hsent, rfl, fun env' t p hp => ?_⟩
  have hp' : Carries p (packetBytes srcPort destPort _ data) := hp
  have hlength : p.length = 8 + data.length := hp.length.trans packetBytes_length
  have hfield := hp'.lengthField_eq hlen
  have hstored := hp'.checksumField_eq
  unfold udpReceive
  rw [if_neg (by rw [hlength]; simp only [headerSize]; omega),
    if_neg (by rw [hlength, hfield]; simp only [headerSize]; omega), if_pos]
  rw [hstored]
  exact ⟨udpChecksum_ne_zero _ _ _ _, udpChecksum_ne_zero _ _ _ _⟩

def localSockets : State where
  sockets := fun i =>
    if i = 0 then { inUse := true, bound := true, localIp := 0x7F000001, localPort := 5000 }
    else if i = 1 then { inUse := true, bound := true, localIp := 0x7F000001, localPort := 53 }
    else {}

def plentyEnv : Env := ⟨fun _ => true, fun _ => true⟩

def localDatagram : Datagram := datagram 0x7F000001 0x7F000001 5000 53 [0x61]

def localPacket : Tcp.Packet where
  length := 9
  byte := fun k => localDatagram.bytes.getD k 0
  length_lt := by decide

theorem localSockets_send : udpSendto plentyEnv localSockets 0 [0x61] 0x7F000001 53 =
    (1, { localSockets with mallocs := 1, transmissions := 1, sent := [localDatagram] }) := rfl

theorem local_datagram_refused :
    udpReceive plentyEnv localSockets 0x7F000001 0x7F000001 localPacket = (-1, localSockets) := by
  obtain ⟨d, hsent, -, hrefused⟩ := sent_datagram_refused plentyEnv localSockets 0 [0x61]
    0x7F000001 53 (by rw [localSockets_send]; decide)
  rw [localSockets_send] at hsent
  obtain rfl : localDatagram = d := List.head_eq_of_cons_eq hsent
  exact hrefused plentyEnv localSockets localPacket ⟨rfl, fun _ _ => rfl⟩

/-- A datagram from port 5000 to the socket bound to port 53: it is sent, there is room and
memory for it, and it is not queued. -/
theorem local_datagram_lost :
    (udpSendto plentyEnv localSockets 0 [0x61] 0x7F000001 53).2.sent = [localDatagram] ∧
      udpFindSocket localSockets localPacket.destPort = some 1 ∧
      (localSockets.sockets 1).connected = false ∧ (localSockets.sockets 1).recvQueue = [] ∧
      (udpReceive plentyEnv localSockets localDatagram.srcIp localDatagram.destIp localPacket).1 =
        -1 ∧
      ((udpReceive plentyEnv localSockets localDatagram.srcIp localDatagram.destIp
        localPacket).2.sockets 1).recvQueue = [] := by
  have hcall : udpReceive plentyEnv localSockets localDatagram.srcIp localDatagram.destIp
      localPacket = (-1, localSockets) := by
    unfold udpReceive
    rw [if_neg (by decide), if_neg (by decide), if_pos (by decide)]
  rw [hcall, localSockets_send]
  exact ⟨rfl, by decide, rfl, rfl, rfl, rfl⟩

end TocinOS.Udp

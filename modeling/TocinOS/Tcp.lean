import TocinOS.RingBuffer

/-! The transport layer of `kernel/net/tcp.c`: the connection table, segment
transmission, the socket calls that move data, and the input state machine.
The heap, the IP layer and the timer are an environment that answers every call
in turn; the statistics and the debug output are left out. -/

namespace TocinOS.Tcp

open RingBuffer

abbrev Byte := BitVec 8

abbrev headerMinSize : Nat := 20
abbrev maxConnections : Nat := 64
abbrev bufferSize : Nat := 65536
abbrev mss : Nat := 1460
abbrev windowSize : BitVec 32 := 65535
abbrev timeWaitLength : BitVec 32 := 60000

def flagFin : Byte := 0x01
def flagSyn : Byte := 0x02
def flagRst : Byte := 0x04
def flagPsh : Byte := 0x08
def flagAck : Byte := 0x10

def has (flags mask : Byte) : Bool := flags &&& mask != 0

inductive TcpState where
  | closed
  | listen
  | synSent
  | synReceived
  | established
  | finWait1
  | finWait2
  | closeWait
  | closing
  | lastAck
  | timeWait
deriving DecidableEq

/-- A connection block. All fields zero is what `tcp_memset` leaves; of the
pending array only the first `pending_count` entries are kept. -/
structure Tcb where
  inUse : Bool := false
  state : TcpState := .closed
  localIp : BitVec 32 := 0
  localPort : BitVec 16 := 0
  remoteIp : BitVec 32 := 0
  remotePort : BitVec 16 := 0
  sndUna : BitVec 32 := 0
  sndNxt : BitVec 32 := 0
  sndWnd : BitVec 32 := 0
  rcvNxt : BitVec 32 := 0
  rcvWnd : BitVec 32 := 0
  iss : BitVec 32 := 0
  irs : BitVec 32 := 0
  recv : Buffer Byte := ⟨fun _ => 0, 0, 0, 0⟩
  send : Buffer Byte := ⟨fun _ => 0, 0, 0, 0⟩
  timeWaitStart : BitVec 32 := 0
  parentSocket : Int := 0
  backlog : Int := 0
  pendingConnections : List Nat := []

structure Segment where
  srcIp : BitVec 32
  destIp : BitVec 32
  srcPort : BitVec 16
  destPort : BitVec 16
  seq : BitVec 32
  ack : BitVec 32
  flags : Byte
  window : BitVec 16
  checksum : BitVec 16
  payload : List Byte

/-- What the rest of the kernel answers: the n-th `kmalloc` (any answers, so those `Slab.kmalloc`
gives by size and state too), whether the n-th `ip_send_packet` returns 0, and the n-th reading
of the timer. -/
structure Env where
  kmalloc : Nat → Bool
  ipSend : Nat → Bool
  ticks : Nat → BitVec 32

/-- The table, the sequence number generator, how many answers of the environment
are used up, and every segment the IP layer has taken so far. -/
structure State where
  connections : Nat → Tcb
  iss : BitVec 32 := 0x12345678
  mallocs : Nat := 0
  transmissions : Nat := 0
  readings : Nat := 0
  sent : List Segment := []

def State.modify (s : State) (i : Nat) (f : Tcb → Tcb) : State :=
  { s with connections := Function.update s.connections i (f (s.connections i)) }

def State.timerGetTicks (env : Env) (s : State) : BitVec 32 × State :=
  (env.ticks s.readings, { s with readings := s.readings + 1 })

def tcpGenerateIss (env : Env) (s : State) : BitVec 32 × State :=
  let (now, s) := s.timerGetTicks env
  (s.iss + (now + 64000), { s with iss := s.iss + (now + 64000) })

def seqLe (a b : BitVec 32) : Bool := (a - b).toInt ≤ 0

def seqGt (a b : BitVec 32) : Bool := 0 < (a - b).toInt

/-! ### Checksum -/

def htons (x : Nat) : Nat := x % 256 * 256 + x / 256 % 256

def wordSum (byte : Nat → Byte) (offset : Nat) : Nat → Nat
  | 0 => 0
  | 1 => (byte offset).toNat
  | n + 2 =>
    (byte offset).toNat + 256 * (byte (offset + 1)).toNat + wordSum byte (offset + 2) n

/-- `while (sum >> 16)`: a 32-bit sum is folded after at most two rounds. -/
def foldCarry : Nat → Nat → Nat
  | 0, sum => sum
  | rounds + 1, sum =>
    if sum / 65536 = 0 then sum else foldCarry rounds (sum % 65536 + sum / 65536)

theorem foldCarry_lt {sum : Nat} (h : sum < 2 ^ 32) : foldCarry 2 sum < 65536 := by
  simp only [foldCarry]
  split_ifs <;> omega

def tcpChecksum (srcIp destIp : BitVec 32) (byte : Nat → Byte) (length : Nat) : BitVec 16 :=
  let sum := srcIp.toNat / 65536 + srcIp.toNat % 65536
    + (destIp.toNat / 65536 + destIp.toNat % 65536)
    + htons 6 + htons length + wordSum byte 0 length
  ~~~ BitVec.ofNat 16 (foldCarry 2 sum)

def bigEndian16 (x : BitVec 16) : List Byte :=
  [x.extractLsb' 8 8, x.extractLsb' 0 8]

def bigEndian32 (x : BitVec 32) : List Byte :=
  [x.extractLsb' 24 8, x.extractLsb' 16 8, x.extractLsb' 8 8, x.extractLsb' 0 8]

def Segment.bytes (seg : Segment) : List Byte :=
  bigEndian16 seg.srcPort ++ bigEndian16 seg.destPort ++ bigEndian32 seg.seq
    ++ bigEndian32 seg.ack ++ [0x50, seg.flags] ++ bigEndian16 seg.window
    ++ [seg.checksum.extractLsb' 0 8, seg.checksum.extractLsb' 8 8] ++ [0, 0] ++ seg.payload

def Segment.withChecksum (seg : Segment) : Segment :=
  { seg with checksum :=
      tcpChecksum seg.srcIp seg.destIp (fun i => seg.bytes.getD i 0) seg.bytes.length }

/-! ### Segment transmission -/

def Tcb.segment (tcb : Tcb) (flags : Byte) (data : List Byte) : Segment :=
  Segment.withChecksum
    { srcIp := tcb.localIp, destIp := tcb.remoteIp
      srcPort := tcb.localPort, destPort := tcb.remotePort
      seq := tcb.sndNxt, ack := tcb.rcvNxt, flags
      window := tcb.rcvWnd.setWidth 16, checksum := 0, payload := data }

def Tcb.advanceSndNxt (tcb : Tcb) (flags : Byte) (length : Nat) : Tcb :=
  { tcb with sndNxt := tcb.sndNxt + BitVec.ofNat 32 length
      + (if has flags flagSyn then 1 else 0) + (if has flags flagFin then 1 else 0) }

def ipSendPacket (env : Env) (s : State) (seg : Segment) : Bool × State :=
  if env.ipSend s.transmissions then
    (true, { s with transmissions := s.transmissions + 1, sent := s.sent ++ [seg] })
  else (false, { s with transmissions := s.transmissions + 1 })

/-- Every caller ignores the value `tcp_send_segment` returns. -/
def tcpSendSegment (env : Env) (s : State) (i : Nat) (flags : Byte) (data : List Byte) : State :=
  let packet := env.kmalloc s.mallocs
  let s := { s with mallocs := s.mallocs + 1 }
  if !packet then s
  else
    match ipSendPacket env s ((s.connections i).segment flags data) with
    | (true, s) => s.modify i fun tcb => tcb.advanceSndNxt flags data.length
    | (false, s) => s

def tcpSendRst (env : Env) (s : State) (srcIp : BitVec 32) (srcPort : BitVec 16)
    (destIp : BitVec 32) (destPort : BitVec 16) (seq ack : BitVec 32) : State :=
  (ipSendPacket env s (Segment.withChecksum
    { srcIp, destIp, srcPort, destPort, seq, ack, flags := flagRst ||| flagAck
      window := 0, checksum := 0, payload := [] })).2

/-! ### Connection table -/

def tcpFindConnection (s : State) (localIp : BitVec 32) (localPort : BitVec 16)
    (remoteIp : BitVec 32) (remotePort : BitVec 16) : Option Nat :=
  let exact := fun i =>
    let tcb := s.connections i
    tcb.inUse && tcb.localPort == localPort && tcb.remotePort == remotePort
      && (tcb.localIp == localIp || tcb.localIp == 0) && tcb.remoteIp == remoteIp
  let listening := fun i =>
    let tcb := s.connections i
    tcb.inUse && tcb.state == .listen && tcb.localPort == localPort
      && (tcb.localIp == localIp || tcb.localIp == 0)
  (List.range maxConnections).find? exact <|> (List.range maxConnections).find? listening

def tcpAllocTcb (s : State) : Option (Nat × State) :=
  ((List.range maxConnections).find? fun i => !(s.connections i).inUse).map fun i =>
    (i, s.modify i fun _ => { inUse := true, rcvWnd := windowSize, parentSocket := -1 })

/-! ### Socket calls -/

/-- The loop that cuts the send buffer into segments. Each round takes at least
one byte, so as many rounds as there are bytes are enough. -/
def sendLoop (env : Env) (i : Nat) : Nat → State → State
  | 0, s => s
  | rounds + 1, s =>
    let tcb := s.connections i
    if tcb.send.count = 0 then s
    else
      let segLen := if tcb.send.count > mss then mss else tcb.send.count
      let (segData, ring) := tcb.send.pop bufferSize segLen
      sendLoop env i rounds
        (tcpSendSegment env (s.modify i fun tcb => { tcb with send := ring }) i
          (flagAck ||| flagPsh) segData)

/-- The number of bytes accepted, or none where the call returns -1. -/
def tcpWrite (env : Env) (s : State) (sockfd : Int) (data : List Byte) : Option Nat × State :=
  if sockfd < 0 ∨ sockfd ≥ maxConnections then (none, s)
  else if data.length = 0 then (none, s)
  else
    let i := sockfd.toNat
    let tcb := s.connections i
    if !tcb.inUse || tcb.state != .established then (none, s)
    else
      let space := bufferSize - tcb.send.count
      let toSend := if data.length < space then data.length else space
      let s := s.modify i fun tcb =>
        { tcb with send := tcb.send.push bufferSize (data.take toSend) }
      (some toSend, sendLoop env i (s.connections i).send.count s)

/-- The bytes copied to the caller, or none where the call returns -1. -/
def tcpRead (s : State) (sockfd : Int) (maxLength : Nat) : Option (List Byte) × State :=
  if sockfd < 0 ∨ sockfd ≥ maxConnections then (none, s)
  else if maxLength = 0 then (none, s)
  else
    let i := sockfd.toNat
    let tcb := s.connections i
    if !tcb.inUse then (none, s)
    else if tcb.state ≠ .established ∧ tcb.state ≠ .finWait1 ∧ tcb.state ≠ .finWait2
        ∧ tcb.state ≠ .closeWait ∧ tcb.recv.count = 0 then (none, s)
    else
      let toRead := if tcb.recv.count < maxLength then tcb.recv.count else maxLength
      let (bytes, ring) := tcb.recv.pop bufferSize toRead
      (some bytes, s.modify i fun tcb =>
        { tcb with recv := ring, rcvWnd := BitVec.ofNat 32 (bufferSize - ring.count) })

def tcpCloseSocket (env : Env) (s : State) (sockfd : Int) : State :=
  if sockfd < 0 ∨ sockfd ≥ maxConnections then s
  else
    let i := sockfd.toNat
    if !(s.connections i).inUse then s
    else
      match (s.connections i).state with
      | .closed | .synSent => s.modify i fun _ => {}
      | .synReceived | .established =>
        (tcpSendSegment env s i (flagFin ||| flagAck) []).modify i fun tcb =>
          { tcb with state := .finWait1 }
      | .closeWait =>
        (tcpSendSegment env s i (flagFin ||| flagAck) []).modify i fun tcb =>
          { tcb with state := .lastAck }
      | .listen | .finWait1 | .finWait2 | .closing | .lastAck | .timeWait => s

/-! ### Input processing -/

/-- The buffer given to `tcp_receive`. Bytes at and past the length are whatever
the memory behind the packet holds. -/
structure Packet where
  length : Nat
  byte : Nat → Byte
  length_lt : length < 65536

namespace Packet

def srcPort (p : Packet) : BitVec 16 := p.byte 0 ++ p.byte 1

def destPort (p : Packet) : BitVec 16 := p.byte 2 ++ p.byte 3

def seq (p : Packet) : BitVec 32 := p.byte 4 ++ p.byte 5 ++ p.byte 6 ++ p.byte 7

def ack (p : Packet) : BitVec 32 := p.byte 8 ++ p.byte 9 ++ p.byte 10 ++ p.byte 11

def headerLen (p : Packet) : Nat := (p.byte 12).toNat / 16 * 4

def flags (p : Packet) : Byte := p.byte 13

def window (p : Packet) : BitVec 16 := p.byte 14 ++ p.byte 15

/-- `length - header_len` in 16 bits, which wraps for a header longer than the packet. -/
def dataLen (p : Packet) : Nat :=
  if p.headerLen ≤ p.length then p.length - p.headerLen else p.length + 65536 - p.headerLen

def data (p : Packet) (n : Nat) : List Byte :=
  (List.range n).map fun i => p.byte (p.headerLen + i)

end Packet

def Tcb.takeAck (tcb : Tcb) (p : Packet) : Tcb :=
  if has p.flags flagAck && seqLe tcb.sndUna p.ack && seqLe p.ack tcb.sndNxt then
    { tcb with sndUna := p.ack }
  else tcb

def Tcb.copySize (tcb : Tcb) (p : Packet) : Nat :=
  let space := bufferSize - tcb.recv.count
  if p.dataLen < space then p.dataLen else space

def Tcb.store (tcb : Tcb) (block : List Byte) : Tcb :=
  let ring := tcb.recv.push bufferSize block
  { tcb with
    recv := ring
    rcvNxt := tcb.rcvNxt + BitVec.ofNat 32 block.length
    rcvWnd := BitVec.ofNat 32 (bufferSize - ring.count) }

def processData (env : Env) (s : State) (i : Nat) (p : Packet) : State :=
  if 0 < p.dataLen ∧ p.seq = (s.connections i).rcvNxt then
    tcpSendSegment env (s.modify i fun tcb => tcb.store (p.data (tcb.copySize p))) i flagAck []
  else s

def processFin (env : Env) (s : State) (i : Nat) (p : Packet) : State :=
  if has p.flags flagFin then
    tcpSendSegment env
      (s.modify i fun tcb => { tcb with rcvNxt := p.seq + 1, state := .closeWait }) i flagAck []
  else s

def receiveEstablished (env : Env) (s : State) (i : Nat) (p : Packet) : State :=
  if has p.flags flagRst then s.modify i fun tcb => { tcb with state := .closed }
  else processFin env (processData env (s.modify i fun tcb => tcb.takeAck p) i p) i p

def receiveListen (env : Env) (s : State) (i : Nat) (srcIp destIp : BitVec 32)
    (p : Packet) : State :=
  if !has p.flags flagSyn then s
  else
    match tcpAllocTcb s with
    | none => s
    | some (j, s) =>
      let recvBuffer := env.kmalloc s.mallocs
      let sendBuffer := env.kmalloc (s.mallocs + 1)
      let s := { s with mallocs := s.mallocs + 2 }
      if !recvBuffer || !sendBuffer then s.modify j fun tcb => { tcb with inUse := false }
      else
        let (iss, s) := tcpGenerateIss env s
        let s := s.modify j fun tcb =>
          { tcb with
            localIp := destIp, localPort := p.destPort, remoteIp := srcIp, remotePort := p.srcPort
            parentSocket := i, irs := p.seq, rcvNxt := p.seq + 1
            iss, sndUna := iss, sndNxt := iss, sndWnd := p.window.setWidth 32
            state := .synReceived }
        let s := tcpSendSegment env s j (flagSyn ||| flagAck) []
        s.modify i fun tcb =>
          if (tcb.pendingConnections.length : Int) < tcb.backlog then
            { tcb with pendingConnections := tcb.pendingConnections ++ [j] }
          else tcb

def receiveSynSent (env : Env) (s : State) (i : Nat) (srcIp destIp : BitVec 32)
    (p : Packet) : State :=
  let tcb := s.connections i
  if has p.flags flagAck && (seqLe p.ack tcb.iss || seqGt p.ack tcb.sndNxt) then
    if has p.flags flagRst then s
    else tcpSendRst env s destIp p.destPort srcIp p.srcPort p.ack 0
  else if has p.flags flagRst then s.modify i fun tcb => { tcb with state := .closed }
  else if has p.flags flagSyn then
    let s := s.modify i fun tcb =>
      { tcb with
        irs := p.seq, rcvNxt := p.seq + 1, sndWnd := p.window.setWidth 32
        sndUna := if has p.flags flagAck then p.ack else tcb.sndUna }
    if seqGt (s.connections i).sndUna (s.connections i).iss then
      tcpSendSegment env (s.modify i fun tcb => { tcb with state := .established }) i flagAck []
    else
      tcpSendSegment env (s.modify i fun tcb => { tcb with state := .synReceived }) i
        (flagSyn ||| flagAck) []
  else s

def receiveSynReceived (s : State) (i : Nat) (p : Packet) : State :=
  let tcb := s.connections i
  if has p.flags flagRst then s.modify i fun tcb => { tcb with state := .closed }
  else if has p.flags flagAck && seqLe tcb.sndUna p.ack && seqLe p.ack tcb.sndNxt then
    s.modify i fun tcb => { tcb with state := .established, sndUna := p.ack }
  else s

def enterTimeWait (env : Env) (s : State) (i : Nat) : State :=
  let (now, s) := s.timerGetTicks env
  s.modify i fun tcb => { tcb with state := .timeWait, timeWaitStart := now }

def takeFin (env : Env) (s : State) (i : Nat) (p : Packet) : State :=
  tcpSendSegment env (s.modify i fun tcb => { tcb with rcvNxt := p.seq + 1 }) i flagAck []

def receiveFinWait1 (env : Env) (s : State) (i : Nat) (p : Packet) : State :=
  let acked := has p.flags flagAck && p.ack == (s.connections i).sndNxt
  let s := if acked then s.modify i fun tcb => { tcb with state := .finWait2 } else s
  if has p.flags flagFin then
    let s := takeFin env s i p
    if acked then enterTimeWait env s i
    else s.modify i fun tcb => { tcb with state := .closing }
  else s

def receiveFinWait2 (env : Env) (s : State) (i : Nat) (p : Packet) : State :=
  if has p.flags flagFin then enterTimeWait env (takeFin env s i p) i else s

def receiveTimeWait (env : Env) (s : State) (i : Nat) : State :=
  let (now, s) := s.timerGetTicks env
  if timeWaitLength < now - (s.connections i).timeWaitStart then s.modify i fun _ => {} else s

def stateMachine (env : Env) (s : State) (i : Nat) (srcIp destIp : BitVec 32)
    (p : Packet) : State :=
  match (s.connections i).state with
  | .closed =>
    if has p.flags flagRst then s
    else tcpSendRst env s destIp p.destPort srcIp p.srcPort p.ack (p.seq + 1)
  | .listen => receiveListen env s i srcIp destIp p
  | .synSent => receiveSynSent env s i srcIp destIp p
  | .synReceived => receiveSynReceived s i p
  | .established => receiveEstablished env s i p
  | .finWait1 => receiveFinWait1 env s i p
  | .finWait2 => receiveFinWait2 env s i p
  | .closeWait => s
  | .closing => if has p.flags flagAck then enterTimeWait env s i else s
  | .lastAck => if has p.flags flagAck then s.modify i fun _ => {} else s
  | .timeWait => receiveTimeWait env s i

/-- Whether the call returns 0, and the state it leaves. -/
def tcpReceive (env : Env) (s : State) (srcIp destIp : BitVec 32) (p : Packet) : Bool × State :=
  if p.length < headerMinSize then (false, s)
  else if tcpChecksum srcIp destIp p.byte p.length ≠ 0 then (false, s)
  else
    match tcpFindConnection s destIp p.destPort srcIp p.srcPort with
    | none =>
      if has p.flags flagRst then (false, s)
      else (false, tcpSendRst env s destIp p.destPort srcIp p.srcPort p.ack (p.seq + 1))
    | some i => (true, stateMachine env s i srcIp destIp p)

end TocinOS.Tcp

import TocinOS.TcpReceive

/-! Runs of one connection: segments of the peer in any order, `tcp_read` calls and
closing. What `tcp_read` returns is always a prefix of the peer's stream; that
`rcv_nxt` never steps back and that CLOSE-WAIT comes last needs every FIN to keep
order. -/

namespace TocinOS.Tcp

open RingBuffer

/-! ### Reading and closing -/

theorem tcpRead_cases (s : State) (sockfd : Int) (maxLength : Nat) :
    tcpRead s sockfd maxLength = (none, s) ∨
      0 ≤ sockfd ∧ ∃ size ≤ (s.connections sockfd.toNat).recv.count, ∃ window,
        tcpRead s sockfd maxLength =
          (some ((s.connections sockfd.toNat).recv.pop bufferSize size).1,
            s.modify sockfd.toNat fun tcb =>
              { tcb with
                recv := ((s.connections sockfd.toNat).recv.pop bufferSize size).2
                rcvWnd := window }) := by
  simp only [tcpRead, ite_lt_eq_min]
  split_ifs with hrange
  case neg => exact .inr ⟨by omega, _, Nat.min_le_left _ _, _, rfl⟩
  all_goals exact .inl rfl

variable {s : State} {out : List Byte}

theorem tcpRead_of_ne {i : Nat} {sockfd : Int} (h : sockfd ≠ i) (maxLength : Nat) :
    (tcpRead s sockfd maxLength).2.connections i = s.connections i := by
  rcases tcpRead_cases s sockfd maxLength with hcall | ⟨hpos, size, -, window, hcall⟩
  · rw [hcall]
  · have hne : i ≠ sockfd.toNat := by omega
    simp only [hcall, modify_connections_of_ne s _ hne]

theorem Inv.tcpRead {peer : Peer} {i : Nat} (h : Inv peer (s.connections i) out) (maxLength : Nat) :
    Inv peer ((tcpRead s i maxLength).2.connections i)
        (out ++ (tcpRead s i maxLength).1.getD []) ∧
      ((tcpRead s i maxLength).2.connections i).rcvNxt = (s.connections i).rcvNxt := by
  rcases tcpRead_cases s i maxLength with hcall | ⟨-, size, hsize, window, hcall⟩
  · rw [hcall]
    exact ⟨by simpa using h, rfl⟩
  · rw [Int.toNat_natCast] at hsize hcall
    rw [hcall]
    simp only [modify_connections_self, Option.getD_some, and_true]
    obtain ⟨q, hholds, hq⟩ := h.queue
    obtain ⟨hbytes, hrest⟩ := hholds.pop (hholds.count_eq ▸ hsize)
    have hcount : (out ++ q.take size).length + (q.drop size).length = out.length + q.length := by
      rw [List.length_append, Nat.add_assoc, ← List.length_append, List.take_append_drop]
    have haccepted : (out ++ q.take size).length +
        ((s.connections i).recv.pop bufferSize size).2.count =
          out.length + (s.connections i).recv.count := by
      rw [hrest.count_eq, hcount, hholds.count_eq]
    rw [hbytes]
    constructor
    · refine ⟨q.drop size, hrest, ?_⟩
      rw [hcount, List.append_assoc, List.take_append_drop, hq]
    · simpa only [haccepted] using h.within
    · simpa only [haccepted] using h.next
    · exact h.synchronized
    · simpa only [haccepted] using h.complete

theorem tcpCloseSocket_of_ne (env : Env) {i : Nat} {sockfd : Int} (h : sockfd ≠ i) :
    (tcpCloseSocket env s sockfd).connections i = s.connections i := by
  simp only [tcpCloseSocket]
  split_ifs with hrange
  · rfl
  · rfl
  · have hne : i ≠ sockfd.toNat := by omega
    split <;> simp [hne]

theorem Inv.tcpCloseSocket {peer : Peer} {i : Nat} (h : Inv peer (s.connections i) out)
    (env : Env) :
    SegmentStep peer (s.connections i) ((tcpCloseSocket env s i).connections i) out := by
  have hsame := SegmentStep.unchanged h
  simp only [Tcp.tcpCloseSocket, Int.toNat_natCast]
  split_ifs
  · exact hsame
  · exact hsame
  · split <;> rename_i hstate
    · exact SegmentStep.released (by simp)
    · exact SegmentStep.released (by simp)
    · apply SegmentStep.of_change h <;> simp [TcpState.receives, hstate]
    · apply SegmentStep.of_change h <;> simp [TcpState.receives, hstate]
    · apply SegmentStep.of_change h <;> simp [TcpState.receives]
    all_goals exact hsame

/-! ### Runs -/

/-- A checksum-valid segment with a header between 20 bytes and its own length. If it
is for connection `i`, its data and its FIN belong to the peer's stream. -/
structure Arrival (peer : Peer) (i : Nat) (s : State) (out : List Byte)
    (srcIp destIp : BitVec 32) (p : Packet) : Prop where
  header : headerMinSize ≤ p.headerLen ∧ p.headerLen ≤ p.length
  checksum : tcpChecksum srcIp destIp p.byte p.length = 0
  placed : tcpFindConnection s destIp p.destPort srcIp p.srcPort = some i →
    0 < p.dataLen ∨ has p.flags flagFin = true → ∃ offset,
      Placed peer (s.connections i).irs p offset ∧
        Near offset (out.length + (s.connections i).recv.count)

/-- One call while connection `i` is in use. The list holds all that `tcp_read` has
returned on it; `ok` restricts the segments that reach it. -/
inductive Step (env : Env) (peer : Peer) (i : Nat) (ok : Tcb → Packet → Prop) :
    State × List Byte → State × List Byte → Prop
  | receive {s : State} {out : List Byte} {srcIp destIp : BitVec 32} {p : Packet}
      (hopen : (s.connections i).inUse = true) (harrival : Arrival peer i s out srcIp destIp p)
      (hok : tcpFindConnection s destIp p.destPort srcIp p.srcPort = some i →
        ok (s.connections i) p) :
      Step env peer i ok (s, out) ((tcpReceive env s srcIp destIp p).2, out)
  | read {s : State} {out : List Byte} (sockfd : Int) (maxLength : Nat)
      (hopen : (s.connections i).inUse = true) :
      Step env peer i ok (s, out) ((tcpRead s sockfd maxLength).2,
        out ++ if sockfd = i then (tcpRead s sockfd maxLength).1.getD [] else [])
  | close {s : State} {out : List Byte} (sockfd : Int)
      (hopen : (s.connections i).inUse = true) :
      Step env peer i ok (s, out) (tcpCloseSocket env s sockfd, out)

structure Start (s : State) (i : Nat) : Prop where
  inUse : (s.connections i).inUse = true
  state : (s.connections i).state = .synReceived ∨ (s.connections i).state = .established
  next : (s.connections i).rcvNxt = (s.connections i).irs + 1
  empty : Holds bufferSize (s.connections i).recv []

theorem Start.inv {i : Nat} (h : Start s i) (peer : Peer) : Inv peer (s.connections i) [] := by
  have hcount : (s.connections i).recv.count = 0 := h.empty.count_eq
  constructor
  · exact ⟨[], h.empty, rfl⟩
  · simp [hcount]
  · intro _
    rw [h.next, hcount]
    exact (BitVec.add_zero _).symm
  all_goals rcases h.state with hstate | hstate <;> simp [hstate]

/-- Holds in every state of a run; a released connection keeps only its output. -/
structure RunInv (peer : Peer) (i : Nat) (s : State) (out : List Byte) : Prop where
  returned : out = peer.first out.length
  inv : (s.connections i).inUse = true → Inv peer (s.connections i) out

theorem RunInv.of_inv {peer : Peer} {i : Nat} (h : Inv peer (s.connections i) out) :
    RunInv peer i s out := by
  obtain ⟨q, -, hq⟩ := h.queue
  exact ⟨peer.eq_first_of_append hq, fun _ => h⟩

/-- A segment runs the state machine of the connection it is for, or is answered at most
by a reset. -/
theorem tcpReceive_cases (env : Env) (s : State) (srcIp destIp : BitVec 32) (p : Packet) :
    (tcpReceive env s srcIp destIp p).2.connections = s.connections ∨
      ∃ j, tcpFindConnection s destIp p.destPort srcIp p.srcPort = some j ∧
        (tcpReceive env s srcIp destIp p).2 = stateMachine env s j srcIp destIp p := by
  unfold tcpReceive
  cases tcpFindConnection s destIp p.destPort srcIp p.srcPort with
  | none =>
    left
    split_ifs
    · rfl
    · rfl
    · rfl
    · exact tcpSendRst_connections ..
  | some j =>
    dsimp only
    split_ifs
    · exact .inl rfl
    · exact .inl rfl
    · exact .inr ⟨j, rfl, rfl⟩

variable {env : Env} {peer : Peer} {i : Nat}

theorem tcpReceive_step (env : Env) {srcIp destIp : BitVec 32} {p : Packet}
    (h : Inv peer (s.connections i) out) (hopen : (s.connections i).inUse = true)
    (harrival : Arrival peer i s out srcIp destIp p)
    (hok : tcpFindConnection s destIp p.destPort srcIp p.srcPort = some i →
      FinAllowed (s.connections i) p) :
    SegmentStep peer (s.connections i) ((tcpReceive env s srcIp destIp p).2.connections i) out := by
  have hsame := SegmentStep.unchanged h
  rcases tcpReceive_cases env s srcIp destIp p with hcall | ⟨j, hfind, hcall⟩
  · rw [hcall]
    exact hsame
  · rw [hcall]
    by_cases hij : i = j
    · subst hij
      exact h.stateMachine env srcIp destIp (harrival.placed hfind) (hok hfind)
    · rw [stateMachine_of_ne env hij hopen]
      exact hsame

theorem RunInv.step {s' : State} {out' : List Byte} (h : RunInv peer i s out)
    (hstep : Step env peer i FinAllowed (s, out) (s', out')) :
    RunInv peer i s' out' ∧ ((s'.connections i).inUse = true →
      seqLe (s.connections i).rcvNxt (s'.connections i).rcvNxt = true) := by
  cases hstep with
  | receive hopen harrival hok =>
    have hseg := tcpReceive_step env (h.inv hopen) hopen harrival hok
    exact ⟨⟨h.returned, hseg.inv⟩, hseg.forward⟩
  | read sockfd maxLength hopen =>
    by_cases hsock : sockfd = i
    · subst hsock
      obtain ⟨hinv, hnxt⟩ := (h.inv hopen).tcpRead maxLength
      rw [if_pos rfl, hnxt]
      exact ⟨RunInv.of_inv hinv, fun _ => seqLe_self _⟩
    · rw [if_neg hsock, List.append_nil]
      rw [tcpRead_of_ne hsock]
      refine ⟨⟨h.returned, ?_⟩, fun _ => seqLe_self _⟩
      rw [tcpRead_of_ne hsock]
      exact h.inv
  | close sockfd hopen =>
    by_cases hsock : sockfd = i
    · subst hsock
      have hclosed := (h.inv hopen).tcpCloseSocket env
      exact ⟨⟨h.returned, hclosed.inv⟩, hclosed.forward⟩
    · rw [tcpCloseSocket_of_ne env hsock]
      refine ⟨⟨h.returned, ?_⟩, fun _ => seqLe_self _⟩
      rw [tcpCloseSocket_of_ne env hsock]
      exact h.inv

theorem RunInv.run {s₀ : State} (hstart : Start s₀ i)
    (hrun : Relation.ReflTransGen (Step env peer i FinAllowed) (s₀, []) (s, out)) :
    RunInv peer i s out := by
  generalize hc : (s, out) = c at hrun
  induction hrun generalizing s out with
  | refl =>
    cases hc
    exact RunInv.of_inv (hstart.inv peer)
  | @tail b c _ hstep ih =>
    subst hc
    exact ((ih rfl).step hstep).1

structure InSequence (env : Env) (peer : Peer) (i : Nat) (s : State) (out : List Byte) :
    Prop where
  returned : out = peer.first out.length
  complete : (s.connections i).inUse = true → (s.connections i).state = .closeWait →
    ∃ n, peer.length = some n ∧ n ≤ out.length + (s.connections i).recv.count
  forward : ∀ s' out', Step env peer i FinAllowed (s, out) (s', out') →
    (s'.connections i).inUse = true →
      seqLe (s.connections i).rcvNxt (s'.connections i).rcvNxt = true
  /-- Nor does it move back inside a call, between the data step and the FIN step. -/
  within : ∀ srcIp destIp p, (s.connections i).inUse = true →
    (s.connections i).state = .established → Arrival peer i s out srcIp destIp p →
    tcpFindConnection s destIp p.destPort srcIp p.srcPort = some i →
    FinAllowed (s.connections i) p → has p.flags flagRst = false →
      seqLe (s.connections i).rcvNxt (afterData env s i p).rcvNxt = true ∧
        seqLe (afterData env s i p).rcvNxt
          ((receiveEstablished env s i p).connections i).rcvNxt = true

/-- In every run whose FIN segments keep order the bytes read are a prefix of the peer's
stream, `rcv_nxt` never moves back, and CLOSE-WAIT comes after the last byte. -/
theorem allowed_runs_in_sequence {s₀ s : State} {out : List Byte} (hstart : Start s₀ i)
    (hrun : Relation.ReflTransGen (Step env peer i FinAllowed) (s₀, []) (s, out)) :
    InSequence env peer i s out := by
  have h := RunInv.run hstart hrun
  constructor
  · exact h.returned
  · intro hopen hclose
    exact ⟨_, (h.inv hopen).complete hclose, le_rfl⟩
  · intro s' out' hstep
    exact (h.step hstep).2
  · intro srcIp destIp p hopen hstate harrival hfind hallowed hrst
    have hinv := h.inv hopen
    have hplaced := harrival.placed hfind
    have hdata := hinv.afterData hstate env fun hpos => hplaced (.inl hpos)
    refine ⟨hdata.forward (hinv.next (by rw [hstate]; rfl)), ?_⟩
    cases hfin : has p.flags flagFin with
    | false =>
      rw [receiveEstablished_of_data env hrst hfin]
      exact seqLe_self _
    | true =>
      obtain ⟨offset, hp, hnear⟩ := hplaced (.inr hfin)
      obtain ⟨nxt, hclosed⟩ := receiveEstablished_of_fin env hrst hfin
      rw [hclosed]
      exact ((hinv.finAllowed_iff hstate env hp hnear hfin hrst).mp hallowed).2

/-! ### Concrete runs -/

def acceptedState : State where
  connections := fun i =>
    if i = 0 then
      { inUse := true, state := .established, localIp := 1, localPort := 80
        remoteIp := 2, remotePort := 1000, rcvNxt := 1 }
    else {}

theorem acceptedState_start : Start acceptedState 0 where
  inUse := rfl
  state := .inr rfl
  next := rfl
  empty := holds_empty (by decide) _

def oneByte : Peer := ⟨fun _ => 0x61, some 1⟩

def peerSegment (seq : BitVec 32) (flags : Byte) (data : List Byte) : Segment :=
  Tcb.segment { localIp := 2, localPort := 1000, remoteIp := 1, remotePort := 80, sndNxt := seq }
    flags data

def dataPacket : Packet where
  length := 21
  byte := fun k => (peerSegment 1 flagAck [0x61]).bytes.getD k 0
  length_lt := by decide

def finPacket : Packet where
  length := 20
  byte := fun k => (peerSegment 2 (flagFin ||| flagAck) []).bytes.getD k 0
  length_lt := by decide

theorem dataPacket_placed : Placed oneByte 0 dataPacket 0 where
  seq := by decide
  data := by decide
  within := by
    intro n hn
    obtain rfl := Option.some_inj.mp hn
    decide
  fin := by decide

theorem finPacket_placed : Placed oneByte 0 finPacket 1 where
  seq := by decide
  data := by decide
  within := by
    intro n hn
    obtain rfl := Option.some_inj.mp hn
    decide
  fin := by decide

def dataState : State := (tcpReceive reliableEnv acceptedState 2 1 dataPacket).2

def readState : State := (tcpRead dataState 0 10).2

def closedState : State := (tcpReceive reliableEnv readState 2 1 finPacket).2

theorem closedState_in_sequence :
    (closedState.connections 0).state = .closeWait ∧
      InSequence reliableEnv oneByte 0 closedState [0x61] := by
  refine ⟨by decide, allowed_runs_in_sequence acceptedState_start ?_⟩
  have hdata : Step reliableEnv oneByte 0 FinAllowed (acceptedState, []) (dataState, []) := by
    apply Step.receive rfl
    · exact ⟨by decide, by decide, fun _ _ => ⟨0, dataPacket_placed, by decide, by decide⟩⟩
    · intro _ hfin
      exact absurd hfin (by decide)
  have hread : Step reliableEnv oneByte 0 FinAllowed (dataState, []) (readState, [0x61]) :=
    Step.read 0 10 (by decide)
  have hfin : Step reliableEnv oneByte 0 FinAllowed (readState, [0x61]) (closedState, [0x61]) := by
    apply Step.receive (by decide)
    · exact ⟨by decide, by decide, fun _ _ => ⟨1, finPacket_placed, by decide, by decide⟩⟩
    · intro _ _
      exact ⟨fun _ _ => .inl (by decide), fun hwait => absurd hwait (by decide)⟩
  exact ((Relation.ReflTransGen.single hdata).tail hread).tail hfin

/-- The FIN overtakes the only data segment: the connection goes to CLOSE-WAIT, and later
segments are ignored there, although the byte before the FIN was never accepted. -/
theorem early_fin_loses_byte :
    Start acceptedState 0 ∧ ∃ s out,
      Relation.ReflTransGen (Step reliableEnv oneByte 0 fun _ _ => True)
        (acceptedState, []) (s, out) ∧
      (s.connections 0).state = .closeWait ∧ oneByte.length = some 1 ∧
      out.length + (s.connections 0).recv.count = 0 := by
  refine ⟨acceptedState_start, (tcpReceive reliableEnv acceptedState 2 1 finPacket).2, [], ?_, ?_⟩
  · apply Relation.ReflTransGen.single
    apply Step.receive rfl
    · exact ⟨by decide, by decide, fun _ _ => ⟨1, finPacket_placed, by decide, by decide⟩⟩
    · exact fun _ => trivial
  · decide

end TocinOS.Tcp

import TocinOS.TcpRuns

/-! Segments outside the receive window. The state machine looks at the sequence
number of data only, so which of them it ignores is decided by their flags. -/

namespace TocinOS.Tcp

def OutsideWindow (tcb : Tcb) (p : Packet) : Prop :=
  tcb.rcvWnd.toNat ≤ (p.seq - tcb.rcvNxt).toNat

def TcpState.synchronised : TcpState → Bool
  | .synReceived | .established | .finWait1 | .finWait2 => true
  | _ => false

def Tcb.receiveSide (tcb : Tcb) : TcpState × BitVec 32 × RingBuffer.Buffer Byte :=
  (tcb.state, tcb.rcvNxt, tcb.recv)

def Tcb.acceptsAck (tcb : Tcb) (p : Packet) : Bool :=
  has p.flags flagAck && seqLe tcb.sndUna p.ack && seqLe p.ack tcb.sndNxt

def Harmless (tcb : Tcb) (p : Packet) : Prop :=
  match tcb.state with
  | .synReceived => has p.flags flagRst = false ∧ tcb.acceptsAck p = false
  | .established =>
    has p.flags flagRst = false ∧ has p.flags flagFin = false ∧
      -- an empty window leaves out `rcv_nxt` itself, where data is accepted
      (tcb.rcvWnd = 0 → p.seq = tcb.rcvNxt → p.dataLen = 0 ∨ bufferSize ≤ tcb.recv.count)
  | .finWait1 =>
    has p.flags flagFin = false ∧ ¬ (has p.flags flagAck = true ∧ p.ack = tcb.sndNxt)
  | .finWait2 => has p.flags flagFin = false
  | _ => True

theorem OutsideWindow.rcvWnd_eq_zero {tcb : Tcb} {p : Packet} (h : OutsideWindow tcb p)
    (hseq : p.seq = tcb.rcvNxt) : tcb.rcvWnd = 0 := by
  rw [OutsideWindow, hseq, BitVec.sub_self] at h
  exact BitVec.eq_of_toNat_eq (Nat.le_zero.mp h)

section

variable (env : Env) (s : State) (i : Nat) (p : Packet)

@[simp] theorem receiveSide_tcpSendSegment (flags : Byte) (data : List Byte) :
    ((tcpSendSegment env s i flags data).connections i).receiveSide =
      (s.connections i).receiveSide := by
  simp [Tcb.receiveSide]

theorem receiveSynReceived_eq : receiveSynReceived s i p =
    if has p.flags flagRst then s.modify i fun tcb => { tcb with state := .closed }
    else if (s.connections i).acceptsAck p then
      s.modify i fun tcb => { tcb with state := .established, sndUna := p.ack }
    else s := rfl

theorem receiveSynReceived_receiveSide (hstate : (s.connections i).state = .synReceived) :
    ((receiveSynReceived s i p).connections i).receiveSide = (s.connections i).receiveSide ↔
      has p.flags flagRst = false ∧ (s.connections i).acceptsAck p = false := by
  rw [receiveSynReceived_eq]
  cases has p.flags flagRst <;> cases (s.connections i).acceptsAck p <;>
    simp [Tcb.receiveSide, hstate]

theorem processData_receiveSide (hseq : p.seq = (s.connections i).rcvNxt →
      p.dataLen = 0 ∨ bufferSize ≤ (s.connections i).recv.count) :
    ((processData env s i p).connections i).receiveSide = (s.connections i).receiveSide := by
  unfold processData
  split_ifs with hdata
  · have hcopy : (s.connections i).copySize p = 0 := by
      have hfull := hseq hdata.2
      rw [Tcb.copySize_eq]
      omega
    have hstore : p.data ((s.connections i).copySize p) = [] := by rw [hcopy]; rfl
    rw [receiveSide_tcpSendSegment]
    simp [Tcb.receiveSide, Tcb.store, hstore, RingBuffer.Buffer.push]
  · rfl

theorem processData_count (hpos : 0 < p.dataLen) (hseq : p.seq = (s.connections i).rcvNxt)
    (hroom : (s.connections i).recv.count < bufferSize) :
    (s.connections i).recv.count < ((processData env s i p).connections i).recv.count := by
  have hcopy : 0 < (s.connections i).copySize p := by
    rw [Tcb.copySize_eq]
    omega
  simp only [processData, hpos, hseq, and_self, if_true]
  simpa [Tcb.store, RingBuffer.Buffer.push, Packet.length_data] using hcopy

theorem receiveEstablished_receiveSide (hstate : (s.connections i).state = .established) :
    ((receiveEstablished env s i p).connections i).receiveSide = (s.connections i).receiveSide ↔
      has p.flags flagRst = false ∧ has p.flags flagFin = false ∧
        (p.seq = (s.connections i).rcvNxt →
          p.dataLen = 0 ∨ bufferSize ≤ (s.connections i).recv.count) := by
  obtain ⟨-, hst, -, hnxt, hrecv⟩ := takeAck_fields (s.connections i) p
  have hfields : ((s.modify i fun tcb => tcb.takeAck p).connections i).receiveSide =
      (s.connections i).receiveSide := by
    simp [Tcb.receiveSide, hst, hnxt, hrecv]
  unfold receiveEstablished
  cases has p.flags flagRst with
  | true => simp [Tcb.receiveSide, hstate]
  | false =>
    unfold processFin
    cases has p.flags flagFin with
    | true => simp [Tcb.receiveSide, hstate]
    | false =>
      rw [if_neg Bool.false_ne_true, if_neg Bool.false_ne_true]
      refine ⟨fun h => ⟨rfl, rfl, fun hseq => ?_⟩, fun h => ?_⟩
      · by_contra! hroom
        have hcount := processData_count env (s.modify i fun tcb => tcb.takeAck p) i p
          (Nat.pos_of_ne_zero hroom.1) (by simpa [hnxt] using hseq) (by simpa [hrecv] using hroom.2)
        have hsame : ((processData env (s.modify i fun tcb => tcb.takeAck p) i p).connections
            i).recv = (s.connections i).recv := congrArg (fun side => side.2.2) h
        rw [hsame] at hcount
        simp [hrecv] at hcount
      · rw [processData_receiveSide, hfields]
        simpa [hnxt, hrecv] using h.2.2

theorem receiveFinWait1_receiveSide (hstate : (s.connections i).state = .finWait1) :
    ((receiveFinWait1 env s i p).connections i).receiveSide = (s.connections i).receiveSide ↔
      has p.flags flagFin = false ∧
        ¬ (has p.flags flagAck = true ∧ p.ack = (s.connections i).sndNxt) := by
  unfold receiveFinWait1
  generalize hacked : (has p.flags flagAck && p.ack == (s.connections i).sndNxt) = acked
  have hiff : (has p.flags flagAck = true ∧ p.ack = (s.connections i).sndNxt) ↔ acked = true := by
    rw [← hacked, Bool.and_eq_true, beq_iff_eq]
  rw [hiff]
  cases acked <;> cases has p.flags flagFin <;>
    simp [Tcb.receiveSide, hstate, enterTimeWait, takeFin]

theorem receiveFinWait2_receiveSide (hstate : (s.connections i).state = .finWait2) :
    ((receiveFinWait2 env s i p).connections i).receiveSide = (s.connections i).receiveSide ↔
      has p.flags flagFin = false := by
  unfold receiveFinWait2
  cases has p.flags flagFin <;> simp [Tcb.receiveSide, hstate, enterTimeWait]

theorem stateMachine_receiveSide (srcIp destIp : BitVec 32)
    (hsync : (s.connections i).state.synchronised = true)
    (hout : OutsideWindow (s.connections i) p) :
    ((stateMachine env s i srcIp destIp p).connections i).receiveSide =
      (s.connections i).receiveSide ↔ Harmless (s.connections i) p := by
  unfold stateMachine Harmless
  cases hstate : (s.connections i).state with
  | synReceived => exact receiveSynReceived_receiveSide s i p hstate
  | established =>
    refine (receiveEstablished_receiveSide env s i p hstate).trans ?_
    have hempty : (p.seq = (s.connections i).rcvNxt →
          p.dataLen = 0 ∨ bufferSize ≤ (s.connections i).recv.count) ↔
        ((s.connections i).rcvWnd = 0 → p.seq = (s.connections i).rcvNxt →
          p.dataLen = 0 ∨ bufferSize ≤ (s.connections i).recv.count) :=
      ⟨fun h _ => h, fun h hseq => h (hout.rcvWnd_eq_zero hseq) hseq⟩
    exact and_congr_right' (and_congr_right' hempty)
  | finWait1 => exact receiveFinWait1_receiveSide env s i p hstate
  | finWait2 => exact receiveFinWait2_receiveSide env s i p hstate
  | _ => simp [hstate, TcpState.synchronised] at hsync

/-- Which segments outside the window leave a connection alone. -/
theorem outside_window_ignored_iff {env : Env} {s : State} {i : Nat}
    (hopen : (s.connections i).inUse = true)
    (hsync : (s.connections i).state.synchronised = true) {srcIp destIp : BitVec 32} {p : Packet}
    (hlength : headerMinSize ≤ p.length)
    (hchecksum : tcpChecksum srcIp destIp p.byte p.length = 0)
    (hout : OutsideWindow (s.connections i) p) :
    ((tcpReceive env s srcIp destIp p).2.connections i).receiveSide =
        (s.connections i).receiveSide ↔
      (tcpFindConnection s destIp p.destPort srcIp p.srcPort = some i →
        Harmless (s.connections i) p) := by
  rw [tcpReceive, if_neg (Nat.not_lt.mpr hlength), if_neg (not_not.mpr hchecksum)]
  cases hfind : tcpFindConnection s destIp p.destPort srcIp p.srcPort with
  | none =>
    dsimp only
    split_ifs <;> simp
  | some j =>
    dsimp only
    by_cases hij : i = j
    · subst hij
      rw [stateMachine_receiveSide env s i p srcIp destIp hsync hout]
      simp
    · rw [stateMachine_of_ne env hij hopen]
      simp [Ne.symm hij]

end

def windowState : State where
  connections := fun i =>
    if i = 0 then
      { inUse := true, state := .established, localIp := 1, localPort := 80
        remoteIp := 2, remotePort := 1000, rcvNxt := 1, rcvWnd := windowSize }
    else {}

def farPacket (flags : Byte) : Packet where
  length := 20
  byte := fun k => (peerSegment 0x80000000 flags []).bytes.getD k 0
  length_lt := finPacket.length_lt

theorem farPacket_outside : ∀ flags ∈ [flagRst, flagAck],
    OutsideWindow (windowState.connections 0) (farPacket flags) := by
  unfold OutsideWindow
  decide

theorem far_ack_ignored :
    ((tcpReceive reliableEnv windowState 2 1 (farPacket flagAck)).2.connections 0).receiveSide =
      (windowState.connections 0).receiveSide := by
  refine (outside_window_ignored_iff rfl rfl (by decide) (by decide)
    (farPacket_outside _ (by decide))).mpr fun _ => ?_
  exact ⟨by decide, by decide, fun h => absurd h (by decide)⟩

/-- A blind reset closes the connection. -/
theorem far_reset_closes : (windowState.connections 0).state = .established ∧
    tcpChecksum 2 1 (farPacket flagRst).byte (farPacket flagRst).length = 0 ∧
    OutsideWindow (windowState.connections 0) (farPacket flagRst) ∧
    ((tcpReceive reliableEnv windowState 2 1 (farPacket flagRst)).2.connections 0).state =
      .closed :=
  ⟨rfl, by decide, farPacket_outside _ (by decide), by decide⟩

end TocinOS.Tcp

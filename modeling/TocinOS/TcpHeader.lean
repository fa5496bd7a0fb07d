import TocinOS.TcpBacklog
import TocinOS.TcpWindow

/-! The header length of a segment. `tcp_receive` takes it from the data offset as it is, so a segment
whose header is too short or longer than itself is processed like any other; which of them have no
effect is decided by the state machine alone. -/

namespace TocinOS.Tcp

structure Unaffected (s s' : State) : Prop where
  inUse : ∀ k, (s'.connections k).inUse = (s.connections k).inUse
  same : ∀ k, (s.connections k).inUse = true → s'.connections k = s.connections k
  iss : s'.iss = s.iss
  sent : s'.sent = s.sent

def Packet.ProperHeader (p : Packet) : Prop := headerMinSize ≤ p.headerLen ∧ p.headerLen ≤ p.length

instance (p : Packet) : Decidable p.ProperHeader := inferInstanceAs (Decidable (_ ∧ _))

structure HeaderRespected (s s' : State) (p : Packet) : Prop where
  copied : ∀ k, (s'.connections k).inUse = true →
    (s'.connections k).recv = (s.connections k).recv ∨ (s'.connections k).recv.count = 0 ∨
    ∃ n, (s'.connections k).recv = (s.connections k).recv.push bufferSize (p.data n) ∧
      headerMinSize ≤ p.headerLen ∧ p.headerLen + n ≤ p.length
  dropped : ¬p.ProperHeader → Unaffected s s'

def IgnoredAt (env : Env) (s : State) (i : Nat) (p : Packet) : Prop :=
  let tcb := s.connections i
  match tcb.state with
  | .closed => has p.flags flagRst = true ∨ env.ipSend s.transmissions = false
  | .listen => has p.flags flagSyn = false ∨ (∀ j < maxConnections, (s.connections j).inUse = true) ∨
      env.kmalloc s.mallocs = false ∨ env.kmalloc (s.mallocs + 1) = false
  | .synSent =>
    if has p.flags flagAck && (seqLe p.ack tcb.iss || seqGt p.ack tcb.sndNxt) then
      has p.flags flagRst = true ∨ env.ipSend s.transmissions = false
    else has p.flags flagRst = false ∧ has p.flags flagSyn = false
  | .synReceived => has p.flags flagRst = false ∧ tcb.acceptsAck p = false
  | .established =>
    has p.flags flagRst = false ∧ has p.flags flagFin = false ∧
      (tcb.acceptsAck p = true → p.ack = tcb.sndUna) ∧
      (0 < p.dataLen → p.seq = tcb.rcvNxt → bufferSize ≤ tcb.recv.count ∧
        tcb.rcvWnd = BitVec.ofNat 32 (bufferSize - tcb.recv.count) ∧ ¬SendsNext env s)
  | .finWait1 => has p.flags flagFin = false ∧ ¬(has p.flags flagAck = true ∧ p.ack = tcb.sndNxt)
  | .finWait2 => has p.flags flagFin = false
  | .closeWait => True
  | .closing => has p.flags flagAck = false
  | .lastAck => has p.flags flagAck = false
  | .timeWait => ¬timeWaitLength < env.ticks s.readings - tcb.timeWaitStart

def Ignored (env : Env) (s : State) (srcIp destIp : BitVec 32) (p : Packet) : Prop :=
  match tcpFindConnection s destIp p.destPort srcIp p.srcPort with
  | none => has p.flags flagRst = true ∨ env.ipSend s.transmissions = false
  | some i => IgnoredAt env s i p

/-! ### No effect -/

theorem Unaffected.refl (s : State) : Unaffected s s := ⟨fun _ => rfl, fun _ _ => rfl, rfl, rfl⟩

theorem Unaffected.of_connections {s s' : State} (h : s'.connections = s.connections) (hiss : s'.iss = s.iss)
    (hsent : s'.sent = s.sent) : Unaffected s s' :=
  ⟨fun _ => by rw [h], fun _ _ => by rw [h], hiss, hsent⟩

section

variable (env : Env) (s : State) {i : Nat} (p : Packet)

theorem unaffected_rst_iff (srcIp : BitVec 32) (srcPort : BitVec 16) (destIp : BitVec 32)
    (destPort : BitVec 16) (seq ack : BitVec 32) :
    Unaffected s (tcpSendRst env s srcIp srcPort destIp destPort seq ack) ↔
      env.ipSend s.transmissions = false := by
  constructor
  · intro h
    have hsent := h.sent
    by_contra hsends
    rw [Bool.not_eq_false] at hsends
    simp [tcpSendRst, ipSendPacket, hsends] at hsent
  · intro hfails
    refine .of_connections (tcpSendRst_connections ..) ?_ ?_ <;> simp [tcpSendRst, ipSendPacket, hfails]

theorem unaffected_reset_iff (rst : Bool) (srcIp : BitVec 32) (srcPort : BitVec 16) (destIp : BitVec 32)
    (destPort : BitVec 16) (seq ack : BitVec 32) :
    Unaffected s (if rst then s else tcpSendRst env s srcIp srcPort destIp destPort seq ack) ↔
      rst = true ∨ env.ipSend s.transmissions = false := by
  cases rst with
  | true => simp [Unaffected.refl]
  | false => simpa using unaffected_rst_iff env s srcIp srcPort destIp destPort seq ack

theorem unaffected_listen_iff (hi : (s.connections i).inUse = true) (srcIp destIp : BitVec 32) :
    Unaffected s (receiveListen env s i srcIp destIp p) ↔
      has p.flags flagSyn = false ∨ (∀ j < maxConnections, (s.connections j).inUse = true) ∨
        env.kmalloc s.mallocs = false ∨ env.kmalloc (s.mallocs + 1) = false := by
  rw [receiveListen]
  cases has p.flags flagSyn with
  | false => simp [Unaffected.refl]
  | true =>
    rw [if_neg (by decide)]
    obtain ⟨halloc, hfull⟩ | ⟨j, hj, hfree, halloc⟩ := tcpAllocTcb_cases s
    · rw [halloc]
      exact iff_of_true (.refl s) (.inr (.inl hfull))
    have hij : j ≠ i := fun h => by
      rw [h, hi] at hfree
      cases hfree
    have hroom : ¬∀ j < maxConnections, (s.connections j).inUse = true := fun h => by
      rw [h j hj] at hfree
      cases hfree
    rw [halloc]
    dsimp only [tcpGenerateIss, State.timerGetTicks, State.modify]
    by_cases hmemory : env.kmalloc s.mallocs = false ∨ env.kmalloc (s.mallocs + 1) = false
    · refine iff_of_true ?_ (.inr (.inr hmemory))
      rw [if_pos (by simpa using hmemory)]
      refine ⟨fun k => ?_, fun k hk => ?_, rfl, rfl⟩
      · by_cases hk : k = j
        · simp [hk, hfree]
        · simp [hk]
      · have hkj : k ≠ j := fun h => by
          rw [h, hfree] at hk
          cases hk
        simp [hkj]
    · refine iff_of_false (fun h => ?_) (by simp [hroom, hmemory])
      rw [if_neg (by simpa using hmemory)] at h
      have hcreated := h.inUse j
      rw [hfree] at hcreated
      simp [hij] at hcreated

theorem unaffected_synSent_iff (hi : (s.connections i).inUse = true)
    (hstate : (s.connections i).state = .synSent) (srcIp destIp : BitVec 32) :
    Unaffected s (receiveSynSent env s i srcIp destIp p) ↔
      if has p.flags flagAck && (seqLe p.ack (s.connections i).iss || seqGt p.ack (s.connections i).sndNxt) then
        has p.flags flagRst = true ∨ env.ipSend s.transmissions = false
      else has p.flags flagRst = false ∧ has p.flags flagSyn = false := by
  rw [receiveSynSent]
  dsimp only
  split
  · exact unaffected_reset_iff ..
  · have hkeeps {s' : State} (h : Unaffected s s') : (s'.connections i).state = .synSent :=
      (congrArg Tcb.state (h.same i hi)).trans hstate
    cases has p.flags flagRst with
    | true => exact iff_of_false (fun h => by simpa using hkeeps h) (by simp)
    | false =>
      cases has p.flags flagSyn with
      | false => simp [Unaffected.refl]
      | true =>
        refine iff_of_false (fun h => ?_) (by simp)
        rw [if_neg Bool.false_ne_true, if_pos rfl] at h
        have hsame := hkeeps h
        generalize s.modify i _ = t at hsame
        revert hsame
        split <;> simp

theorem unaffected_synReceived_iff (hi : (s.connections i).inUse = true)
    (hstate : (s.connections i).state = .synReceived) :
    Unaffected s (receiveSynReceived s i p) ↔
      has p.flags flagRst = false ∧ (s.connections i).acceptsAck p = false := by
  constructor
  · intro h
    exact (receiveSynReceived_receiveSide s i p hstate).mp (congrArg Tcb.receiveSide (h.same i hi))
  · rintro ⟨hrst, hack⟩
    rw [receiveSynReceived_eq, hrst, hack]
    exact .refl s

theorem unaffected_finWait1_iff (hi : (s.connections i).inUse = true)
    (hstate : (s.connections i).state = .finWait1) :
    Unaffected s (receiveFinWait1 env s i p) ↔
      has p.flags flagFin = false ∧ ¬(has p.flags flagAck = true ∧ p.ack = (s.connections i).sndNxt) := by
  constructor
  · intro h
    exact (receiveFinWait1_receiveSide env s i p hstate).mp (congrArg Tcb.receiveSide (h.same i hi))
  · rintro ⟨hfin, hack⟩
    have hacked : (has p.flags flagAck && p.ack == (s.connections i).sndNxt) = false := by
      rw [Bool.eq_false_iff, ne_eq, Bool.and_eq_true, beq_iff_eq]
      exact hack
    rw [receiveFinWait1, hfin, hacked]
    exact .refl s

theorem unaffected_finWait2_iff (hi : (s.connections i).inUse = true)
    (hstate : (s.connections i).state = .finWait2) :
    Unaffected s (receiveFinWait2 env s i p) ↔ has p.flags flagFin = false := by
  constructor
  · intro h
    exact (receiveFinWait2_receiveSide env s i p hstate).mp (congrArg Tcb.receiveSide (h.same i hi))
  · intro hfin
    rw [receiveFinWait2, hfin]
    exact .refl s

/-! ### An established connection -/

@[simp] theorem tcpSendSegment_iss (i : Nat) (flags : Byte) (data : List Byte) :
    (tcpSendSegment env s i flags data).iss = s.iss := by
  by_cases h : SendsNext env s
  · rw [tcpSendSegment_of_sends h]
  · rw [tcpSendSegment, ipSendPacket]
    split_ifs <;> rfl

theorem Tcb.store_nil (tcb : Tcb) :
    tcb.store [] = { tcb with rcvWnd := BitVec.ofNat 32 (bufferSize - tcb.recv.count) } := by
  simp [Tcb.store, RingBuffer.Buffer.push]

theorem processData_of_full (hdata : 0 < p.dataLen ∧ p.seq = (s.connections i).rcvNxt)
    (hfull : bufferSize ≤ (s.connections i).recv.count) : processData env s i p =
      tcpSendSegment env (s.modify i fun tcb =>
        { tcb with rcvWnd := BitVec.ofNat 32 (bufferSize - tcb.recv.count) }) i flagAck [] := by
  have hcopy : (s.connections i).copySize p = 0 := by
    rw [Tcb.copySize_eq]
    omega
  rw [processData, if_pos hdata, State.modify, State.modify, hcopy,
    show p.data 0 = [] from rfl, Tcb.store_nil]

theorem unaffected_data_iff (hi : (s.connections i).inUse = true) :
    Unaffected s (processData env s i p) ↔
      (0 < p.dataLen → p.seq = (s.connections i).rcvNxt → bufferSize ≤ (s.connections i).recv.count ∧
        (s.connections i).rcvWnd = BitVec.ofNat 32 (bufferSize - (s.connections i).recv.count) ∧
          ¬SendsNext env s) := by
  by_cases hdata : 0 < p.dataLen ∧ p.seq = (s.connections i).rcvNxt
  · constructor
    · intro h _ _
      have hfull : bufferSize ≤ (s.connections i).recv.count := by
        by_contra hroom
        have hcount := processData_count env s i p hdata.1 hdata.2 (Nat.lt_of_not_le hroom)
        rw [h.same i hi] at hcount
        exact Nat.lt_irrefl _ hcount
      rw [processData_of_full env s p hdata hfull] at h
      refine ⟨hfull, ?_, fun hsends => ?_⟩
      · obtain ⟨nxt, hframe⟩ := tcpSendSegment_frame env (s.modify i fun tcb =>
          { tcb with rcvWnd := BitVec.ofNat 32 (bufferSize - tcb.recv.count) }) i i flagAck []
        have hwnd := congrArg Tcb.rcvWnd (hframe.symm.trans (h.same i hi))
        simpa using hwnd.symm
      · have hsent := h.sent
        rw [tcpSendSegment_of_sends (s := s.modify i _) hsends] at hsent
        exact absurd (congrArg List.length hsent) (by simp [State.modify])
    · intro h
      obtain ⟨hfull, hwnd, hfails⟩ := h hdata.1 hdata.2
      rw [processData_of_full env s p hdata hfull]
      have hquiet := tcpSendSegment_of_fails (s := s.modify i fun tcb =>
        { tcb with rcvWnd := BitVec.ofNat 32 (bufferSize - tcb.recv.count) }) hfails i flagAck []
      refine .of_connections (hquiet.1.trans ?_) (by simp [State.modify]) hquiet.2
      rw [State.modify, ← hwnd]
      exact Function.update_eq_self i s.connections
  · rw [processData, if_neg hdata]
    exact iff_of_true (.refl s) fun hlen hseq => absurd ⟨hlen, hseq⟩ hdata

theorem takeAck_eq_self_iff (tcb : Tcb) :
    tcb.takeAck p = tcb ↔ (tcb.acceptsAck p = true → p.ack = tcb.sndUna) := by
  rw [Tcb.takeAck, Tcb.acceptsAck]
  split
  · next hack =>
    refine ⟨fun h _ => congrArg Tcb.sndUna h, fun h => ?_⟩
    rw [h hack]
  · next hack => exact iff_of_true rfl fun h => absurd h hack

theorem processData_sndUna :
    ((processData env s i p).connections i).sndUna = (s.connections i).sndUna := by
  rw [processData]
  split
  · obtain ⟨nxt, hframe⟩ := tcpSendSegment_frame env
      (s.modify i fun tcb => tcb.store (p.data (tcb.copySize p))) i i flagAck []
    rw [hframe]
    simp [Tcb.store]
  · rfl

theorem unaffected_established_iff (hi : (s.connections i).inUse = true)
    (hstate : (s.connections i).state = .established) :
    Unaffected s (receiveEstablished env s i p) ↔
      has p.flags flagRst = false ∧ has p.flags flagFin = false ∧
      ((s.connections i).acceptsAck p = true → p.ack = (s.connections i).sndUna) ∧
      (0 < p.dataLen → p.seq = (s.connections i).rcvNxt → bufferSize ≤ (s.connections i).recv.count ∧
        (s.connections i).rcvWnd = BitVec.ofNat 32 (bufferSize - (s.connections i).recv.count) ∧
          ¬SendsNext env s) := by
  have hside (h : Unaffected s (receiveEstablished env s i p)) :=
    (receiveEstablished_receiveSide env s i p hstate).mp (congrArg Tcb.receiveSide (h.same i hi))
  rw [← takeAck_eq_self_iff, ← unaffected_data_iff env s p hi]
  have hsteps (hrst : has p.flags flagRst = false) (hfin : has p.flags flagFin = false) :
      receiveEstablished env s i p = processData env (s.modify i fun tcb => tcb.takeAck p) i p := by
    rw [receiveEstablished, hrst, processFin, hfin]
    rfl
  have hmodify (hack : (s.connections i).takeAck p = s.connections i) :
      s.modify i (fun tcb => tcb.takeAck p) = s := by
    rw [State.modify, hack, Function.update_eq_self]
  constructor
  · intro h
    obtain ⟨hrst, hfin, -⟩ := hside h
    rw [hsteps hrst hfin] at h
    have hack : (s.connections i).takeAck p = s.connections i := by
      have huna := congrArg Tcb.sndUna (h.same i hi)
      rw [processData_sndUna, modify_connections_self] at huna
      rw [takeAck_eq_self_iff]
      intro haccepts
      rw [Tcb.acceptsAck] at haccepts
      rw [← huna, Tcb.takeAck, if_pos haccepts]
    rw [hmodify hack] at h
    exact ⟨hrst, hfin, hack, h⟩
  · rintro ⟨hrst, hfin, hack, h⟩
    rw [hsteps hrst hfin, hmodify hack]
    exact h

/-! ### The state machine -/

theorem receiveTimeWait_eq (i : Nat) : receiveTimeWait env s i =
    if timeWaitLength < env.ticks s.readings - (s.connections i).timeWaitStart then
      { s with readings := s.readings + 1 }.modify i fun _ => {}
    else { s with readings := s.readings + 1 } := rfl

theorem unaffected_stateMachine_iff (hi : (s.connections i).inUse = true) (srcIp destIp : BitVec 32) :
    Unaffected s (stateMachine env s i srcIp destIp p) ↔ IgnoredAt env s i p := by
  have hreleased : ¬Unaffected s (s.modify i fun _ => {}) := fun h => by
    have := h.inUse i
    simp [hi] at this
  unfold stateMachine IgnoredAt
  dsimp only
  cases hstate : (s.connections i).state with
  | closed => exact unaffected_reset_iff ..
  | listen => exact unaffected_listen_iff env s p hi srcIp destIp
  | synSent => exact unaffected_synSent_iff env s p hi hstate srcIp destIp
  | synReceived => exact unaffected_synReceived_iff s p hi hstate
  | established => exact unaffected_established_iff env s p hi hstate
  | finWait1 => exact unaffected_finWait1_iff env s p hi hstate
  | finWait2 => exact unaffected_finWait2_iff env s p hi hstate
  | closeWait => exact iff_of_true (.refl s) trivial
  | closing =>
    dsimp only
    cases has p.flags flagAck with
    | false => exact iff_of_true (.refl s) rfl
    | true =>
      refine iff_of_false (fun h => ?_) (by simp)
      have hsame := congrArg Tcb.state (h.same i hi)
      simp [enterTimeWait, hstate] at hsame
  | lastAck =>
    dsimp only
    cases has p.flags flagAck with
    | false => exact iff_of_true (.refl s) rfl
    | true => exact iff_of_false hreleased (by simp)
  | timeWait =>
    dsimp only
    rw [receiveTimeWait_eq]
    by_cases hover : timeWaitLength < env.ticks s.readings - (s.connections i).timeWaitStart
    · rw [if_pos hover]
      exact iff_of_false (fun h => hreleased ⟨h.inUse, h.same, h.iss, h.sent⟩) (not_not.mpr hover)
    · rw [if_neg hover]
      exact iff_of_true ⟨fun _ => rfl, fun _ _ => rfl, rfl, rfl⟩ hover

/-! ### Copied bytes -/

def Packet.MayFill (p : Packet) (ring ring' : RingBuffer.Buffer Byte) : Prop :=
  ring' = ring ∨ ring'.count = 0 ∨ ∃ n ≤ p.dataLen, ring' = ring.push bufferSize (p.data n)

theorem processFin_recv (i : Nat) :
    ((processFin env s i p).connections i).recv = (s.connections i).recv := by
  rw [processFin]
  split <;> simp

theorem receiveEstablished_count (hrst : has p.flags flagRst = false) (hlen : 0 < p.dataLen)
    (hseq : p.seq = (s.connections i).rcvNxt) :
    ((receiveEstablished env s i p).connections i).recv.count =
      (s.connections i).recv.count + min p.dataLen (bufferSize - (s.connections i).recv.count) := by
  obtain ⟨-, -, -, hnxt, hrecv⟩ := takeAck_fields (s.connections i) p
  have hdata : 0 < p.dataLen ∧
      p.seq = ((s.modify i fun tcb => tcb.takeAck p).connections i).rcvNxt := by
    rw [modify_connections_self, hnxt]
    exact ⟨hlen, hseq⟩
  rw [receiveEstablished, hrst, if_neg Bool.false_ne_true, processFin_recv, processData, if_pos hdata,
    tcpSendSegment_recv, modify_connections_self, store_count, Packet.length_data, Tcb.copySize_eq,
    modify_connections_self, hrecv]

theorem receiveListen_mayFill (srcIp destIp : BitVec 32) (k : Nat) :
    p.MayFill (s.connections k).recv ((receiveListen env s i srcIp destIp p).connections k).recv := by
  obtain h | ⟨j, -, -, t, -, ⟨hconn, h⟩ | ⟨-, ⟨iss, hconn⟩, h⟩⟩ :=
    receiveListen_cases env s i srcIp destIp p <;> rw [h]
  · exact .inl rfl
  · by_cases hkj : k = j <;> simp [Packet.MayFill, hconn, hkj]
  · rw [modify_field Tcb.recv (by simp), tcpSendSegment_recv]
    by_cases hkj : k = j <;> simp [Packet.MayFill, hconn, hkj]

theorem stateMachine_mayFill (srcIp destIp : BitVec 32) (k : Nat) :
    p.MayFill (s.connections k).recv ((stateMachine env s i srcIp destIp p).connections k).recv := by
  by_cases hlisten : (s.connections i).state = .listen
  · rw [stateMachine_of_listen env hlisten]
    exact receiveListen_mayFill env s p srcIp destIp k
  by_cases hki : k = i
  · subst hki
    obtain h | ⟨-, hfree⟩ := handled_stateMachine env s k p srcIp destIp hlisten
    · refine h.recv.imp_right fun hpush => .inr ⟨_, ?_, hpush⟩
      rw [Tcb.copySize_eq]
      exact Nat.min_le_left ..
    · rw [hfree]
      exact .inr (.inl rfl)
  · rw [stateMachine_of_not_listen env hki hlisten]
    exact .inl rfl

end

/-- Headers are respected when they are proper, and by the segments that have no effect. -/
theorem header_respected_iff {env : Env} {s : State} {srcIp destIp : BitVec 32} {p : Packet}
    (hlength : headerMinSize ≤ p.length) (hchecksum : tcpChecksum srcIp destIp p.byte p.length = 0) :
    HeaderRespected s (tcpReceive env s srcIp destIp p).2 p ↔
      p.ProperHeader ∨ Ignored env s srcIp destIp p := by
  have hunaffected : Unaffected s (tcpReceive env s srcIp destIp p).2 ↔ Ignored env s srcIp destIp p := by
    rw [tcpReceive, if_neg (Nat.not_lt.mpr hlength), if_neg (not_not.mpr hchecksum), Ignored]
    cases hfind : tcpFindConnection s destIp p.destPort srcIp p.srcPort with
    | none =>
      dsimp only
      rw [← unaffected_reset_iff env s (has p.flags flagRst) destIp p.destPort srcIp p.srcPort p.ack (p.seq + 1)]
      split <;> rfl
    | some i =>
      exact unaffected_stateMachine_iff env s p (Listener.tcpFindConnection_inUse hfind) srcIp destIp
  have hfill (k : Nat) :
      p.MayFill (s.connections k).recv ((tcpReceive env s srcIp destIp p).2.connections k).recv := by
    obtain hsame | ⟨i, -, hrun⟩ := tcpReceive_cases env s srcIp destIp p
    · exact .inl (by rw [hsame])
    · rw [hrun]
      exact stateMachine_mayFill env s p srcIp destIp k
  constructor
  · intro h
    by_cases hproper : p.ProperHeader
    · exact .inl hproper
    · exact .inr (hunaffected.mp (h.dropped hproper))
  · rintro (hproper | hignored)
    · refine ⟨fun k _ => ?_, fun h => absurd hproper h⟩
      obtain hsame | hempty | ⟨n, hn, hpush⟩ := hfill k
      · exact .inl hsame
      · exact .inr (.inl hempty)
      · refine .inr (.inr ⟨n, hpush, hproper.1, ?_⟩)
        have hle := hproper.2
        rw [Packet.dataLen, if_pos hle] at hn
        omega
    · have h := hunaffected.mpr hignored
      refine ⟨fun k hk => .inl ?_, fun _ => h⟩
      rw [h.same k ((h.inUse k).symm.trans hk)]

/-- An in-order segment of 20 bytes with the given data offset. The urgent pointer makes up for the
change, so that the checksum stays valid. -/
def offsetPacket (dataOffset : Byte) (urgent : Byte × Byte) : Packet where
  length := 20
  byte := fun k =>
    if k = 12 then dataOffset else if k = 18 then urgent.1 else if k = 19 then urgent.2
    else (peerSegment 1 flagAck []).bytes.getD k 0
  length_lt := finPacket.length_lt

theorem proper_header_respected :
    ((tcpReceive reliableEnv windowState 2 1 dataPacket).2.connections 0).recv.count = 1 ∧
      HeaderRespected windowState (tcpReceive reliableEnv windowState 2 1 dataPacket).2 dataPacket :=
  ⟨by decide, (header_respected_iff (by decide) (by decide)).mpr (.inl (by decide))⟩

/-- A header length of 0 puts the header into the receive buffer; one of 60 bytes in a segment of 20
makes 65496 bytes of the memory behind the segment its data. -/
theorem improper_header_processed :
    tcpChecksum 2 1 (offsetPacket 0 (0x50, 0)).byte 20 = 0 ∧
    ¬HeaderRespected windowState (tcpReceive reliableEnv windowState 2 1 (offsetPacket 0 (0x50, 0))).2
      (offsetPacket 0 (0x50, 0)) ∧
    ((tcpReceive reliableEnv windowState 2 1 (offsetPacket 0 (0x50, 0))).2.connections 0).recv.count = 20 ∧
    tcpChecksum 2 1 (offsetPacket 0xF0 (0x5F, 0xFF)).byte 20 = 0 ∧
    ((tcpReceive reliableEnv windowState 2 1 (offsetPacket 0xF0 (0x5F, 0xFF))).2.connections 0).recv.count =
      65496 := by
  have hcount :
      ((tcpReceive reliableEnv windowState 2 1 (offsetPacket 0 (0x50, 0))).2.connections 0).recv.count = 20 := by
    decide
  refine ⟨by decide, fun h => ?_, hcount, by decide, ?_⟩
  · have hsame := (h.dropped (by decide)).same 0 rfl
    rw [hsame] at hcount
    exact absurd hcount (by decide)
  · have hfind : tcpFindConnection windowState 1 (offsetPacket 0xF0 (0x5F, 0xFF)).destPort 2
        (offsetPacket 0xF0 (0x5F, 0xFF)).srcPort = some 0 := by decide
    have hlen : (offsetPacket 0xF0 (0x5F, 0xFF)).dataLen = 65496 := by decide
    have hcount := receiveEstablished_count (i := 0) reliableEnv windowState (offsetPacket 0xF0 (0x5F, 0xFF))
      (by decide) (by decide) (by decide)
    have hempty : (windowState.connections 0).recv.count = 0 := rfl
    rw [hlen, hempty] at hcount
    rw [tcpReceive, if_neg (by decide), if_neg (by decide), hfind]
    exact hcount

end TocinOS.Tcp

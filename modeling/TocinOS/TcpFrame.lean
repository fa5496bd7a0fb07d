import TocinOS.TcpSend

/-! What `tcp_receive` leaves alone: sending a segment touches `snd_nxt` only, and
a segment for one connection changes no other connection in use. -/

namespace TocinOS.Tcp

theorem modify_field {α : Type} (g : Tcb → α) {f : Tcb → Tcb} (hf : ∀ tcb, g (f tcb) = g tcb)
    (s : State) (i k : Nat) : g ((s.modify i f).connections k) = g (s.connections k) := by
  by_cases hki : k = i
  · subst hki
    rw [modify_connections_self, hf]
  · rw [modify_connections_of_ne s f hki]

/-! ### What sending leaves alone -/

section Frame

variable (env : Env) (s : State) (i j : Nat) (flags : Byte) (data : List Byte)

theorem tcpSendSegment_frame :
    ∃ nxt, (tcpSendSegment env s i flags data).connections j =
      { s.connections j with sndNxt := nxt } := by
  obtain ⟨nxt, h⟩ := tcpSendSegment_connections env s i flags data
  by_cases hj : j = i
  · subst hj
    exact ⟨nxt, by simp [h]⟩
  · exact ⟨(s.connections j).sndNxt, by simp [h, hj]⟩

@[simp] theorem tcpSendSegment_inUse :
    ((tcpSendSegment env s i flags data).connections j).inUse = (s.connections j).inUse := by
  obtain ⟨nxt, h⟩ := tcpSendSegment_frame env s i j flags data
  rw [h]

@[simp] theorem tcpSendSegment_state :
    ((tcpSendSegment env s i flags data).connections j).state = (s.connections j).state := by
  obtain ⟨nxt, h⟩ := tcpSendSegment_frame env s i j flags data
  rw [h]

@[simp] theorem tcpSendSegment_irs :
    ((tcpSendSegment env s i flags data).connections j).irs = (s.connections j).irs := by
  obtain ⟨nxt, h⟩ := tcpSendSegment_frame env s i j flags data
  rw [h]

@[simp] theorem tcpSendSegment_rcvNxt :
    ((tcpSendSegment env s i flags data).connections j).rcvNxt = (s.connections j).rcvNxt := by
  obtain ⟨nxt, h⟩ := tcpSendSegment_frame env s i j flags data
  rw [h]

@[simp] theorem tcpSendSegment_recv :
    ((tcpSendSegment env s i flags data).connections j).recv = (s.connections j).recv := by
  obtain ⟨nxt, h⟩ := tcpSendSegment_frame env s i j flags data
  rw [h]

@[simp] theorem tcpSendSegment_send :
    ((tcpSendSegment env s i flags data).connections j).send = (s.connections j).send := by
  obtain ⟨nxt, h⟩ := tcpSendSegment_frame env s i j flags data
  rw [h]

@[simp] theorem tcpSendSegment_sndUna :
    ((tcpSendSegment env s i flags data).connections j).sndUna = (s.connections j).sndUna := by
  obtain ⟨nxt, h⟩ := tcpSendSegment_frame env s i j flags data
  rw [h]

@[simp] theorem tcpSendSegment_parentSocket :
    ((tcpSendSegment env s i flags data).connections j).parentSocket =
      (s.connections j).parentSocket := by
  obtain ⟨nxt, h⟩ := tcpSendSegment_frame env s i j flags data
  rw [h]

variable {i j} in
@[simp] theorem tcpSendSegment_of_ne (h : j ≠ i) :
    (tcpSendSegment env s i flags data).connections j = s.connections j := by
  obtain ⟨nxt, hconn⟩ := tcpSendSegment_connections env s i flags data
  simp [hconn, h]

@[simp] theorem timerGetTicks_connections :
    (s.timerGetTicks env).2.connections = s.connections := rfl

@[simp] theorem ipSendPacket_connections (seg : Segment) :
    (ipSendPacket env s seg).2.connections = s.connections := by
  unfold ipSendPacket
  split <;> rfl

@[simp] theorem tcpSendRst_connections (srcIp : BitVec 32) (srcPort : BitVec 16)
    (destIp : BitVec 32) (destPort : BitVec 16) (seq ack : BitVec 32) :
    (tcpSendRst env s srcIp srcPort destIp destPort seq ack).connections = s.connections :=
  ipSendPacket_connections env s _

end Frame

theorem tcpAllocTcb_cases (s : State) :
    (tcpAllocTcb s = none ∧ ∀ j < maxConnections, (s.connections j).inUse = true) ∨
    ∃ j < maxConnections, (s.connections j).inUse = false ∧ tcpAllocTcb s =
      some (j, s.modify j fun _ => { inUse := true, rcvWnd := windowSize, parentSocket := -1 }) := by
  rw [tcpAllocTcb]
  cases hfind : (List.range maxConnections).find? fun i => !(s.connections i).inUse with
  | none =>
    refine .inl ⟨rfl, fun j hj => ?_⟩
    simpa using List.find?_eq_none.mp hfind j (List.mem_range.mpr hj)
  | some j =>
    refine .inr ⟨j, List.mem_range.mp (List.mem_of_find?_eq_some hfind), ?_, rfl⟩
    simpa using List.find?_some hfind

section Listen

open Function

variable (env : Env) (s : State) (i : Nat) (srcIp destIp : BitVec 32) (p : Packet)

/-- A listener takes a free block for a SYN and gives it back when the rings cannot be allocated. -/
theorem receiveListen_cases : receiveListen env s i srcIp destIp p = s ∨
    ∃ j < maxConnections, (s.connections j).inUse = false ∧ ∃ t : State, t.sent = s.sent ∧
      (t.connections = update s.connections j { rcvWnd := windowSize, parentSocket := -1 } ∧
        receiveListen env s i srcIp destIp p = t ∨
      has p.flags flagSyn = true ∧
        (∃ iss, t.connections = update s.connections j
          { inUse := true, localIp := destIp, localPort := p.destPort, remoteIp := srcIp
            remotePort := p.srcPort, parentSocket := i, irs := p.seq, rcvNxt := p.seq + 1
            rcvWnd := windowSize, iss, sndUna := iss, sndNxt := iss
            sndWnd := p.window.setWidth 32, state := .synReceived }) ∧
        receiveListen env s i srcIp destIp p =
          (tcpSendSegment env t j (flagSyn ||| flagAck) []).modify i fun tcb =>
            { tcb with pendingConnections :=
                if (tcb.pendingConnections.length : Int) < tcb.backlog then
                  tcb.pendingConnections ++ [j]
                else tcb.pendingConnections }) := by
  rw [receiveListen]
  cases has p.flags flagSyn with
  | false => exact .inl rfl
  | true =>
    rw [if_neg (by decide)]
    obtain ⟨halloc, -⟩ | ⟨j, hj, hfree, halloc⟩ := tcpAllocTcb_cases s <;> rw [halloc]
    · exact .inl rfl
    refine .inr ⟨j, hj, hfree, ?_⟩
    dsimp only [tcpGenerateIss, State.timerGetTicks]
    split_ifs
    · refine ⟨_, ?_, .inl ⟨?_, rfl⟩⟩
      · rfl
      · simp only [State.modify, update_self, update_idem]
    · refine ⟨_, ?_, .inr ⟨rfl, ?_, congrArg (State.modify _ i) (funext fun tcb => ?_)⟩⟩
      · rfl
      · simp only [State.modify, update_self, update_idem]
        exact ⟨_, rfl⟩
      · split_ifs <;> rfl

variable {s i} in
theorem receiveListen_of_ne {j : Nat} (hij : i ≠ j) (hi : (s.connections i).inUse = true) :
    (receiveListen env s j srcIp destIp p).connections i = s.connections i := by
  obtain h | ⟨k, -, hfree, t, -, hcases⟩ := receiveListen_cases env s j srcIp destIp p
  · rw [h]
  have hik : i ≠ k := by
    rintro rfl
    rw [hi] at hfree
    cases hfree
  obtain ⟨hconn, h⟩ | ⟨-, ⟨iss, hconn⟩, h⟩ := hcases <;> simp [h, hconn, hik, hij]

end Listen

section OtherConnections

variable (env : Env) (s : State) {i j : Nat} (h : i ≠ j) (p : Packet)
include h

@[simp] theorem enterTimeWait_of_ne :
    (enterTimeWait env s j).connections i = s.connections i := by
  simp [enterTimeWait, h]

@[simp] theorem takeFin_of_ne : (takeFin env s j p).connections i = s.connections i := by
  simp [takeFin, h]

theorem receiveSynSent_of_ne (srcIp destIp : BitVec 32) :
    (receiveSynSent env s j srcIp destIp p).connections i = s.connections i := by
  simp only [receiveSynSent]
  split_ifs <;> simp [h]

theorem receiveSynReceived_of_ne :
    (receiveSynReceived s j p).connections i = s.connections i := by
  simp only [receiveSynReceived]
  split_ifs <;> simp [h]

theorem receiveEstablished_of_ne :
    (receiveEstablished env s j p).connections i = s.connections i := by
  simp only [receiveEstablished, processFin, processData]
  split_ifs <;> simp [h]

theorem receiveFinWait1_of_ne :
    (receiveFinWait1 env s j p).connections i = s.connections i := by
  simp only [receiveFinWait1]
  split_ifs <;> simp [h]

theorem receiveFinWait2_of_ne :
    (receiveFinWait2 env s j p).connections i = s.connections i := by
  simp only [receiveFinWait2]
  split_ifs <;> simp [h]

theorem receiveTimeWait_of_ne :
    (receiveTimeWait env s j).connections i = s.connections i := by
  simp only [receiveTimeWait]
  split_ifs <;> simp [h]

end OtherConnections

/-- Only a listener creates connections; a segment for any other one changes no second
block, in use or not. -/
theorem stateMachine_of_not_listen (env : Env) {s : State} {i j : Nat} (h : i ≠ j)
    (hj : (s.connections j).state ≠ .listen) (srcIp destIp : BitVec 32) (p : Packet) :
    (stateMachine env s j srcIp destIp p).connections i = s.connections i := by
  unfold stateMachine
  split
  · split <;> simp
  · exact absurd ‹_› hj
  · exact receiveSynSent_of_ne env s h p srcIp destIp
  · exact receiveSynReceived_of_ne s h p
  · exact receiveEstablished_of_ne env s h p
  · exact receiveFinWait1_of_ne env s h p
  · exact receiveFinWait2_of_ne env s h p
  · rfl
  · split <;> simp [h]
  · split <;> simp [h]
  · exact receiveTimeWait_of_ne env s h

theorem stateMachine_of_listen (env : Env) {s : State} {j : Nat}
    (hj : (s.connections j).state = .listen) (srcIp destIp : BitVec 32) (p : Packet) :
    stateMachine env s j srcIp destIp p = receiveListen env s j srcIp destIp p := by
  simp only [stateMachine, hj]

theorem stateMachine_of_ne (env : Env) {s : State} {i j : Nat} (h : i ≠ j)
    (hi : (s.connections i).inUse = true) (srcIp destIp : BitVec 32) (p : Packet) :
    (stateMachine env s j srcIp destIp p).connections i = s.connections i := by
  by_cases hj : (s.connections j).state = .listen
  · rw [stateMachine_of_listen env hj]
    exact receiveListen_of_ne env srcIp destIp p h hi
  · exact stateMachine_of_not_listen env h hj srcIp destIp p

end TocinOS.Tcp

import TocinOS.TcpRuns

/-! Listening sockets: `tcp_listen`, `tcp_accept`, and the connections that the input
state machine creates for a listener. A connection is queued as soon as its SYN arrives. -/

namespace TocinOS.Tcp

/-- The descriptor of the connection, or none where the call returns -1. -/
def tcpAccept (s : State) (sockfd : Int) : Option Nat × State :=
  if sockfd < 0 ∨ sockfd ≥ maxConnections then (none, s)
  else
    let i := sockfd.toNat
    let tcb := s.connections i
    if !tcb.inUse || tcb.state != .listen then (none, s)
    else
      match tcb.pendingConnections with
      | [] => (none, s)
      | j :: rest => (some j, s.modify i fun tcb => { tcb with pendingConnections := rest })

/-! ### What a call does to the blocks -/

def TcpState.unclosed : TcpState → Bool
  | .synReceived | .established | .closeWait | .closed => true
  | _ => false

/-- A block after a call: it is released or has the parent it had, and a connection that
nobody has closed is not released. -/
structure BlockKept (tcb tcb' : Tcb) : Prop where
  parent : tcb'.inUse = true → tcb.inUse = true ∧ tcb'.parentSocket = tcb.parentSocket
  unclosed : tcb.inUse = true → tcb.state.unclosed = true →
    tcb'.inUse = true ∧ tcb'.state.unclosed = true

theorem BlockKept.refl (tcb : Tcb) : BlockKept tcb tcb :=
  ⟨fun h => ⟨h, rfl⟩, fun h h' => ⟨h, h'⟩⟩

theorem BlockKept.of_fields {tcb tcb' : Tcb} (huse : tcb'.inUse = tcb.inUse)
    (hparent : tcb'.parentSocket = tcb.parentSocket)
    (hstate : tcb.state.unclosed = true → tcb'.state.unclosed = true) : BlockKept tcb tcb' :=
  ⟨fun h => ⟨huse ▸ h, hparent⟩, fun h h' => ⟨huse.trans h, hstate h'⟩⟩

/-- The acknowledgements that `snd_una` is set to. -/
def Tcb.Accepts (tcb : Tcb) (ack : BitVec 32) : Prop :=
  match tcb.state with
  | .synSent => seqLe ack tcb.iss = false ∧ seqGt ack tcb.sndNxt = false
  | .synReceived | .established => seqLe tcb.sndUna ack = true ∧ seqLe ack tcb.sndNxt = true
  | _ => False

/-- What a segment does to the block it is for, unless it releases it. -/
structure Handled (p : Packet) (tcb tcb' : Tcb) : Prop where
  inUse : tcb'.inUse = tcb.inUse
  parent : tcb'.parentSocket = tcb.parentSocket
  unclosed : tcb.state.unclosed = true → tcb'.state.unclosed = true
  synSent : tcb'.state = .synSent → tcb' = tcb
  send : tcb'.send = tcb.send
  recv : tcb'.recv = tcb.recv ∨ tcb'.recv = tcb.recv.push bufferSize (p.data (tcb.copySize p))
  sndUna : tcb'.sndUna = tcb.sndUna ∨ tcb'.sndUna = p.ack ∧ tcb.Accepts p.ack

theorem Handled.refl (p : Packet) (tcb : Tcb) : Handled p tcb tcb :=
  ⟨rfl, rfl, id, fun _ => rfl, rfl, .inl rfl, .inl rfl⟩

section

variable (env : Env) (s : State) (i : Nat) (p : Packet)

theorem Handled.sent {tcb : Tcb} (h : Handled p tcb (s.connections i))
    (hne : (s.connections i).state ≠ .synSent) (flags : Byte) (data : List Byte) :
    Handled p tcb ((tcpSendSegment env s i flags data).connections i) := by
  obtain ⟨nxt, hsent⟩ := tcpSendSegment_frame env s i i flags data
  rw [hsent]
  exact { h with synSent := fun hstate => absurd hstate hne }

theorem handled_takeAck {tcb : Tcb} (hstate : tcb.state = .established) :
    Handled p tcb (tcb.takeAck p) := by
  unfold Tcb.takeAck
  split_ifs
  · constructor <;> simp_all [Tcb.Accepts]
  · exact .refl ..

theorem handled_established (hstate : (s.connections i).state = .established) :
    Handled p (s.connections i) ((receiveEstablished env s i p).connections i) := by
  obtain ⟨-, hst, -, -, hrecv⟩ := takeAck_fields (s.connections i) p
  have hack := handled_takeAck p hstate
  rw [receiveEstablished]
  split_ifs
  · constructor <;> simp [TcpState.unclosed]
  have hdata : Handled p (s.connections i)
      ((processData env (s.modify i fun tcb => tcb.takeAck p) i p).connections i) := by
    rw [processData]
    split_ifs
    · refine Handled.sent env _ i p ?_ (by simp [Tcb.store, hst, hstate]) _ _
      simp only [modify_connections_self, Tcb.store, Tcb.copySize, hrecv]
      exact { hack with recv := .inr rfl, synSent := by simp [hst, hstate] }
    · simpa using hack
  rw [processFin]
  split_ifs
  · refine Handled.sent env _ i p ?_ (by simp) _ _
    rw [modify_connections_self]
    exact { hdata with unclosed := fun _ => rfl, synSent := fun h => absurd h (by simp) }
  · exact hdata

theorem handled_stateMachine (srcIp destIp : BitVec 32)
    (hlisten : (s.connections i).state ≠ .listen) :
    Handled p (s.connections i) ((stateMachine env s i srcIp destIp p).connections i) ∨
      (s.connections i).state.unclosed = false ∧
        (stateMachine env s i srcIp destIp p).connections i = {} := by
  have hsame {t : State} (ht : t.connections = s.connections) :
      Handled p (s.connections i) (t.connections i) := by
    rw [ht]
    exact .refl ..
  unfold stateMachine
  cases hstate : (s.connections i).state with
  | closed =>
    refine .inl ?_
    dsimp only
    split_ifs
    · exact .refl ..
    · exact hsame (by simp)
  | listen => exact absurd hstate hlisten
  | synSent =>
    refine .inl ?_
    simp only [receiveSynSent]
    split_ifs
    · exact .refl ..
    · exact hsame (by simp)
    · constructor <;> simp [hstate, TcpState.unclosed]
    all_goals first
      | exact .refl ..
      | refine Handled.sent env _ i p ?_ (by simp) _ _
        constructor <;> simp_all [TcpState.unclosed, Tcb.Accepts]
  | synReceived =>
    refine .inl ?_
    simp only [receiveSynReceived]
    split_ifs
    · constructor <;> simp [TcpState.unclosed]
    · constructor <;> simp_all [TcpState.unclosed, Tcb.Accepts]
    · exact .refl ..
  | established => exact .inl (handled_established env s i p hstate)
  | finWait1 =>
    refine .inl ?_
    simp only [receiveFinWait1, enterTimeWait, takeFin]
    split_ifs <;> constructor <;> simp [TcpState.unclosed, hstate]
  | finWait2 =>
    refine .inl ?_
    simp only [receiveFinWait2, enterTimeWait, takeFin]
    split_ifs <;> constructor <;> simp [TcpState.unclosed, hstate]
  | closeWait => exact .inl (.refl ..)
  | closing =>
    refine .inl ?_
    dsimp only [enterTimeWait]
    split_ifs <;> constructor <;> simp [TcpState.unclosed, hstate]
  | lastAck =>
    dsimp only
    split_ifs
    · exact .inr ⟨rfl, by simp⟩
    · exact .inl (.refl ..)
  | timeWait =>
    simp only [receiveTimeWait]
    split_ifs
    · exact .inr ⟨rfl, by simp⟩
    · exact .inl (.refl ..)

theorem blockKept_stateMachine (srcIp destIp : BitVec 32)
    (hlisten : (s.connections i).state ≠ .listen) :
    BlockKept (s.connections i) ((stateMachine env s i srcIp destIp p).connections i) := by
  obtain h | ⟨hclosing, hfree⟩ := handled_stateMachine env s i p srcIp destIp hlisten
  · exact .of_fields h.inUse h.parent h.unclosed
  · rw [hfree]
    exact ⟨by simp, by simp [hclosing]⟩

inductive Listened (s : State) (i : Nat) (syn : Bool) (s' : State) : Prop
  | nothing (same : ∀ j, (s.connections j).inUse = true → s'.connections j = s.connections j)
      (free : ∀ j, (s.connections j).inUse = false → (s'.connections j).inUse = false)
  | created {j : Nat} (asked : syn = true) (lt : j < maxConnections)
      (free : (s.connections j).inUse = false) (inUse : (s'.connections j).inUse = true)
      (parent : (s'.connections j).parentSocket = i)
      (state : (s'.connections j).state = .synReceived)
      (others : ∀ k, k ≠ i → k ≠ j → s'.connections k = s.connections k)
      (listener : s'.connections i = { s.connections i with pendingConnections :=
        if ((s.connections i).pendingConnections.length : Int) < (s.connections i).backlog then
          (s.connections i).pendingConnections ++ [j]
        else (s.connections i).pendingConnections })

theorem receiveListen_listened (hi : (s.connections i).inUse = true) (srcIp destIp : BitVec 32) :
    Listened s i (has p.flags flagSyn) (receiveListen env s i srcIp destIp p) := by
  obtain h | ⟨j, hlt, hfree, t, -, hcases⟩ := receiveListen_cases env s i srcIp destIp p
  · rw [h]
    exact .nothing (fun _ _ => rfl) (fun _ h => h)
  have hne {k : Nat} (hk : (s.connections k).inUse = true) : k ≠ j := by
    rintro rfl
    rw [hk] at hfree
    cases hfree
  have hij := hne hi
  obtain ⟨hconn, h⟩ | ⟨hsyn, ⟨iss, hconn⟩, h⟩ := hcases <;> rw [h]
  · refine .nothing (fun k hk => by simp [hconn, hne hk]) fun k hk => ?_
    by_cases hkj : k = j
    · simp [hconn, hkj]
    · simp [hconn, hkj, hk]
  · refine .created hsyn hlt hfree ?_ ?_ ?_ (fun k hki hkj => ?_) ?_
    · simp [Ne.symm hij, hconn]
    · simp [Ne.symm hij, hconn]
    · simp [Ne.symm hij, hconn]
    · simp [hki, hkj, hconn]
    · simp [hij, hconn]

end

end TocinOS.Tcp

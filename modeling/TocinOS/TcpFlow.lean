import TocinOS.TcpHeader

/-! Flow control. `tcp_write` sends all that the send buffer takes, and the window of the peer is
stored in `snd_wnd` by the handshake and never looked at again; what keeps the bytes in flight below
the window is what the caller writes. -/

namespace TocinOS.Tcp.Flow

/-- The window that the peer has advertised last, and the payload bytes sent and acknowledged so far. -/
structure Config where
  state : State
  window : Nat
  sent : Nat
  acked : Nat

def Config.unacked (c : Config) : Nat := c.sent - c.acked

inductive Call where
  | write (data : List Byte)
  | receive (srcIp destIp : BitVec 32) (p : Packet)

def acknowledges (tcb : Tcb) (p : Packet) : Nat :=
  if tcb.acceptsAck p then (p.ack - tcb.sndUna).toNat else 0

def Config.call (env : Env) (i : Nat) (c : Config) : Call → Config
  | .write data =>
    let state := (tcpWrite env c.state i data).2
    { c with state, sent := c.sent + (carried state.sent - carried c.state.sent) }
  | .receive srcIp destIp p =>
    { c with
      state := (tcpReceive env c.state srcIp destIp p).2
      window := p.window.toNat
      acked := c.acked + acknowledges (c.state.connections i) p }

structure Acknowledgment (i : Nat) (s : State) (srcIp destIp : BitVec 32) (p : Packet) : Prop where
  length : headerMinSize ≤ p.length
  checksum : tcpChecksum srcIp destIp p.byte p.length = 0
  find : tcpFindConnection s destIp p.destPort srcIp p.srcPort = some i
  rst : has p.flags flagRst = false
  fin : has p.flags flagFin = false

def Call.Possible (i : Nat) (c : Config) : Call → Prop
  | .write data => data.length < 65536
  | .receive srcIp destIp p => Acknowledgment i c.state srcIp destIp p

/-- A write is no longer than what the window leaves, and the peer acknowledges only what was sent and
takes back no space that is in use. -/
def Call.Fits (i : Nat) (c : Config) : Call → Prop
  | .write data => c.unacked + data.length ≤ c.window
  | .receive _ _ p => acknowledges (c.state.connections i) p ≤ c.unacked ∧
      c.unacked - acknowledges (c.state.connections i) p ≤ p.window.toNat

def Step (env : Env) (i : Nat) (c c' : Config) : Prop :=
  ∃ call : Call, call.Possible i c ∧ call.Fits i c ∧ c' = c.call env i call

structure Start (i : Nat) (c : Config) : Prop where
  ready : Ready c.state i []
  sequence : (c.state.connections i).sndNxt = (c.state.connections i).sndUna
  window : c.window < 65536
  sent : c.sent = 0
  acked : c.acked = 0

/-! ### Writes -/

theorem tcpSendSegment_send (env : Env) (s : State) (i j : Nat) (flags : Byte) (data : List Byte) :
    ((tcpSendSegment env s i flags data).connections j).send = (s.connections j).send := by
  obtain ⟨nxt, h⟩ := tcpSendSegment_frame env s i j flags data
  rw [h]

structure Advances (i : Nat) (s s' : State) (n : Nat) : Prop where
  carried : carried s'.sent = carried s.sent + n
  sndNxt : (s'.connections i).sndNxt = (s.connections i).sndNxt + BitVec.ofNat 32 n
  sndUna : (s'.connections i).sndUna = (s.connections i).sndUna

theorem Advances.none (i : Nat) (s : State) : Advances i s s 0 := ⟨rfl, (BitVec.add_zero _).symm, rfl⟩

variable {i : Nat} {s : State} {c : Config} {env : Env}

theorem Advances.trans {s' s'' : State} {n n' : Nat} (h : Advances i s s' n)
    (h' : Advances i s' s'' n') : Advances i s s'' (n + n') where
  carried := by rw [h'.carried, h.carried, Nat.add_assoc]
  sndNxt := by rw [h'.sndNxt, h.sndNxt, BitVec.ofNat_add, BitVec.add_assoc]
  sndUna := h'.sndUna.trans h.sndUna

theorem Advances.of_modify {s' : State} {f : Tcb → Tcb} {n : Nat}
    (h : Advances i (s.modify i f) s' n)
    (hnxt : (f (s.connections i)).sndNxt = (s.connections i).sndNxt)
    (huna : (f (s.connections i)).sndUna = (s.connections i).sndUna) : Advances i s s' n where
  carried := h.carried
  sndNxt := by rw [h.sndNxt, modify_connections_self, hnxt]
  sndUna := by rw [h.sndUna, modify_connections_self, huna]

theorem advances_segment (env : Env) (i : Nat) (s : State) {flags : Byte} (data : List Byte)
    (hsyn : has flags flagSyn = false) (hfin : has flags flagFin = false) :
    ∃ n ≤ data.length, Advances i s (tcpSendSegment env s i flags data) n := by
  by_cases h : SendsNext env s
  · refine ⟨data.length, le_rfl, ?_⟩
    rw [tcpSendSegment_of_sends h]
    refine ⟨carried_append .., ?_, ?_⟩
    · simp [Tcb.advanceSndNxt, hsyn, hfin]
    · simp [Tcb.advanceSndNxt]
  · obtain ⟨hconnections, hsent⟩ := tcpSendSegment_of_fails h i flags data
    refine ⟨0, Nat.zero_le _, ?_, ?_, ?_⟩
    · rw [hsent, Nat.add_zero]
    · rw [hconnections, BitVec.add_zero]
    · rw [hconnections]

theorem advances_sendLoop (env : Env) (i rounds : Nat) (s : State) :
    ∃ n ≤ (s.connections i).send.count, Advances i s (sendLoop env i rounds s) n := by
  induction rounds generalizing s with
  | zero => exact ⟨0, Nat.zero_le _, Advances.none i s⟩
  | succ rounds ih =>
    rw [sendLoop]
    dsimp only
    split
    · exact ⟨0, Nat.zero_le _, Advances.none i s⟩
    · have hsize : (if (s.connections i).send.count > mss then mss else (s.connections i).send.count) ≤
          (s.connections i).send.count := by split <;> omega
      generalize (if (s.connections i).send.count > mss then mss else (s.connections i).send.count) = size
        at hsize
      set popped := (s.connections i).send.pop bufferSize size with hpopped
      have hlength : popped.1.length = size := RingBuffer.Buffer.length_drain ..
      have hcount : popped.2.count = (s.connections i).send.count - size := rfl
      obtain ⟨n, hn, hfirst⟩ := advances_segment env i (s.modify i fun tcb => { tcb with send := popped.2 })
        popped.1 (by decide : has (flagAck ||| flagPsh) flagSyn = false) (by decide)
      obtain ⟨n', hn', hrest⟩ := ih (tcpSendSegment env
        (s.modify i fun tcb => { tcb with send := popped.2 }) i (flagAck ||| flagPsh) popped.1)
      rw [tcpSendSegment_send, modify_connections_self] at hn'
      rw [hlength] at hn
      dsimp only at hn'
      exact ⟨n + n', by omega, (hfirst.trans hrest).of_modify rfl rfl⟩

theorem advances_tcpWrite (env : Env) (hi : i < maxConnections) (h : Ready s i [])
    {data : List Byte} (hlen : data.length < 65536) : Ready (tcpWrite env s i data).2 i [] ∧
      ∃ n ≤ data.length, Advances i s (tcpWrite env s i data).2 n := by
  by_cases hdata : data = []
  · have hcall : tcpWrite env s i data = (none, s) := by simp [tcpWrite, hdata]
    rw [hcall]
    exact ⟨h, 0, Nat.zero_le _, Advances.none i s⟩
  · refine ⟨(tcpWrite_outcome env hi h hlen hdata).2.1, ?_⟩
    have hvalid : ¬ ((i : Int) < 0 ∨ (i : Int) ≥ maxConnections) := by omega
    have hpos : data.length ≠ 0 := by simpa using hdata
    have hcount : (s.connections i).send.count = 0 := h.holds.count_eq
    have hopen : (!(s.connections i).inUse || (s.connections i).state != .established) = false := by
      rw [h.inUse, h.state]
      rfl
    rw [tcpWrite, if_neg hvalid, if_neg hpos, Int.toNat_natCast]
    dsimp only
    rw [hopen, if_neg Bool.false_ne_true]
    generalize hto : (if data.length < bufferSize - (s.connections i).send.count then data.length
      else bufferSize - (s.connections i).send.count) = toSend
    obtain ⟨n, hn, hadvance⟩ := advances_sendLoop env i
      ((s.modify i fun tcb => { tcb with send := tcb.send.push bufferSize (data.take toSend) }).connections
        i).send.count
      (s.modify i fun tcb => { tcb with send := tcb.send.push bufferSize (data.take toSend) })
    refine ⟨n, hn.trans ?_, hadvance.of_modify rfl rfl⟩
    rw [modify_connections_self]
    simp [RingBuffer.Buffer.push, hcount]

/-! ### Acknowledgments -/

theorem advances_processData (env : Env) (i : Nat) (s : State) (p : Packet) :
    Advances i s (processData env s i p) 0 := by
  rw [processData]
  split
  · obtain ⟨n, hn, hadvance⟩ := advances_segment env i
      (s.modify i fun tcb => tcb.store (p.data (tcb.copySize p))) [] (by decide : has flagAck flagSyn = false)
      (by decide)
    obtain rfl : n = 0 := Nat.le_zero.mp hn
    exact hadvance.of_modify rfl rfl
  · exact Advances.none i s

theorem Ready.processData {q : List Byte} (h : Ready s i q) (env : Env) (p : Packet) :
    Ready (processData env s i p) i q := by
  rw [Tcp.processData]
  split
  · have hstored : Ready (s.modify i fun tcb => tcb.store (p.data (tcb.copySize p))) i q := by
      constructor
      · simpa [Tcb.store] using h.inUse
      · simpa [Tcb.store] using h.state
      · simpa [Tcb.store] using h.holds
    exact hstored.tcpSendSegment env _ _
  · exact h

theorem takeAck_sndUna (tcb : Tcb) (p : Packet) :
    (tcb.takeAck p).sndUna = tcb.sndUna + BitVec.ofNat 32 (acknowledges tcb p) := by
  rw [Tcb.takeAck, acknowledges, Tcb.acceptsAck]
  split
  · rw [BitVec.ofNat_toNat, BitVec.setWidth_eq, BitVec.add_comm, BitVec.sub_add_cancel]
  · rw [BitVec.add_zero]

theorem takeAck_kept (tcb : Tcb) (p : Packet) :
    (tcb.takeAck p).sndNxt = tcb.sndNxt ∧ (tcb.takeAck p).send = tcb.send := by
  rw [Tcb.takeAck]
  split <;> exact ⟨rfl, rfl⟩

theorem Acknowledgment.run (env : Env) {srcIp destIp : BitVec 32} {p : Packet}
    (h : Acknowledgment i s srcIp destIp p) (hstate : (s.connections i).state = .established) :
    (tcpReceive env s srcIp destIp p).2 =
      processData env (s.modify i fun tcb => tcb.takeAck p) i p := by
  have hlength : ¬ p.length < headerMinSize := not_lt.mpr h.length
  rw [tcpReceive, if_neg hlength, if_neg (not_not.mpr h.checksum), h.find]
  dsimp only
  rw [stateMachine, hstate]
  dsimp only
  rw [receiveEstablished, h.rst, processFin, h.fin]
  rfl

/-! ### Runs -/

/-- The bytes in flight are those between `snd_una` and `snd_nxt`, and the window covers them. -/
structure Inv (i : Nat) (c : Config) : Prop where
  ready : Ready c.state i []
  sequence : (c.state.connections i).sndNxt =
    (c.state.connections i).sndUna + BitVec.ofNat 32 c.unacked
  counted : c.acked ≤ c.sent
  covered : c.unacked ≤ c.window
  window : c.window < 65536

theorem Start.inv (h : Start i c) : Inv i c where
  ready := h.ready
  sequence := by rw [h.sequence, Config.unacked, h.sent, h.acked, BitVec.add_zero]
  counted := by rw [h.sent, h.acked]
  covered := by
    rw [Config.unacked, h.sent, Nat.zero_sub]
    exact Nat.zero_le _
  window := h.window

theorem Inv.write (hi : i < maxConnections) (h : Inv i c) {data : List Byte}
    (hlen : data.length < 65536) (hfits : c.unacked + data.length ≤ c.window) :
    Inv i (c.call env i (.write data)) := by
  obtain ⟨hready, n, hn, hadvance⟩ := advances_tcpWrite env hi h.ready hlen
  have hcounted := h.counted
  have hsent : (c.call env i (.write data)).sent = c.sent + n := by
    rw [Config.call]
    dsimp only
    rw [hadvance.carried, Nat.add_sub_cancel_left]
  have hunacked : (c.call env i (.write data)).unacked = c.unacked + n := by
    rw [Config.unacked, hsent, Config.unacked]
    exact Nat.sub_add_comm hcounted
  refine ⟨hready, ?_, ?_, ?_, h.window⟩
  · rw [hunacked, BitVec.ofNat_add, ← BitVec.add_assoc]
    exact hadvance.sndNxt.trans (by rw [h.sequence, ← hadvance.sndUna]; rfl)
  · rw [hsent]
    exact hcounted.trans (Nat.le_add_right ..)
  · rw [hunacked]
    exact (Nat.add_le_add_left hn _).trans hfits

theorem Inv.receive (h : Inv i c) {srcIp destIp : BitVec 32} {p : Packet}
    (hack : Acknowledgment i c.state srcIp destIp p)
    (hfits : (Call.receive srcIp destIp p).Fits i c) :
    Inv i (c.call env i (.receive srcIp destIp p)) := by
  obtain ⟨hsent, hwindow⟩ := hfits
  have hstate := hack.run env h.ready.state
  obtain ⟨huse, hopen, -⟩ := takeAck_fields (c.state.connections i) p
  obtain ⟨hnxt, hsend⟩ := takeAck_kept (c.state.connections i) p
  have htaken : Ready (c.state.modify i fun tcb => tcb.takeAck p) i [] := by
    refine ⟨?_, ?_, ?_⟩
    · rw [modify_connections_self, huse, h.ready.inUse]
    · rw [modify_connections_self, hopen, h.ready.state]
    · rw [modify_connections_self, hsend]
      exact h.ready.holds
  have hadvance := advances_processData env i (c.state.modify i fun tcb => tcb.takeAck p) p
  have hcounted := h.counted
  have hunacked : (c.call env i (.receive srcIp destIp p)).unacked =
      c.unacked - acknowledges (c.state.connections i) p := Nat.sub_add_eq ..
  have hsplit : c.unacked = acknowledges (c.state.connections i) p +
      (c.unacked - acknowledges (c.state.connections i) p) := (Nat.add_sub_cancel' hsent).symm
  refine ⟨?_, ?_, ?_, ?_, ?_⟩
  · rw [Config.call]
    dsimp only
    rw [hstate]
    exact Ready.processData htaken env p
  · rw [hunacked, Config.call]
    dsimp only
    rw [hstate, hadvance.sndNxt, hadvance.sndUna, modify_connections_self, hnxt, takeAck_sndUna,
      h.sequence, BitVec.add_zero, BitVec.add_assoc, ← BitVec.ofNat_add, ← hsplit]
  · rw [Config.unacked] at hsent
    exact (Nat.add_le_add_left hsent _).trans (Nat.add_sub_cancel' hcounted).le
  · rw [hunacked]
    exact hwindow
  · exact p.window.isLt

theorem Inv.run (hi : i < maxConnections) {c' : Config} (h : Inv i c)
    (hrun : Relation.ReflTransGen (Step env i) c c') : Inv i c' := by
  induction hrun with
  | refl => exact h
  | tail _ hstep ih =>
    obtain ⟨call, hpossible, hfits, rfl⟩ := hstep
    cases call with
    | write data => exact ih.write hi hpossible hfits
    | receive srcIp destIp p => exact ih.receive hpossible hfits

/-- In every run whose writes fit the window, and whose segments take back none of it that is in use,
the bytes in flight stay within the window advertised last. -/
theorem flight_within_window {env : Env} {i : Nat} (hi : i < maxConnections) {c c' : Config}
    (hstart : Start i c) (hrun : Relation.ReflTransGen (Step env i) c c') :
    c'.unacked ≤ c'.window ∧
      (c'.state.connections i).sndNxt - (c'.state.connections i).sndUna = BitVec.ofNat 32 c'.unacked := by
  have h := hstart.inv.run hi hrun
  refine ⟨h.covered, ?_⟩
  rw [h.sequence, BitVec.add_comm, BitVec.add_sub_cancel]

def narrow (window : BitVec 16) : Config where
  state :=
    { connections := fun i =>
        if i = 0 then
          { inUse := true, state := .established, localIp := 1, localPort := 80
            remoteIp := 2, remotePort := 1000, rcvNxt := 1, rcvWnd := windowSize
            sndUna := 1, sndNxt := 1, sndWnd := window.setWidth 32 }
        else {} }
  window := window.toNat
  sent := 0
  acked := 0

theorem narrow_start (window : BitVec 16) : Start 0 (narrow window) where
  ready := ⟨rfl, rfl, RingBuffer.holds_empty (by decide) _⟩
  sequence := rfl
  window := window.isLt
  sent := rfl
  acked := rfl

/-- The other end of the connection: it has taken the first byte and has room for one more. -/
def peerTcb : Tcb :=
  { localIp := 2, localPort := 1000, remoteIp := 1, remotePort := 80, sndNxt := 1, rcvNxt := 2, rcvWnd := 1 }

def firstTaken : Packet where
  length := 20
  byte := fun k => (peerTcb.segment flagAck []).bytes.getD k 0
  length_lt := finPacket.length_lt

def oneLeft : Config :=
  ((narrow 2).call reliableEnv 0 (.write [0x61, 0x62])).call reliableEnv 0 (.receive 2 1 firstTaken)

theorem two_bytes_within_window : oneLeft.unacked = 1 ∧ oneLeft.unacked ≤ oneLeft.window := by
  have hrun : Relation.ReflTransGen (Step reliableEnv 0) (narrow 2) oneLeft := by
    refine .tail (.single ⟨.write [0x61, 0x62], ?_, ?_, rfl⟩) ⟨.receive 2 1 firstTaken, ?_, ?_, rfl⟩
    · show 2 < 65536
      decide
    · show _ ≤ _
      decide
    · exact ⟨by decide, by decide +kernel, by decide +kernel, by decide, by decide⟩
    · exact ⟨by decide +kernel, by decide +kernel⟩
  exact ⟨by decide +kernel, (flight_within_window (by decide) (narrow_start 2) hrun).1⟩

/-- The peer has room for one byte and is sent two. -/
theorem window_overrun : Start 0 (narrow 1) ∧
    ((narrow 1).state.connections 0).sndWnd = 1 ∧
    (Call.write [0x61, 0x62]).Possible 0 (narrow 1) ∧
    ((narrow 1).call reliableEnv 0 (.write [0x61, 0x62])).window = 1 ∧
    ((narrow 1).call reliableEnv 0 (.write [0x61, 0x62])).unacked = 2 := by
  refine ⟨narrow_start 1, rfl, ?_, rfl, by decide +kernel⟩
  show 2 < 65536
  decide

end TocinOS.Tcp.Flow

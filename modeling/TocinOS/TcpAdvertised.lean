import TocinOS.TcpHeader

/-! The window field. `rcv_wnd` has 32 bits and is set to the free space of the receive buffer each
time data enters or leaves; on the wire 16 bits of it are left, so the 65536 free bytes of a buffer
that has been read empty become a window of zero. -/

namespace TocinOS.Tcp.Advertise

inductive Call where
  | receive (srcIp destIp : BitVec 32) (p : Packet)
  | read (sockfd : Int) (maxLength : Nat)
  | write (sockfd : Int) (data : List Byte)
  | close (sockfd : Int)

def Call.run (env : Env) (s : State) : Call → State
  | .receive srcIp destIp p => (tcpReceive env s srcIp destIp p).2
  | .read sockfd maxLength => (tcpRead s sockfd maxLength).2
  | .write sockfd data => (tcpWrite env s sockfd data).2
  | .close sockfd => tcpCloseSocket env s sockfd

/-! ### Segments and blocks -/

def free (tcb : Tcb) : Nat := bufferSize - tcb.recv.count

structure Carries (tcb : Tcb) (seg : Segment) : Prop where
  srcIp : seg.srcIp = tcb.localIp
  destIp : seg.destIp = tcb.remoteIp
  srcPort : seg.srcPort = tcb.localPort
  destPort : seg.destPort = tcb.remotePort
  window : seg.window = tcb.rcvWnd.setWidth 16

structure Keeps (tcb tcb' : Tcb) : Prop where
  inUse : tcb'.inUse = tcb.inUse
  localIp : tcb'.localIp = tcb.localIp
  localPort : tcb'.localPort = tcb.localPort
  remoteIp : tcb'.remoteIp = tcb.remoteIp
  remotePort : tcb'.remotePort = tcb.remotePort
  rcvWnd : tcb'.rcvWnd = tcb.rcvWnd
  recv : tcb'.recv = tcb.recv

theorem Keeps.refl (tcb : Tcb) : Keeps tcb tcb := ⟨rfl, rfl, rfl, rfl, rfl, rfl, rfl⟩

theorem Keeps.of_eq {a b : Tcb} (h : b = a) : Keeps a b := h ▸ .refl a

theorem Keeps.trans {a b c : Tcb} (h : Keeps a b) (h' : Keeps b c) : Keeps a c :=
  ⟨h'.inUse.trans h.inUse, h'.localIp.trans h.localIp, h'.localPort.trans h.localPort,
    h'.remoteIp.trans h.remoteIp, h'.remotePort.trans h.remotePort, h'.rcvWnd.trans h.rcvWnd,
    h'.recv.trans h.recv⟩

variable {tcb tcb' : Tcb} {f : Tcb → Tcb}

theorem Carries.keep {seg : Segment} (h : Carries tcb seg) (hk : Keeps tcb tcb') :
    Carries tcb' seg :=
  ⟨h.srcIp.trans hk.localIp.symm, h.destIp.trans hk.remoteIp.symm, h.srcPort.trans hk.localPort.symm,
    h.destPort.trans hk.remotePort.symm, h.window.trans (congrArg _ hk.rcvWnd.symm)⟩

theorem carries_segment (tcb : Tcb) (flags : Byte) (data : List Byte) :
    Carries tcb (tcb.segment flags data) := ⟨rfl, rfl, rfl, rfl, rfl⟩

variable {env : Env} {s t u : State} {i k : Nat}

theorem keeps_send (env : Env) (s : State) (i k : Nat) (flags : Byte) (data : List Byte) :
    Keeps (s.connections k) ((tcpSendSegment env s i flags data).connections k) := by
  obtain ⟨nxt, h⟩ := tcpSendSegment_frame env s i k flags data
  rw [h]
  exact ⟨rfl, rfl, rfl, rfl, rfl, rfl, rfl⟩

theorem keeps_modify (hf : ∀ tcb, Keeps tcb (f tcb)) (s : State) (i k : Nat) :
    Keeps (s.connections k) ((s.modify i f).connections k) := by
  by_cases hki : k = i
  · subst hki
    rw [modify_connections_self]
    exact hf _
  · rw [modify_connections_of_ne s f hki]
    exact .refl _

theorem keeps_modify_send (hf : ∀ tcb, Keeps tcb (f tcb)) (env : Env) (s : State) (i k : Nat)
    (flags : Byte) (data : List Byte) :
    Keeps (s.connections k) ((tcpSendSegment env (s.modify i f) i flags data).connections k) :=
  (keeps_modify hf s i k).trans (keeps_send ..)

theorem modify_modify (s : State) (i : Nat) (f g : Tcb → Tcb) :
    (s.modify i f).modify i g = s.modify i fun tcb => g (f tcb) := by
  simp [State.modify]

/-! ### What a call sends -/

def Speaks (i : Nat) (s t : State) : Prop :=
  ∃ segs, t.sent = s.sent ++ segs ∧ ∀ seg ∈ segs, Carries (t.connections i) seg

theorem Speaks.silent (h : t.sent = s.sent) : Speaks i s t := ⟨[], by simpa using h, fun _ h => nomatch h⟩

theorem Speaks.trans (h : Speaks i s t) (h' : Speaks i t u) (hk : Keeps (t.connections i) (u.connections i)) :
    Speaks i s u := by
  obtain ⟨segs, hsent, hall⟩ := h
  obtain ⟨segs', hsent', hall'⟩ := h'
  refine ⟨segs ++ segs', by rw [hsent', hsent, List.append_assoc], fun seg hseg => ?_⟩
  rcases List.mem_append.mp hseg with hseg | hseg
  · exact (hall seg hseg).keep hk
  · exact hall' seg hseg

theorem Speaks.keep (h : Speaks i s t) (hk : Keeps (t.connections i) (u.connections i))
    (hsent : u.sent = t.sent) : Speaks i s u :=
  h.trans (.silent hsent) hk

theorem speaks_send (env : Env) (s : State) (i : Nat) (flags : Byte) (data : List Byte) :
    Speaks i s (tcpSendSegment env s i flags data) := by
  by_cases h : SendsNext env s
  · refine ⟨[(s.connections i).segment flags data], by rw [tcpSendSegment_of_sends h], fun seg hseg => ?_⟩
    obtain rfl := List.mem_singleton.mp hseg
    exact (carries_segment ..).keep (keeps_send ..)
  · exact .silent (tcpSendSegment_of_fails h i flags data).2

theorem speaks_modify_send (env : Env) (s : State) (i : Nat) (f : Tcb → Tcb) (flags : Byte)
    (data : List Byte) : Speaks i s (tcpSendSegment env (s.modify i f) i flags data) :=
  speaks_send env (s.modify i f) i flags data

theorem speaks_sendLoop (env : Env) (i rounds : Nat) (s : State) :
    Speaks i s (sendLoop env i rounds s) ∧
      ∀ k, Keeps (s.connections k) ((sendLoop env i rounds s).connections k) := by
  induction rounds generalizing s with
  | zero => exact ⟨.silent rfl, fun k => .refl _⟩
  | succ rounds ih =>
    rw [sendLoop]
    dsimp only
    split
    · exact ⟨.silent rfl, fun k => .refl _⟩
    · generalize (if (s.connections i).send.count > mss then mss else (s.connections i).send.count) = size
      generalize (s.connections i).send.pop bufferSize size = popped
      have hfirst := speaks_modify_send env s i (fun tcb => { tcb with send := popped.2 })
        (flagAck ||| flagPsh) popped.1
      have hkeeps (k : Nat) := keeps_modify_send (f := fun tcb => { tcb with send := popped.2 })
        (fun tcb => ⟨rfl, rfl, rfl, rfl, rfl, rfl, rfl⟩) env s i k (flagAck ||| flagPsh) popped.1
      obtain ⟨hrest, hkeepsRest⟩ := ih (tcpSendSegment env
        (s.modify i fun tcb => { tcb with send := popped.2 }) i (flagAck ||| flagPsh) popped.1)
      exact ⟨hfirst.trans hrest (hkeepsRest i), fun k => (hkeeps k).trans (hkeepsRest k)⟩

/-! ### Windows -/

/-- The window is the free space, or it is the one that `tcp_alloc_tcb` sets for an empty buffer. -/
def Measured (tcb : Tcb) : Prop :=
  tcb.rcvWnd = BitVec.ofNat 32 (free tcb) ∨ tcb.rcvWnd = windowSize ∧ tcb.recv.count = 0

/-- The buffer is empty and its window is not the first one: `tcp_read` has taken the last byte, and
nothing has arrived since. -/
def Drained (tcb : Tcb) : Prop := tcb.recv.count = 0 ∧ tcb.rcvWnd ≠ windowSize

theorem Measured.keep (h : Measured tcb) (hk : Keeps tcb tcb') : Measured tcb' := by
  rw [Measured, free, hk.rcvWnd, hk.recv]
  exact h

theorem Drained.keep (hk : Keeps tcb tcb') : Drained tcb' ↔ Drained tcb := by
  rw [Drained, Drained, hk.rcvWnd, hk.recv]

structure Spoken (asked : Nat → Prop) (s s' : State) (seg : Segment) (k : Nat) : Prop where
  inUse : (s'.connections k).inUse = true
  carries : Carries (s'.connections k) seg
  window : Measured (s'.connections k) ∧ ¬Drained (s'.connections k) ∨
    asked k ∧ Keeps (s.connections k) (s'.connections k)

/-- What a call does: the blocks that it asks for a segment answer with the window they have, all
others with one that has just been set. A reset has no window, and changes no block. -/
structure Told (asked : Nat → Prop) (resets : Prop) (s s' : State) : Prop where
  segments : ∃ segs, s'.sent = s.sent ++ segs ∧ ∀ seg ∈ segs,
    (resets ∧ seg.window = 0 ∧ ∀ k, Keeps (s.connections k) (s'.connections k)) ∨ ∃ k, Spoken asked s s' seg k
  windows : ∀ k, (s'.connections k).inUse = true →
    Keeps (s.connections k) (s'.connections k) ∨ Measured (s'.connections k)

variable {asked : Nat → Prop} {resets : Prop} {p : Packet}

theorem Told.of_block (hothers : ∀ k ≠ i, Keeps (s.connections k) (t.connections k)) (hspeaks : Speaks i s t)
    (hwindow : (t.connections i).inUse = true →
      Keeps (s.connections i) (t.connections i) ∨ Measured (t.connections i))
    (hsends : t.sent = s.sent ∨ (t.connections i).inUse = true ∧
      (Measured (t.connections i) ∧ ¬Drained (t.connections i) ∨
        asked i ∧ Keeps (s.connections i) (t.connections i))) : Told asked resets s t where
  segments := by
    rcases hsends with hsilent | ⟨hin, hnew⟩
    · exact ⟨[], by simpa using hsilent, fun _ h => nomatch h⟩
    · obtain ⟨segs, hsent, hall⟩ := hspeaks
      exact ⟨segs, hsent, fun seg hseg => .inr ⟨i, hin, hall seg hseg, hnew⟩⟩
  windows := by
    intro k hk
    by_cases hki : k = i
    · subst hki
      exact hwindow hk
    · exact .inl (hothers k hki)

theorem Told.of_keeps (hothers : ∀ k ≠ i, Keeps (s.connections k) (t.connections k)) (hspeaks : Speaks i s t)
    (hi : (s.connections i).inUse = true) (hk : Keeps (s.connections i) (t.connections i))
    (hasked : t.sent = s.sent ∨ asked i) : Told asked resets s t :=
  .of_block hothers hspeaks (fun _ => .inl hk)
    (hasked.imp_right fun h => ⟨hk.inUse.trans hi, .inr ⟨h, hk⟩⟩)

theorem Told.silent (hsame : t.connections = s.connections) (hsent : t.sent = s.sent) : Told asked resets s t where
  segments := ⟨[], by simpa using hsent, fun _ h => nomatch h⟩
  windows := fun k _ => .inl (.of_eq (by rw [hsame]))

theorem Told.released (hsent : t.sent = s.sent) (hothers : ∀ k ≠ i, Keeps (s.connections k) (t.connections k))
    (hfree : (t.connections i).inUse = false) : Told asked resets s t :=
  .of_block hothers (.silent hsent) (fun h => absurd h (by simp [hfree])) (.inl hsent)

theorem told_reset (hresets : resets) (env : Env) (s : State) (srcIp : BitVec 32) (srcPort : BitVec 16) (destIp : BitVec 32)
    (destPort : BitVec 16) (seq ack : BitVec 32) :
    Told asked resets s (tcpSendRst env s srcIp srcPort destIp destPort seq ack) where
  segments := by
    rw [tcpSendRst, ipSendPacket]
    split
    · refine ⟨_, rfl, fun seg hseg => .inl ?_⟩
      obtain rfl := List.mem_singleton.mp hseg
      exact ⟨hresets, rfl, fun k => .refl _⟩
    · exact ⟨[], by simp, fun _ h => absurd h List.not_mem_nil⟩
  windows := fun k _ => .inl (.of_eq (by rw [tcpSendRst_connections]))

/-! ### Received segments -/

/-- The segment makes the block send one without storing data before. -/
def Answers (tcb : Tcb) (p : Packet) : Prop :=
  match tcb.state with
  | .synSent => has p.flags flagSyn = true
  | .established => has p.flags flagFin = true ∧ ¬(0 < p.dataLen ∧ p.seq = tcb.rcvNxt)
  | .finWait1 | .finWait2 => has p.flags flagFin = true
  | _ => False

/-- The segment makes the block send a reset. -/
def Refuses (tcb : Tcb) (p : Packet) : Prop :=
  has p.flags flagRst = false ∧
    match tcb.state with
    | .closed => True
    | .synSent => has p.flags flagAck = true ∧ (seqLe p.ack tcb.iss = true ∨ seqGt p.ack tcb.sndNxt = true)
    | _ => False

theorem keeps_takeAck (tcb : Tcb) (p : Packet) : Keeps tcb (tcb.takeAck p) := by
  rw [Tcb.takeAck]
  split
  · exact ⟨rfl, rfl, rfl, rfl, rfl, rfl, rfl⟩
  · exact .refl _

theorem keeps_processFin (env : Env) (s : State) (i k : Nat) (p : Packet) :
    Keeps (s.connections k) ((processFin env s i p).connections k) := by
  rw [processFin]
  split
  · apply keeps_modify_send
    exact fun tcb => ⟨rfl, rfl, rfl, rfl, rfl, rfl, rfl⟩
  · exact .refl _

theorem speaks_processFin (env : Env) (s : State) (i : Nat) (p : Packet) :
    Speaks i s (processFin env s i p) := by
  rw [processFin]
  split
  · exact speaks_modify_send ..
  · exact .silent rfl

theorem measured_store (tcb : Tcb) (hdata : 0 < p.dataLen) :
    Measured (tcb.store (p.data (tcb.copySize p))) ∧ ¬Drained (tcb.store (p.data (tcb.copySize p))) := by
  refine ⟨.inl rfl, fun hdrained => ?_⟩
  have hcount : tcb.recv.count + (p.data (tcb.copySize p)).length = 0 := hdrained.1
  have hsize : bufferSize = 65536 := rfl
  rw [Packet.length_data, Tcb.copySize_eq] at hcount
  omega

theorem told_established (hi : (s.connections i).inUse = true) (hstate : (s.connections i).state = .established)
    (hasked : Answers (s.connections i) p → asked i) : Told asked resets s (receiveEstablished env s i p) := by
  have hothers (k : Nat) (hk : k ≠ i) := Keeps.of_eq (receiveEstablished_of_ne env s hk p)
  have hack := keeps_modify (fun tcb => keeps_takeAck tcb p) s i i
  have hrcv : ((s.modify i fun tcb => tcb.takeAck p).connections i).rcvNxt = (s.connections i).rcvNxt := by
    rw [modify_connections_self, (takeAck_fields _ p).2.2.2.1]
  rw [receiveEstablished] at hothers ⊢
  cases hrst : has p.flags flagRst with
  | true =>
    rw [hrst, if_pos rfl] at hothers
    rw [if_pos rfl]
    refine .of_keeps hothers (.silent rfl) hi ?_ (.inl rfl)
    apply keeps_modify
    exact fun tcb => ⟨rfl, rfl, rfl, rfl, rfl, rfl, rfl⟩
  | false =>
    rw [hrst, if_neg Bool.false_ne_true] at hothers
    rw [if_neg Bool.false_ne_true]
    generalize hafter : s.modify i (fun tcb => tcb.takeAck p) = t at hothers hack hrcv ⊢
    have hin : (t.connections i).inUse = true := hack.inUse.trans hi
    have hsent : t.sent = s.sent := hafter ▸ rfl
    have hfin := keeps_processFin env (processData env t i p) i i p
    have hspeaks := speaks_processFin env (processData env t i p) i p
    by_cases hdata : 0 < p.dataLen ∧ p.seq = (s.connections i).rcvNxt
    · have hstored : processData env t i p = tcpSendSegment env
          (t.modify i fun tcb => tcb.store (p.data (tcb.copySize p))) i flagAck [] := by
        rw [processData, hrcv, if_pos hdata]
      have hkeeps := keeps_send env (t.modify i fun tcb => tcb.store (p.data (tcb.copySize p))) i i flagAck []
      rw [← hstored, modify_connections_self] at hkeeps
      obtain ⟨hmeasured, hfilled⟩ := measured_store (t.connections i) hdata.1
      have hlast := hkeeps.trans hfin
      have hfirst : Speaks i s (processData env t i p) := by
        rw [hstored, Speaks, ← hsent]
        exact speaks_modify_send ..
      refine .of_block hothers (hfirst.trans hspeaks hfin) (fun _ => .inr (hmeasured.keep hlast))
        (.inr ⟨hlast.inUse.trans hin, .inl ⟨hmeasured.keep hlast, fun h => hfilled ((Drained.keep hlast).mp h)⟩⟩)
    · have hnone : processData env t i p = t := by rw [processData, hrcv, if_neg hdata]
      rw [hnone] at hothers hfin hspeaks ⊢
      rw [Speaks, hsent] at hspeaks
      refine .of_keeps hothers hspeaks hi (hack.trans hfin) ?_
      cases hflag : has p.flags flagFin with
      | true =>
        refine .inr (hasked ?_)
        rw [Answers, hstate]
        exact ⟨hflag, hdata⟩
      | false =>
        refine .inl ?_
        rw [processFin, hflag]
        exact hsent

theorem told_created {j : Nat} (hsent : t.sent = s.sent)
    (hothers : ∀ k ≠ j, t.connections k = s.connections k) (hin : (t.connections j).inUse = true)
    (hwnd : (t.connections j).rcvWnd = windowSize) (hcount : (t.connections j).recv.count = 0)
    (hf : ∀ tcb, Keeps tcb (f tcb)) (flags : Byte) :
    Told asked resets s ((tcpSendSegment env t j flags []).modify i f) := by
  have hkeeps (k : Nat) : Keeps (t.connections k) (((tcpSendSegment env t j flags []).modify i f).connections k) :=
    (keeps_send env t j k flags []).trans (keeps_modify hf _ i k)
  have hmeasured : Measured (t.connections j) ∧ ¬Drained (t.connections j) :=
    ⟨.inr ⟨hwnd, hcount⟩, fun h => h.2 hwnd⟩
  obtain ⟨segs, hsegs, hall⟩ := (speaks_send env t j flags []).keep (keeps_modify hf _ i j) rfl
  refine ⟨⟨segs, hsegs.trans (by rw [hsent]), fun seg hseg => .inr ⟨j, (hkeeps j).inUse.trans hin, hall seg hseg,
    .inl ⟨hmeasured.1.keep (hkeeps j), fun h => hmeasured.2 ((Drained.keep (hkeeps j)).mp h)⟩⟩⟩, fun k hk => ?_⟩
  by_cases hkj : k = j
  · subst hkj
    exact .inr (hmeasured.1.keep (hkeeps k))
  · exact .inl (hothers k hkj ▸ hkeeps k)

theorem told_listen (srcIp destIp : BitVec 32) :
    Told asked resets s (receiveListen env s i srcIp destIp p) := by
  obtain h | ⟨j, -, -, t, hsent, ⟨hconn, h⟩ | ⟨-, ⟨iss, hconn⟩, h⟩⟩ :=
    receiveListen_cases env s i srcIp destIp p <;> rw [h]
  · exact .silent rfl rfl
  · refine .released hsent (i := j) (fun k hk => .of_eq ?_) ?_
    · simp [hconn, hk]
    · simp [hconn]
  · apply told_created hsent
    · intro k hk
      simp [hconn, hk]
    · simp [hconn]
    · simp [hconn]
    · simp [hconn]
    · exact fun tcb => ⟨rfl, rfl, rfl, rfl, rfl, rfl, rfl⟩

theorem told_modify_send (hf : ∀ tcb, Keeps tcb (f tcb)) (hi : (s.connections i).inUse = true)
    (hasked : asked i) (env : Env) (flags : Byte) (data : List Byte) :
    Told asked resets s (tcpSendSegment env (s.modify i f) i flags data) := by
  have hkeeps (k : Nat) := keeps_modify_send hf env s i k flags data
  exact .of_keeps (fun k _ => hkeeps k) (speaks_modify_send ..) hi (hkeeps i) (.inr hasked)

theorem told_modify (hf : ∀ tcb, Keeps tcb (f tcb)) (hi : (s.connections i).inUse = true) :
    Told asked resets s (s.modify i f) :=
  .of_keeps (fun k _ => keeps_modify hf s i k) (.silent rfl) hi (keeps_modify hf ..) (.inl rfl)

theorem told_synSent (hi : (s.connections i).inUse = true) (hstate : (s.connections i).state = .synSent)
    (hasked : Answers (s.connections i) p → asked i) (hresets : Refuses (s.connections i) p → resets)
    (srcIp destIp : BitVec 32) : Told asked resets s (receiveSynSent env s i srcIp destIp p) := by
  rw [receiveSynSent]
  dsimp only
  split
  · next hack =>
    split
    · exact .silent rfl rfl
    · next hrst =>
      rw [Bool.and_eq_true, Bool.or_eq_true] at hack
      refine told_reset (hresets ⟨Bool.eq_false_of_not_eq_true hrst, ?_⟩) ..
      rw [hstate]
      exact hack
  split
  · apply told_modify _ hi
    exact fun tcb => ⟨rfl, rfl, rfl, rfl, rfl, rfl, rfl⟩
  split
  · next hsyn =>
    have hask : asked i := hasked (by rw [Answers, hstate]; exact hsyn)
    generalize seqGt _ _ = opened
    cases opened with
    | true =>
      rw [if_pos rfl, modify_modify]
      apply told_modify_send _ hi hask
      exact fun tcb => ⟨rfl, rfl, rfl, rfl, rfl, rfl, rfl⟩
    | false =>
      rw [if_neg Bool.false_ne_true, modify_modify]
      apply told_modify_send _ hi hask
      exact fun tcb => ⟨rfl, rfl, rfl, rfl, rfl, rfl, rfl⟩
  · exact .silent rfl rfl

theorem Told.keep (h : Told asked resets s t) (hkeeps : ∀ k, Keeps (t.connections k) (u.connections k))
    (hsame : u.sent = t.sent) : Told asked resets s u := by
  obtain ⟨segs, hsent, hall⟩ := h.segments
  refine ⟨⟨segs, hsame.trans hsent, fun seg hseg => (hall seg hseg).imp ?_ ?_⟩, fun k hk => ?_⟩
  · exact fun ⟨hresets, hzero, hold⟩ => ⟨hresets, hzero, fun k => (hold k).trans (hkeeps k)⟩
  · rintro ⟨k, hspoken⟩
    refine ⟨k, (hkeeps k).inUse.trans hspoken.inUse, hspoken.carries.keep (hkeeps k), hspoken.window.imp ?_ ?_⟩
    · exact fun hnew => ⟨hnew.1.keep (hkeeps k), fun hd => hnew.2 ((Drained.keep (hkeeps k)).mp hd)⟩
    · exact fun hold => ⟨hold.1, hold.2.trans (hkeeps k)⟩
  · exact (h.windows k ((hkeeps k).inUse.symm.trans hk)).imp (fun hold => hold.trans (hkeeps k))
      fun hm => hm.keep (hkeeps k)

theorem Told.after (h : Told asked resets t u) (hkeeps : ∀ k, Keeps (s.connections k) (t.connections k))
    (hsame : t.sent = s.sent) : Told asked resets s u := by
  obtain ⟨segs, hsent, hall⟩ := h.segments
  refine ⟨⟨segs, hsent.trans (by rw [hsame]), fun seg hseg => (hall seg hseg).imp ?_ ?_⟩, fun k hk => ?_⟩
  · exact fun ⟨hresets, hzero, hold⟩ => ⟨hresets, hzero, fun k => (hkeeps k).trans (hold k)⟩
  · rintro ⟨k, hspoken⟩
    exact ⟨k, hspoken.inUse, hspoken.carries, hspoken.window.imp_right fun hold => ⟨hold.1, (hkeeps k).trans hold.2⟩⟩
  · exact (h.windows k hk).imp_left fun hold => (hkeeps k).trans hold

theorem told_enterTimeWait (h : Told asked resets s t) : Told asked resets s (enterTimeWait env t i) := by
  refine h.keep (fun k => ?_) rfl
  exact keeps_modify (f := fun tcb => { tcb with state := .timeWait, timeWaitStart := env.ticks t.readings })
    (fun tcb => ⟨rfl, rfl, rfl, rfl, rfl, rfl, rfl⟩) { t with readings := t.readings + 1 } i k

theorem told_takeFin (hi : (s.connections i).inUse = true) (hasked : asked i) :
    Told asked resets s (takeFin env s i p) := by
  apply told_modify_send _ hi hasked
  exact fun tcb => ⟨rfl, rfl, rfl, rfl, rfl, rfl, rfl⟩

theorem told_finWait1 (hi : (s.connections i).inUse = true)
    (hasked : has p.flags flagFin = true → asked i) : Told asked resets s (receiveFinWait1 env s i p) := by
  rw [receiveFinWait1]
  generalize (has p.flags flagAck && p.ack == (s.connections i).sndNxt) = acked
  have hwait (k : Nat) : Keeps (s.connections k)
      ((s.modify i fun tcb => { tcb with state := .finWait2 }).connections k) := by
    apply keeps_modify
    exact fun tcb => ⟨rfl, rfl, rfl, rfl, rfl, rfl, rfl⟩
  cases hfin : has p.flags flagFin with
  | false =>
    cases acked with
    | true => exact .keep (.silent rfl rfl) hwait rfl
    | false => exact .silent rfl rfl
  | true =>
    cases acked with
    | true =>
      refine told_enterTimeWait (Told.after ?_ hwait rfl)
      exact told_takeFin ((hwait i).inUse.trans hi) (hasked hfin)
    | false =>
      refine (told_takeFin hi (hasked hfin)).keep (fun k => ?_) rfl
      exact keeps_modify (f := fun tcb => { tcb with state := .closing })
        (fun tcb => ⟨rfl, rfl, rfl, rfl, rfl, rfl, rfl⟩) _ i k

theorem told_stateMachine (hi : (s.connections i).inUse = true)
    (hasked : Answers (s.connections i) p → asked i) (hresets : Refuses (s.connections i) p → resets)
    (srcIp destIp : BitVec 32) :
    Told asked resets s (stateMachine env s i srcIp destIp p) := by
  have hreleased {t : State} (hsent : t.sent = s.sent) (hsame : t.connections = s.connections) :
      Told asked resets s (t.modify i fun _ => {}) := by
    refine .released hsent (i := i) (fun k hk => .of_eq ?_) (by simp)
    rw [modify_connections_of_ne t _ hk, hsame]
  unfold stateMachine
  cases hstate : (s.connections i).state with
  | closed =>
    dsimp only
    split
    · exact .silent rfl rfl
    · next hrst =>
      refine told_reset (hresets ⟨Bool.eq_false_of_not_eq_true hrst, ?_⟩) ..
      rw [hstate]
      trivial
  | listen => exact told_listen srcIp destIp
  | synSent => exact told_synSent hi hstate hasked hresets srcIp destIp
  | synReceived =>
    simp only [receiveSynReceived]
    split
    · apply told_modify _ hi
      exact fun tcb => ⟨rfl, rfl, rfl, rfl, rfl, rfl, rfl⟩
    · split
      · apply told_modify _ hi
        exact fun tcb => ⟨rfl, rfl, rfl, rfl, rfl, rfl, rfl⟩
      · exact .silent rfl rfl
  | established => exact told_established hi hstate hasked
  | finWait1 =>
    refine told_finWait1 hi fun hfin => hasked ?_
    rw [Answers, hstate]
    exact hfin
  | finWait2 =>
    dsimp only
    rw [receiveFinWait2]
    split
    · next hfin =>
      refine told_enterTimeWait (told_takeFin hi (hasked ?_))
      rw [Answers, hstate]
      exact hfin
    · exact .silent rfl rfl
  | closeWait => exact .silent rfl rfl
  | closing =>
    dsimp only
    split
    · exact told_enterTimeWait (.silent rfl rfl)
    · exact .silent rfl rfl
  | lastAck =>
    dsimp only
    split
    · exact hreleased rfl rfl
    · exact .silent rfl rfl
  | timeWait =>
    dsimp only
    rw [receiveTimeWait_eq]
    split
    · exact hreleased rfl rfl
    · exact .silent rfl rfl

/-! ### Calls -/

def Call.Asks (s : State) : Call → Nat → Prop
  | .receive srcIp destIp p, k =>
    tcpFindConnection s destIp p.destPort srcIp p.srcPort = some k ∧ Answers (s.connections k) p
  | .read _ _, _ => False
  | .write sockfd data, k => sockfd = k ∧ (s.connections k).state = .established ∧ data ≠ []
  | .close sockfd, k => sockfd = k ∧ ((s.connections k).state = .synReceived ∨
      (s.connections k).state = .established ∨ (s.connections k).state = .closeWait)

def Call.Refused (s : State) : Call → Nat → Prop
  | .receive srcIp destIp p, k =>
    tcpFindConnection s destIp p.destPort srcIp p.srcPort = some k ∧ Refuses (s.connections k) p
  | _, _ => False

/-- A segment arrives that belongs to no connection. -/
def Call.Unmatched (s : State) : Call → Prop
  | .receive srcIp destIp p => tcpFindConnection s destIp p.destPort srcIp p.srcPort = none
  | _ => False

def Call.Resets (s : State) (call : Call) : Prop := call.Unmatched s ∨ ∃ k, call.Refused s k

theorem told_receive (env : Env) (s : State) (srcIp destIp : BitVec 32) (p : Packet) :
    Told ((Call.receive srcIp destIp p).Asks s) ((Call.receive srcIp destIp p).Resets s) s (tcpReceive env s srcIp destIp p).2 := by
  rw [tcpReceive]
  split
  · exact .silent rfl rfl
  split
  · exact .silent rfl rfl
  cases hfind : tcpFindConnection s destIp p.destPort srcIp p.srcPort with
  | none =>
    dsimp only
    split
    · exact .silent rfl rfl
    · exact told_reset (.inl hfind) ..
  | some i =>
    exact told_stateMachine (Listener.tcpFindConnection_inUse hfind) (fun hanswers => ⟨hfind, hanswers⟩)
      (fun hrefuses => .inr ⟨i, hfind, hrefuses⟩) srcIp destIp

theorem told_read (s : State) (sockfd : Int) (maxLength : Nat) :
    Told ((Call.read sockfd maxLength).Asks s) ((Call.read sockfd maxLength).Resets s) s (tcpRead s sockfd maxLength).2 := by
  rw [tcpRead]
  split
  · exact .silent rfl rfl
  split
  · exact .silent rfl rfl
  dsimp only
  split
  · exact .silent rfl rfl
  split
  · exact .silent rfl rfl
  · generalize (s.connections sockfd.toNat).recv.pop bufferSize _ = result
    dsimp only
    refine .of_block (fun k hk => .of_eq (modify_connections_of_ne _ _ hk)) (.silent rfl)
      (fun _ => .inr (.inl ?_)) (.inl rfl)
    rw [modify_connections_self]
    rfl

theorem told_write (env : Env) (s : State) (sockfd : Int) (data : List Byte) :
    Told ((Call.write sockfd data).Asks s) ((Call.write sockfd data).Resets s) s (tcpWrite env s sockfd data).2 := by
  rw [tcpWrite]
  split
  · exact .silent rfl rfl
  next hrange =>
  split
  · exact .silent rfl rfl
  next hdata =>
  dsimp only
  split
  · exact .silent rfl rfl
  next hopen =>
  rw [Bool.or_eq_true, not_or, Bool.not_eq_true', Bool.not_eq_false, bne_iff_ne, not_not] at hopen
  have hsock : (sockfd.toNat : Int) = sockfd := by omega
  have hne : data ≠ [] := fun h => hdata (by rw [h]; rfl)
  generalize data.take _ = block
  have hpush (k : Nat) : Keeps (s.connections k) ((s.modify sockfd.toNat fun tcb =>
      { tcb with send := tcb.send.push bufferSize block }).connections k) := by
    apply keeps_modify
    exact fun tcb => ⟨rfl, rfl, rfl, rfl, rfl, rfl, rfl⟩
  obtain ⟨hspeaks, hkeeps⟩ := speaks_sendLoop env sockfd.toNat ((s.modify sockfd.toNat fun tcb =>
    { tcb with send := tcb.send.push bufferSize block }).connections sockfd.toNat).send.count
      (s.modify sockfd.toNat fun tcb => { tcb with send := tcb.send.push bufferSize block })
  exact .of_keeps (fun k _ => (hpush k).trans (hkeeps k)) hspeaks hopen.1 ((hpush _).trans (hkeeps _))
    (.inr ⟨hsock.symm, hopen.2, hne⟩)

theorem told_close (env : Env) (s : State) (sockfd : Int) :
    Told ((Call.close sockfd).Asks s) ((Call.close sockfd).Resets s) s (tcpCloseSocket env s sockfd) := by
  rw [tcpCloseSocket]
  split
  · exact .silent rfl rfl
  next hrange =>
  dsimp only
  split
  · exact .silent rfl rfl
  next hopen =>
  have hsock : (sockfd.toNat : Int) = sockfd := by omega
  rw [Bool.not_eq_true', Bool.not_eq_false] at hopen
  have hsend (hasked : (Call.close sockfd).Asks s sockfd.toNat) (state : TcpState) :
      Told ((Call.close sockfd).Asks s) ((Call.close sockfd).Resets s) s ((tcpSendSegment env s sockfd.toNat (flagFin ||| flagAck) []).modify
        sockfd.toNat fun tcb => { tcb with state }) := by
    have hkeeps (k : Nat) := keeps_send env s sockfd.toNat k (flagFin ||| flagAck) []
    have htold : Told _ ((Call.close sockfd).Resets s) s _ := .of_keeps (fun k _ => hkeeps k) (speaks_send ..) hopen (hkeeps _) (.inr hasked)
    refine htold.keep (fun k => ?_) rfl
    apply keeps_modify
    exact fun tcb => ⟨rfl, rfl, rfl, rfl, rfl, rfl, rfl⟩
  have hreleased : Told ((Call.close sockfd).Asks s) ((Call.close sockfd).Resets s) s (s.modify sockfd.toNat fun _ => {}) :=
    .released rfl (fun k hk => .of_eq (modify_connections_of_ne _ _ hk)) (by simp)
  cases hstate : (s.connections sockfd.toNat).state with
  | closed => exact hreleased
  | synSent => exact hreleased
  | synReceived => exact hsend ⟨hsock.symm, .inl hstate⟩ _
  | established => exact hsend ⟨hsock.symm, .inr (.inl hstate)⟩ _
  | closeWait => exact hsend ⟨hsock.symm, .inr (.inr hstate)⟩ _
  | _ => exact .silent rfl rfl

theorem told_call (env : Env) (s : State) (call : Call) : Told (call.Asks s) (call.Resets s) s (call.run env s) := by
  cases call with
  | receive srcIp destIp p => exact told_receive env s srcIp destIp p
  | read sockfd maxLength => exact told_read s sockfd maxLength
  | write sockfd data => exact told_write env s sockfd data
  | close sockfd => exact told_close env s sockfd

/-! ### Runs -/

/-- The call makes no drained connection send, and none with room in its buffer send a reset. -/
def Timely (s : State) (call : Call) : Prop :=
  ∀ k, (call.Asks s k → ¬Drained (s.connections k)) ∧ (call.Refused s k → free (s.connections k) = 0)

def Step (env : Env) (s s' : State) : Prop := ∃ call, Timely s call ∧ s' = call.run env s

def Start (s : State) : Prop :=
  ∀ k, (s.connections k).inUse = true → (s.connections k).recv.count = 0 ∧ (s.connections k).rcvWnd = windowSize

def Inv (s : State) : Prop := ∀ k, (s.connections k).inUse = true → Measured (s.connections k)

theorem Inv.call (h : Inv s) (env : Env) (call : Call) : Inv (call.run env s) := by
  intro k hk
  obtain hkeeps | hmeasured := (told_call env s call).windows k hk
  · exact (h k (hkeeps.inUse.symm.trans hk)).keep hkeeps
  · exact hmeasured

theorem Inv.run {s₀ : State} (hstart : Start s₀) (hrun : Relation.ReflTransGen (Step env) s₀ s) : Inv s := by
  induction hrun with
  | refl => exact fun k hk => .inr (hstart k hk).symm
  | tail _ hstep ih =>
    obtain ⟨call, -, rfl⟩ := hstep
    exact ih.call env call

structure Advertises (tcb : Tcb) (seg : Segment) : Prop where
  inUse : tcb.inUse = true
  window : seg.window.toNat = min 65535 (free tcb)
  nonzero : tcb.recv.count = 0 → seg.window ≠ 0

structure Addressed (tcb : Tcb) (seg : Segment) : Prop where
  srcIp : seg.srcIp = tcb.localIp
  destIp : seg.destIp = tcb.remoteIp
  srcPort : seg.srcPort = tcb.localPort
  destPort : seg.destPort = tcb.remotePort

theorem Refused.inUse {call : Call} (h : call.Refused s k) : (s.connections k).inUse = true := by
  cases call with
  | receive srcIp destIp p => exact Listener.tcpFindConnection_inUse h.1
  | _ => exact absurd h id

theorem advertises_reset {seg : Segment} (hin : tcb.inUse = true) (hfull : free tcb = 0)
    (hzero : seg.window = 0) : Advertises tcb seg := by
  refine ⟨hin, by rw [hzero, hfull]; rfl, fun hcount => ?_⟩
  rw [free, hcount] at hfull
  exact absurd hfull (by decide)

theorem Carries.advertises {seg : Segment} (h : Carries tcb seg) (hin : tcb.inUse = true)
    (hm : Measured tcb) (hd : ¬Drained tcb) : Advertises tcb seg := by
  have hwindow : seg.window.toNat = min 65535 (free tcb) := by
    rw [h.window]
    by_cases hcount : tcb.recv.count = 0
    · have hfirst : tcb.rcvWnd = windowSize := by
        by_contra hne
        exact hd ⟨hcount, hne⟩
      rw [hfirst, free, hcount]
      rfl
    · have hfree : tcb.rcvWnd = BitVec.ofNat 32 (free tcb) := hm.resolve_right fun h => hcount h.2
      have hlt : free tcb < 65536 := by
        rw [free]
        show 65536 - tcb.recv.count < 65536
        omega
      rw [hfree, BitVec.toNat_setWidth, BitVec.toNat_ofNat]
      omega
  refine ⟨hin, hwindow, fun hcount hzero => ?_⟩
  rw [hzero, free, hcount] at hwindow
  exact absurd hwindow (by decide)

/-- In every run whose calls make no drained connection send and no connection with room send a reset,
every segment for a connection advertises its free space. -/
theorem windows_advertised {s₀ : State} (hstart : Start s₀) (hrun : Relation.ReflTransGen (Step env) s₀ s)
    {call : Call} (htimely : Timely s call) :
    ∃ segs, (call.run env s).sent = s.sent ++ segs ∧ ∀ seg ∈ segs, call.Unmatched s ∨
      ∃ k, (call.Refused s k ∨ Addressed ((call.run env s).connections k) seg) ∧
        Advertises ((call.run env s).connections k) seg := by
  have hinv := Inv.run hstart hrun
  obtain ⟨segs, hsent, hall⟩ := (told_call env s call).segments
  refine ⟨segs, hsent, fun seg hseg => ?_⟩
  obtain ⟨hresets, hzero, hsame⟩ | ⟨k, hspoken⟩ := hall seg hseg
  · refine hresets.imp_right ?_
    rintro ⟨k, hrefused⟩
    have hfull := (htimely k).2 hrefused
    rw [free, ← (hsame k).recv] at hfull
    exact ⟨k, .inl hrefused, advertises_reset ((hsame k).inUse.trans (Refused.inUse hrefused)) hfull hzero⟩
  · have hcarries := hspoken.carries
    have hmeasured := hinv.call env call k hspoken.inUse
    refine .inr ⟨k, .inr ⟨hcarries.srcIp, hcarries.destIp, hcarries.srcPort, hcarries.destPort⟩,
      hcarries.advertises hspoken.inUse hmeasured ?_⟩
    obtain ⟨-, hfilled⟩ | ⟨hasks, hkeeps⟩ := hspoken.window
    · exact hfilled
    · rw [Drained.keep hkeeps]
      exact (htimely k).1 hasks

/-! ### A window of zero -/

theorem windowState_start : Start windowState := by
  intro k hk
  by_cases hzero : k = 0
  · subst hzero
    exact ⟨rfl, rfl⟩
  · simp [windowState, hzero] at hk

theorem first_byte_advertised : ∃ segs, ((Call.receive 2 1 dataPacket).run reliableEnv windowState).sent =
    windowState.sent ++ segs ∧ ∀ seg ∈ segs, (Call.receive 2 1 dataPacket).Unmatched windowState ∨
      ∃ k, ((Call.receive 2 1 dataPacket).Refused windowState k ∨
          Addressed (((Call.receive 2 1 dataPacket).run reliableEnv windowState).connections k) seg) ∧
        Advertises (((Call.receive 2 1 dataPacket).run reliableEnv windowState).connections k) seg := by
  refine windows_advertised windowState_start .refl fun k => ⟨?_, ?_⟩
  · rintro ⟨-, hanswers⟩ hdrained
    by_cases hzero : k = 0
    · subst hzero
      exact hdrained.2 rfl
    · simp [Answers, windowState, hzero] at hanswers
  · rintro ⟨hfind, -, hrefuses⟩
    have hsome : tcpFindConnection windowState 1 dataPacket.destPort 2 dataPacket.srcPort = some 0 := by decide
    obtain rfl := Option.some.inj (hsome.symm.trans hfind)
    exact absurd hrefuses id

def drainedState : State :=
  (Call.read 0 10).run reliableEnv ((Call.receive 2 1 dataPacket).run reliableEnv windowState)

/-- A FIN is then acknowledged with a window of zero, though the buffer is empty. -/
theorem drained_window_zero : Start windowState ∧ (drainedState.connections 0).recv.count = 0 ∧
    ((Call.receive 2 1 finPacket).run reliableEnv drainedState).sent.length = drainedState.sent.length + 1 ∧
    (((Call.receive 2 1 finPacket).run reliableEnv drainedState).sent.getLast?.map
      fun seg => (seg.flags, seg.window)) = some (flagAck, 0) ∧
    free (((Call.receive 2 1 finPacket).run reliableEnv drainedState).connections 0) = 65536 := by
  refine ⟨windowState_start, ?_⟩
  decide

end TocinOS.Tcp.Advertise

import TocinOS.Tcp

/-! What a sequence of `tcp_write` calls puts on the wire. No segment is kept for
retransmission, so the bytes of a segment that could not be allocated or sent are
gone although the call reported them as accepted. -/

namespace TocinOS.Tcp

open RingBuffer

@[simp] theorem modify_connections_self (s : State) (i : Nat) (f : Tcb → Tcb) :
    (s.modify i f).connections i = f (s.connections i) := by
  simp [State.modify]

variable {i n : Nat} {env : Env} {s s' : State} {base : BitVec 32} {segs : List Segment}
  {bytes : List Byte}

@[simp] theorem modify_connections_of_ne (s : State) {j : Nat} (f : Tcb → Tcb) (h : j ≠ i) :
    (s.modify i f).connections j = s.connections j := by
  simp [State.modify, h]

/-! ### One segment -/

def SendsNext (env : Env) (s : State) : Prop :=
  env.kmalloc s.mallocs = true ∧ env.ipSend s.transmissions = true

theorem tcpSendSegment_of_sends (h : SendsNext env s) (i : Nat) (flags : Byte) (data : List Byte) :
    tcpSendSegment env s i flags data =
      { s with
        connections := Function.update s.connections i
          ((s.connections i).advanceSndNxt flags data.length)
        mallocs := s.mallocs + 1
        transmissions := s.transmissions + 1
        sent := s.sent ++ [(s.connections i).segment flags data] } := by
  simp [tcpSendSegment, ipSendPacket, h.1, h.2, State.modify]

theorem tcpSendSegment_of_fails (h : ¬ SendsNext env s) (i : Nat) (flags : Byte)
    (data : List Byte) : (tcpSendSegment env s i flags data).connections = s.connections ∧
      (tcpSendSegment env s i flags data).sent = s.sent := by
  by_cases hm : env.kmalloc s.mallocs = true
  · have ht : env.ipSend s.transmissions = false := by
      simpa using fun ht => h ⟨hm, ht⟩
    simp [tcpSendSegment, ipSendPacket, hm, ht]
  · simp [tcpSendSegment, hm]

theorem tcpSendSegment_connections (env : Env) (s : State) (i : Nat) (flags : Byte)
    (data : List Byte) :
    ∃ nxt, (tcpSendSegment env s i flags data).connections =
      Function.update s.connections i { s.connections i with sndNxt := nxt } := by
  by_cases h : SendsNext env s
  · exact ⟨_, by rw [tcpSendSegment_of_sends h]; rfl⟩
  · refine ⟨(s.connections i).sndNxt, ?_⟩
    rw [(tcpSendSegment_of_fails h i flags data).1]
    exact (Function.update_eq_self i s.connections).symm

/-! ### Payload on the wire -/

def InOrder : BitVec 32 → List Segment → List Byte → Prop
  | _, [], bytes => bytes = []
  | base, seg :: segs, bytes => seg.seq = base ∧
      ∃ rest, bytes = seg.payload ++ rest ∧
        InOrder (base + BitVec.ofNat 32 seg.payload.length) segs rest

theorem InOrder.append {segs' : List Segment} {bytes' : List Byte} (h : InOrder base segs bytes)
    (h' : InOrder (base + BitVec.ofNat 32 bytes.length) segs' bytes') :
    InOrder base (segs ++ segs') (bytes ++ bytes') := by
  induction segs generalizing base bytes with
  | nil =>
    obtain rfl : bytes = [] := h
    simpa using h'
  | cons seg segs ih =>
    obtain ⟨hseq, rest, rfl, hrest⟩ := h
    refine ⟨hseq, rest ++ bytes', List.append_assoc .., ih hrest ?_⟩
    rwa [List.length_append, BitVec.ofNat_add, ← BitVec.add_assoc] at h'

def carried (segs : List Segment) : Nat := (segs.map fun seg => seg.payload.length).sum

theorem carried_append (segs segs' : List Segment) :
    carried (segs ++ segs') = carried segs + carried segs' := by
  simp [carried]

theorem InOrder.carried_eq (h : InOrder base segs bytes) : carried segs = bytes.length := by
  induction segs generalizing base bytes with
  | nil =>
    obtain rfl : bytes = [] := h
    rfl
  | cons seg segs ih =>
    obtain ⟨-, rest, rfl, hrest⟩ := h
    simpa [carried] using ih hrest

theorem InOrder.base_unique {base' : BitVec 32} (h : InOrder base segs bytes)
    (h' : InOrder base' segs bytes) (hbytes : bytes ≠ []) : base = base' := by
  cases segs with
  | nil => exact absurd h hbytes
  | cons seg segs => exact h.1.symm.trans h'.1

/-! ### Several segments -/

def SendsAll (env : Env) (s : State) (n : Nat) : Prop :=
  ∀ k < n, env.kmalloc (s.mallocs + k) = true ∧ env.ipSend (s.transmissions + k) = true

/-- A piece of work tries to send `bytes` in `n` segments on connection `i`. Either
all of them leave in order, or fewer bytes than that do. -/
structure Outcome (env : Env) (i : Nat) (s s' : State) (bytes : List Byte) (n : Nat) : Prop where
  sends : SendsAll env s n →
    s'.mallocs = s.mallocs + n ∧ s'.transmissions = s.transmissions + n ∧
      (s'.connections i).sndNxt = (s.connections i).sndNxt + BitVec.ofNat 32 bytes.length ∧
      ∃ segs, s'.sent = s.sent ++ segs ∧ InOrder (s.connections i).sndNxt segs bytes
  fails : ¬ SendsAll env s n →
    ∃ segs, s'.sent = s.sent ++ segs ∧ carried segs < bytes.length

theorem Outcome.none (env : Env) (i : Nat) (s : State) : Outcome env i s s [] 0 where
  sends := fun _ => ⟨rfl, rfl, by simp, [], by simp, rfl⟩
  fails := fun h => absurd (fun k hk => absurd hk (Nat.not_lt_zero k)) h

theorem Outcome.log (h : Outcome env i s s' bytes n) :
    ∃ segs, s'.sent = s.sent ++ segs ∧ carried segs ≤ bytes.length := by
  by_cases hs : SendsAll env s n
  · obtain ⟨-, -, -, segs, hlog, horder⟩ := h.sends hs
    exact ⟨segs, hlog, horder.carried_eq.le⟩
  · obtain ⟨segs, hlog, hlt⟩ := h.fails hs
    exact ⟨segs, hlog, hlt.le⟩

theorem sendsAll_add {n' : Nat} (hm : s'.mallocs = s.mallocs + n)
    (ht : s'.transmissions = s.transmissions + n) :
    SendsAll env s (n + n') ↔ SendsAll env s n ∧ SendsAll env s' n' := by
  constructor
  · intro h
    refine ⟨fun k hk => h k (by omega), fun k hk => ?_⟩
    have := h (n + k) (by omega)
    rwa [← Nat.add_assoc, ← Nat.add_assoc, ← hm, ← ht] at this
  · rintro ⟨h, h'⟩ k hk
    rcases Nat.lt_or_ge k n with hlt | hge
    · exact h k hlt
    · have := h' (k - n) (by omega)
      rwa [hm, ht, Nat.add_assoc, Nat.add_assoc, Nat.add_sub_cancel' hge] at this

theorem Outcome.trans {s'' : State} {bytes' : List Byte} {n' : Nat} (h : Outcome env i s s' bytes n)
    (h' : Outcome env i s' s'' bytes' n') : Outcome env i s s'' (bytes ++ bytes') (n + n') := by
  constructor
  · intro hall
    have hfirst : SendsAll env s n := fun k hk => hall k (by omega)
    obtain ⟨hm, ht, hnxt, segs, hlog, horder⟩ := h.sends hfirst
    obtain ⟨hm', ht', hnxt', segs', hlog', horder'⟩ :=
      h'.sends ((sendsAll_add hm ht).mp hall).2
    refine ⟨by omega, by omega, ?_, segs ++ segs', ?_, ?_⟩
    · rw [hnxt', hnxt, List.length_append, BitVec.ofNat_add, BitVec.add_assoc]
    · rw [hlog', hlog, List.append_assoc]
    · exact horder.append (hnxt ▸ horder')
  · intro hnot
    by_cases hfirst : SendsAll env s n
    · obtain ⟨hm, ht, -, segs, hlog, horder⟩ := h.sends hfirst
      obtain ⟨segs', hlog', hlt⟩ :=
        h'.fails fun hrest => hnot ((sendsAll_add hm ht).mpr ⟨hfirst, hrest⟩)
      refine ⟨segs ++ segs', by rw [hlog', hlog, List.append_assoc], ?_⟩
      rw [carried_append, List.length_append, horder.carried_eq]
      omega
    · obtain ⟨segs, hlog, hlt⟩ := h.fails hfirst
      obtain ⟨segs', hlog', hle⟩ := h'.log
      refine ⟨segs ++ segs', by rw [hlog', hlog, List.append_assoc], ?_⟩
      rw [carried_append, List.length_append]
      omega

theorem Outcome.of_modify {f : Tcb → Tcb} (h : Outcome env i (s.modify i f) s' bytes n)
    (hf : (f (s.connections i)).sndNxt = (s.connections i).sndNxt) :
    Outcome env i s s' bytes n := by
  constructor
  · intro hall
    obtain ⟨hm, ht, hnxt, segs, hlog, horder⟩ := h.sends hall
    rw [modify_connections_self, hf] at hnxt horder
    exact ⟨hm, ht, hnxt, segs, hlog, horder⟩
  · exact h.fails

theorem Outcome.of_segment (env : Env) (i : Nat) (s : State) {data : List Byte}
    (hdata : data ≠ []) :
    Outcome env i s (tcpSendSegment env s i (flagAck ||| flagPsh) data) data 1 := by
  have hnext : SendsAll env s 1 ↔ SendsNext env s := by
    simp [SendsAll, SendsNext]
  constructor
  · intro h
    rw [tcpSendSegment_of_sends (hnext.mp h)]
    refine ⟨rfl, rfl, ?_, _, rfl, rfl, [], (List.append_nil _).symm, rfl⟩
    simp [Tcb.advanceSndNxt, has, flagAck, flagPsh, flagSyn, flagFin]
  · intro h
    refine ⟨[], ?_, List.length_pos_iff.mpr hdata⟩
    rw [List.append_nil]
    exact (tcpSendSegment_of_fails (mt hnext.mpr h) i _ data).2

/-! ### The calls -/

structure Ready (s : State) (i : Nat) (q : List Byte) : Prop where
  inUse : (s.connections i).inUse = true
  state : (s.connections i).state = .established
  holds : Holds bufferSize (s.connections i).send q

theorem Ready.tcpSendSegment {q : List Byte} (h : Ready s i q) (env : Env) (flags : Byte)
    (data : List Byte) : Ready (tcpSendSegment env s i flags data) i q := by
  obtain ⟨nxt, hconn⟩ := tcpSendSegment_connections env s i flags data
  constructor
  · simp [hconn, h.inUse]
  · simp [hconn, h.state]
  · simpa [hconn] using h.holds

def segmentsOf (n : Nat) : Nat := (n + (mss - 1)) / mss

theorem segmentsOf_pos (h : 0 < n) :
    segmentsOf n = 1 + segmentsOf (n - if n > mss then mss else n) := by
  simp only [segmentsOf, mss]
  split_ifs <;> omega

theorem sendLoop_outcome (env : Env) (i : Nat) {rounds : Nat} {q : List Byte} (h : Ready s i q)
    (hrounds : q.length ≤ rounds) : Ready (sendLoop env i rounds s) i [] ∧
      Outcome env i s (sendLoop env i rounds s) q (segmentsOf q.length) := by
  induction rounds generalizing s q with
  | zero =>
    obtain rfl : q = [] := List.length_eq_zero_iff.mp (by omega)
    exact ⟨h, Outcome.none env i s⟩
  | succ rounds ih =>
    have hcount := h.holds.count_eq
    by_cases hzero : q.length = 0
    · obtain rfl : q = [] := List.length_eq_zero_iff.mp hzero
      have hstop : sendLoop env i (rounds + 1) s = s := by simp [sendLoop, hcount]
      rw [hstop]
      exact ⟨h, Outcome.none env i s⟩
    · have hpos : 0 < q.length := Nat.pos_of_ne_zero hzero
      generalize hlen : (if q.length > mss then mss else q.length) = len
      have hle : 0 < len ∧ len ≤ q.length := by
        subst hlen
        simp only [mss]
        split_ifs <;> omega
      obtain ⟨hdata, hholds⟩ := h.holds.pop hle.2
      -- the ring is popped first, so the segment is sent from a state whose buffer holds the rest
      let t := s.modify i fun tcb => { tcb with send := ((s.connections i).send.pop bufferSize len).2 }
      have hstep : sendLoop env i (rounds + 1) s = sendLoop env i rounds
          (Tcp.tcpSendSegment env t i (flagAck ||| flagPsh) (q.take len)) := by
        simp only [sendLoop, hcount, hzero, if_false, hlen, hdata, t]
      have hready : Ready t i (q.drop len) := by
        constructor
        · simpa [t] using h.inUse
        · simpa [t] using h.state
        · simpa [t] using hholds
      have hblock : q.take len ≠ [] :=
        List.ne_nil_of_length_pos (by rw [List.length_take]; omega)
      have hsent := Outcome.of_segment env i t hblock
      obtain ⟨hdone, hrest⟩ := ih (hready.tcpSendSegment env _ (q.take len))
        (by rw [List.length_drop]; omega)
      have hcut : 1 + segmentsOf (q.drop len).length = segmentsOf q.length := by
        rw [List.length_drop, segmentsOf_pos hpos, hlen]
      have hboth := hsent.trans hrest
      rw [List.take_append_drop, hcut] at hboth
      rw [hstep]
      exact ⟨hdone, hboth.of_modify rfl⟩

theorem tcpWrite_outcome (env : Env) {sockfd : Nat} (hsock : sockfd < maxConnections)
    (h : Ready s sockfd []) {data : List Byte} (hlen : data.length < bufferSize)
    (hdata : data ≠ []) : (tcpWrite env s sockfd data).1 = some data.length ∧
      Ready (tcpWrite env s sockfd data).2 sockfd [] ∧
      Outcome env sockfd s (tcpWrite env s sockfd data).2 data (segmentsOf data.length) := by
  have hcount := h.holds.count_eq
  let t := s.modify sockfd fun tcb => { tcb with send := tcb.send.push bufferSize data }
  have hcall : tcpWrite env s sockfd data =
      (some data.length, sendLoop env sockfd (t.connections sockfd).send.count t) := by
    have hvalid : ¬ ((sockfd : Int) < 0 ∨ (sockfd : Int) ≥ maxConnections) := by omega
    have hpos : data.length ≠ 0 := by simpa using hdata
    have hspace : data.length < bufferSize - (s.connections sockfd).send.count := by
      rw [hcount]
      exact hlen
    rw [tcpWrite, if_neg hvalid, if_neg hpos]
    simp [h.inUse, h.state, hspace, t]
  have hready : Ready t sockfd data := by
    constructor
    · simpa [t] using h.inUse
    · simpa [t] using h.state
    · simpa [t] using h.holds.push data (by simpa using hlen.le)
  obtain ⟨hdone, hout⟩ := sendLoop_outcome env sockfd hready hready.holds.count_eq.ge
  rw [hcall]
  exact ⟨rfl, hdone, hout.of_modify rfl⟩

def writeAll (env : Env) (sockfd : Int) : State → List (List Byte) → List Byte × State
  | s, [] => ([], s)
  | s, data :: writes =>
    let (accepted, s) := tcpWrite env s sockfd data
    let (rest, s) := writeAll env sockfd s writes
    (data.take (accepted.getD 0) ++ rest, s)

theorem writeAll_outcome (env : Env) {sockfd : Nat} (hsock : sockfd < maxConnections)
    (h : Ready s sockfd []) {writes : List (List Byte)}
    (hlen : ∀ data ∈ writes, data.length < bufferSize) :
    (writeAll env sockfd s writes).1 = writes.flatten ∧
      Outcome env sockfd s (writeAll env sockfd s writes).2 writes.flatten
        (writes.map fun data => segmentsOf data.length).sum := by
  induction writes generalizing s with
  | nil => exact ⟨rfl, Outcome.none env sockfd s⟩
  | cons data writes ih =>
    have hrest : ∀ data ∈ writes, data.length < bufferSize :=
      fun d hd => hlen d (List.mem_cons_of_mem _ hd)
    by_cases hdata : data = []
    · -- an empty write is refused and changes nothing
      subst hdata
      have hcall : tcpWrite env s sockfd [] = (none, s) := by
        simp [tcpWrite]
      have hzero : segmentsOf 0 = 0 := by decide
      simpa [writeAll, hcall, hzero] using ih h hrest
    · obtain ⟨haccept, hready, hout⟩ :=
        tcpWrite_outcome env hsock h (hlen data List.mem_cons_self) hdata
      obtain ⟨hbytes, htail⟩ := ih hready hrest
      constructor
      · simp [writeAll, haccept, hbytes]
      · simpa [writeAll] using hout.trans htail

theorem writeAll_of_empty (env : Env) (sockfd : Int) (s : State) {writes : List (List Byte)}
    (h : ∀ data ∈ writes, data = []) : writeAll env sockfd s writes = ([], s) := by
  induction writes with
  | nil => rfl
  | cons data writes ih =>
    obtain rfl : data = [] := h data List.mem_cons_self
    have hcall : tcpWrite env s sockfd [] = (none, s) := by
      simp [tcpWrite]
    simp [writeAll, hcall, ih fun d hd => h d (List.mem_cons_of_mem _ hd)]

def Delivered (s s' : State) (base : BitVec 32) (bytes : List Byte) : Prop :=
  ∃ segs, s'.sent = s.sent ++ segs ∧ InOrder base segs bytes

/-- On a connection nothing was written to before, the accepted bytes are on the wire
from `iss + 1` on exactly when the SYN had moved `snd_nxt` there and none of the
segments the writes are cut into fails to be allocated or sent. -/
theorem writes_delivered_iff (env : Env) {sockfd : Nat} (hsock : sockfd < maxConnections)
    {s : State} (h : Ready s sockfd []) {writes : List (List Byte)}
    (hlen : ∀ data ∈ writes, data.length < bufferSize) :
    Delivered s (writeAll env sockfd s writes).2 ((s.connections sockfd).iss + 1)
        (writeAll env sockfd s writes).1 ↔
      (∀ data ∈ writes, data = []) ∨
        (s.connections sockfd).sndNxt = (s.connections sockfd).iss + 1 ∧
          SendsAll env s (writes.map fun data => segmentsOf data.length).sum := by
  obtain ⟨hbytes, hout⟩ := writeAll_outcome env hsock h hlen
  constructor
  · rintro ⟨segs, hlog, horder⟩
    rw [hbytes] at horder
    by_cases hempty : ∀ data ∈ writes, data = []
    · exact .inl hempty
    · right
      by_cases hall : SendsAll env s (writes.map fun data => segmentsOf data.length).sum
      · obtain ⟨-, -, -, segs', hlog', horder'⟩ := hout.sends hall
        obtain rfl : segs = segs' := List.append_cancel_left (hlog.symm.trans hlog')
        exact ⟨horder'.base_unique horder (by simpa using hempty), hall⟩
      · -- a lost segment leaves fewer bytes on the wire than were accepted
        obtain ⟨segs', hlog', hlt⟩ := hout.fails hall
        obtain rfl : segs = segs' := List.append_cancel_left (hlog.symm.trans hlog')
        exact absurd horder.carried_eq hlt.ne
  · rintro (hempty | ⟨hnxt, hall⟩)
    · rw [writeAll_of_empty env sockfd s hempty]
      exact ⟨[], (List.append_nil _).symm, rfl⟩
    · obtain ⟨-, -, -, segs, hlog, horder⟩ := hout.sends hall
      rw [hbytes, ← hnxt]
      exact ⟨segs, hlog, horder⟩

def openState : State where
  connections := fun i =>
    if i = 0 then { inUse := true, state := .established, sndNxt := 1 } else {}

theorem openState_ready : Ready openState 0 [] where
  inUse := rfl
  state := rfl
  holds := holds_empty (by decide) _

def reliableEnv : Env := ⟨fun _ => true, fun _ => true, fun _ => 0⟩

theorem openState_delivered :
    Delivered openState (writeAll reliableEnv 0 openState [[0x61], [0x62, 0x63]]).2 1
      (writeAll reliableEnv 0 openState [[0x61], [0x62, 0x63]]).1 := by
  have hshort : ∀ data ∈ [[0x61], [0x62, 0x63]], (data : List Byte).length < bufferSize := by
    decide
  apply (writes_delivered_iff reliableEnv (by decide) openState_ready hshort).mpr
  exact .inr ⟨rfl, fun k _ => ⟨rfl, rfl⟩⟩

/-- The IP layer refuses the only segment of a one-byte write: the call still reports
the byte as accepted, nothing is on the wire, and the buffer is empty again. -/
theorem accepted_byte_lost :
    let r := writeAll ⟨fun _ => true, fun _ => false, fun _ => 0⟩ 0 openState [[0x61]]
    r.1 = [0x61] ∧ r.2.sent = [] ∧ (r.2.connections 0).send.count = 0 ∧
      ¬ Delivered openState r.2 1 r.1 := by
  intro r
  have hsent : r.2.sent = [] := by decide
  have haccepted : r.1 = [0x61] := by decide
  refine ⟨haccepted, hsent, by decide, ?_⟩
  rintro ⟨segs, hlog, horder⟩
  have hnone : segs = [] := by simpa [hsent, openState] using hlog.symm
  subst hnone
  rw [haccepted] at horder
  exact absurd horder (List.cons_ne_nil _ _)

end TocinOS.Tcp

import TocinOS.TcpFrame

/-! The receive side of a connection, one segment at a time. In-order data enters
the receive buffer and nothing else does. A FIN is obeyed wherever its segment
stands in the sequence space, and only some of them keep the stream in order. -/

namespace TocinOS.Tcp

open RingBuffer

/-! ### Sequence numbers -/

theorem seqLe_add_iff (x : BitVec 32) {a b : Nat} (hab : a < b + 2 ^ 31) (hba : b ≤ a + 2 ^ 31) :
    seqLe (x + BitVec.ofNat 32 a) (x + BitVec.ofNat 32 b) = true ↔ a ≤ b := by
  have hsub : ∀ y z : BitVec 32, x + y - (x + z) = y - z := fun y z => by bv_omega
  have hint : (x + BitVec.ofNat 32 a - (x + BitVec.ofNat 32 b)).toInt = (a : Int) - b := by
    rw [hsub, BitVec.toInt_sub, BitVec.toInt_ofNat', BitVec.toInt_ofNat', Int.bmod_sub_bmod,
      Int.sub_bmod_bmod]
    apply Int.bmod_eq_of_le <;> omega
  simp only [seqLe, hint, decide_eq_true_eq]
  omega

theorem seqLe_self (x : BitVec 32) : seqLe x x = true := by
  simp [seqLe]

theorem add_ofNat_inj (x : BitVec 32) {a b : Nat} (hab : a < b + 2 ^ 32) (hba : b < a + 2 ^ 32) :
    x + BitVec.ofNat 32 a = x + BitVec.ofNat 32 b ↔ a = b := by
  have hcancel : ∀ y z : BitVec 32, x + y = x + z ↔ y = z := fun y z => by
    constructor <;> intro h <;> bv_omega
  rw [hcancel, ← BitVec.toNat_inj, BitVec.toNat_ofNat, BitVec.toNat_ofNat]
  omega

/-! ### The peer and its segments -/

structure Peer where
  stream : Nat → Byte
  length : Option Nat

def Peer.first (peer : Peer) (n : Nat) : List Byte := (List.range n).map peer.stream

theorem Peer.first_add (peer : Peer) (n m : Nat) :
    peer.first (n + m) = peer.first n ++ (List.range m).map fun k => peer.stream (n + k) := by
  simp [Peer.first, List.range_add, Function.comp_def]

theorem Peer.eq_first_of_append (peer : Peer) {out q : List Byte}
    (h : out ++ q = peer.first (out.length + q.length)) : out = peer.first out.length := by
  rw [peer.first_add] at h
  exact (List.append_inj h (by simp [Peer.first])).1

structure Placed (peer : Peer) (irs : BitVec 32) (p : Packet) (offset : Nat) : Prop where
  seq : p.seq = irs + 1 + BitVec.ofNat 32 offset
  data : ∀ k < p.dataLen, p.byte (p.headerLen + k) = peer.stream (offset + k)
  within : ∀ n, peer.length = some n → offset + p.dataLen ≤ n
  fin : has p.flags flagFin = true → peer.length = some (offset + p.dataLen)

/-- Sequence numbers name positions modulo 2^32; a segment is at most half that
space away from the byte the receiver waits for. -/
def Near (offset accepted : Nat) : Prop :=
  offset < accepted + 2 ^ 31 ∧ accepted < offset + 2 ^ 31

/-! ### The receive invariant -/

def TcpState.receives : TcpState → Bool
  | .synReceived | .established | .finWait1 | .finWait2 => true
  | _ => false

/-- The bytes handed out and the buffered ones are the start of the stream, and
`rcv_nxt` stands right behind them until a FIN is taken. -/
structure Inv (peer : Peer) (tcb : Tcb) (out : List Byte) : Prop where
  queue : ∃ q, Holds bufferSize tcb.recv q ∧ out ++ q = peer.first (out.length + q.length)
  within : ∀ n, peer.length = some n → out.length + tcb.recv.count ≤ n
  next : tcb.state.receives = true →
    tcb.rcvNxt = tcb.irs + 1 + BitVec.ofNat 32 (out.length + tcb.recv.count)
  synchronized : tcb.state ≠ .listen ∧ tcb.state ≠ .synSent
  complete : tcb.state = .closeWait → peer.length = some (out.length + tcb.recv.count)

variable {tcb' : Tcb} {offset : Nat}

theorem Inv.change {peer : Peer} {tcb : Tcb} {out : List Byte} (h : Inv peer tcb out)
    (hrecv : tcb'.recv = tcb.recv) (hirs : tcb'.irs = tcb.irs)
    (hsync : tcb'.state ≠ .listen ∧ tcb'.state ≠ .synSent)
    (hnext : tcb'.state.receives = true → tcb.state.receives = true ∧ tcb'.rcvNxt = tcb.rcvNxt)
    (hcomplete : tcb'.state = .closeWait →
      peer.length = some (out.length + tcb.recv.count)) : Inv peer tcb' out where
  queue := hrecv ▸ h.queue
  within := hrecv ▸ h.within
  next := by
    intro hreceives
    obtain ⟨hold, heq⟩ := hnext hreceives
    rw [heq, hirs, hrecv, h.next hold]
  synchronized := hsync
  complete := by
    rw [hrecv]
    exact hcomplete

theorem ite_lt_eq_min (a b : Nat) : (if a < b then a else b) = min a b := by
  split_ifs <;> omega

theorem Tcb.copySize_eq (tcb : Tcb) (p : Packet) :
    tcb.copySize p = min p.dataLen (bufferSize - tcb.recv.count) :=
  ite_lt_eq_min _ _

theorem Inv.count_le {peer : Peer} {tcb : Tcb} {out : List Byte} (h : Inv peer tcb out) :
    tcb.recv.count ≤ bufferSize := by
  obtain ⟨q, hholds, -⟩ := h.queue
  rw [hholds.count_eq]
  exact hholds.fits

theorem Inv.seq_eq_iff {peer : Peer} {tcb : Tcb} {out : List Byte} (h : Inv peer tcb out)
    (hstate : tcb.state.receives = true) {p : Packet} (hp : Placed peer tcb.irs p offset)
    (hnear : Near offset (out.length + tcb.recv.count)) :
    p.seq = tcb.rcvNxt ↔ offset = out.length + tcb.recv.count := by
  obtain ⟨hlow, hhigh⟩ := hnear
  rw [hp.seq, h.next hstate]
  exact add_ofNat_inj _ (by omega) (by omega)

theorem Packet.length_data (p : Packet) (n : Nat) : (p.data n).length = n := by
  simp [Packet.data]

section Store

variable (tcb : Tcb) (block : List Byte)

@[simp] theorem store_inUse : (tcb.store block).inUse = tcb.inUse := rfl

@[simp] theorem store_state : (tcb.store block).state = tcb.state := rfl

@[simp] theorem store_irs : (tcb.store block).irs = tcb.irs := rfl

@[simp] theorem store_rcvNxt :
    (tcb.store block).rcvNxt = tcb.rcvNxt + BitVec.ofNat 32 block.length := rfl

@[simp] theorem store_count : (tcb.store block).recv.count = tcb.recv.count + block.length := rfl

end Store

theorem Inv.store {peer : Peer} {tcb : Tcb} {out : List Byte} (h : Inv peer tcb out)
    (hstate : tcb.state = .established) {block : List Byte}
    (hblock : block = (List.range block.length).map fun k =>
      peer.stream (out.length + tcb.recv.count + k))
    (hroom : tcb.recv.count + block.length ≤ bufferSize)
    (hwithin : ∀ n, peer.length = some n → out.length + tcb.recv.count + block.length ≤ n) :
    Inv peer (tcb.store block) out := by
  obtain ⟨q, hholds, hq⟩ := h.queue
  have hcount := hholds.count_eq
  constructor
  · refine ⟨q ++ block, hholds.push block (by omega), ?_⟩
    rw [← List.append_assoc, hq, hblock, hcount, ← Peer.first_add]
    simp [Nat.add_assoc]
  · intro n hn
    rw [store_count, ← Nat.add_assoc]
    exact hwithin n hn
  · intro _
    have hnext := h.next (by rw [hstate]; rfl)
    rw [store_count, store_irs, store_rcvNxt, ← Nat.add_assoc, BitVec.ofNat_add,
      ← BitVec.add_assoc, ← hnext]
  · simpa using h.synchronized
  · simp [hstate]

theorem Inv.store_data {peer : Peer} {tcb : Tcb} {out : List Byte} (h : Inv peer tcb out)
    (hstate : tcb.state = .established) {p : Packet}
    (hp : Placed peer tcb.irs p (out.length + tcb.recv.count)) :
    Inv peer (tcb.store (p.data (tcb.copySize p))) out := by
  have hcount := h.count_le
  have hle := Nat.min_le_left p.dataLen (bufferSize - tcb.recv.count)
  have hspace := Nat.min_le_right p.dataLen (bufferSize - tcb.recv.count)
  rw [← tcb.copySize_eq p] at hle hspace
  generalize tcb.copySize p = size at *
  apply h.store hstate
  · rw [Packet.length_data]
    apply List.map_congr_left
    intro k hk
    exact hp.data k (Nat.lt_of_lt_of_le (List.mem_range.mp hk) hle)
  · rw [Packet.length_data]
    omega
  · intro n hn
    have := hp.within n hn
    rw [Packet.length_data]
    omega

/-! ### An established connection -/

theorem takeAck_fields (tcb : Tcb) (p : Packet) :
    (tcb.takeAck p).inUse = tcb.inUse ∧ (tcb.takeAck p).state = tcb.state ∧
      (tcb.takeAck p).irs = tcb.irs ∧ (tcb.takeAck p).rcvNxt = tcb.rcvNxt ∧
      (tcb.takeAck p).recv = tcb.recv := by
  unfold Tcb.takeAck
  split <;> simp

theorem Inv.takeAck {peer : Peer} {tcb : Tcb} {out : List Byte} (h : Inv peer tcb out)
    (p : Packet) : Inv peer (tcb.takeAck p) out := by
  obtain ⟨-, hstate, hirs, hnxt, hrecv⟩ := takeAck_fields tcb p
  apply h.change hrecv hirs
  · rw [hstate]
    exact h.synchronized
  · rw [hstate, hnxt]
    exact fun hr => ⟨hr, rfl⟩
  · rw [hstate]
    exact h.complete

def afterData (env : Env) (s : State) (i : Nat) (p : Packet) : Tcb :=
  (processData env (s.modify i fun tcb => tcb.takeAck p) i p).connections i

def Tcb.gain (tcb : Tcb) (p : Packet) : Nat :=
  if 0 < p.dataLen ∧ p.seq = tcb.rcvNxt then tcb.copySize p else 0

structure DataStep (peer : Peer) (tcb tcb' : Tcb) (p : Packet) (out : List Byte) : Prop where
  inv : Inv peer tcb' out
  inUse : tcb'.inUse = tcb.inUse
  state : tcb'.state = tcb.state
  irs : tcb'.irs = tcb.irs
  count : tcb'.recv.count = tcb.recv.count + tcb.gain p
  next : tcb'.rcvNxt = tcb.irs + 1 + BitVec.ofNat 32 (out.length + tcb.recv.count + tcb.gain p)

theorem DataStep.send {peer : Peer} {tcb : Tcb} {s : State} {i : Nat} {f : Tcb → Tcb}
    {p : Packet} {out : List Byte} (h : DataStep peer tcb (f (s.connections i)) p out) (env : Env)
    (flags : Byte) (data : List Byte) :
    DataStep peer tcb ((tcpSendSegment env (s.modify i f) i flags data).connections i) p out := by
  constructor
  · apply h.inv.change
    · simp
    · simp
    · simpa using h.inv.synchronized
    · simp
    · simpa using h.inv.complete
  · simpa using h.inUse
  · simpa using h.state
  · simpa using h.irs
  · simpa using h.count
  · simpa using h.next

theorem Inv.processData {peer : Peer} {s : State} {i : Nat} {out : List Byte}
    (h : Inv peer (s.connections i) out) (hstate : (s.connections i).state = .established)
    (env : Env) {p : Packet}
    (hp : 0 < p.dataLen → ∃ offset, Placed peer (s.connections i).irs p offset ∧
      Near offset (out.length + (s.connections i).recv.count)) :
    DataStep peer (s.connections i) ((processData env s i p).connections i) p out := by
  have hreceives : (s.connections i).state.receives = true := by rw [hstate]; rfl
  by_cases hcond : 0 < p.dataLen ∧ p.seq = (s.connections i).rcvNxt
  · obtain ⟨offset, hplaced, hnear⟩ := hp hcond.1
    obtain rfl := (h.seq_eq_iff hreceives hplaced hnear).mp hcond.2
    have hgain : (s.connections i).gain p = (s.connections i).copySize p := if_pos hcond
    rw [Tcp.processData, if_pos hcond]
    apply DataStep.send
    constructor
    · exact h.store_data hstate hplaced
    · exact store_inUse _ _
    · exact store_state _ _
    · exact store_irs _ _
    · rw [store_count, Packet.length_data, hgain]
    · rw [store_rcvNxt, Packet.length_data, hgain, h.next hreceives, BitVec.add_assoc,
        ← BitVec.ofNat_add]
  · have hgain : (s.connections i).gain p = 0 := if_neg hcond
    rw [Tcp.processData, if_neg hcond]
    exact ⟨h, rfl, rfl, rfl, by rw [hgain, Nat.add_zero],
      by rw [hgain, Nat.add_zero, h.next hreceives]⟩

theorem Inv.afterData {peer : Peer} {s : State} {i : Nat} {out : List Byte}
    (h : Inv peer (s.connections i) out) (hstate : (s.connections i).state = .established)
    (env : Env) {p : Packet}
    (hp : 0 < p.dataLen → ∃ offset, Placed peer (s.connections i).irs p offset ∧
      Near offset (out.length + (s.connections i).recv.count)) :
    DataStep peer (s.connections i) (afterData env s i p) p out := by
  have hself := modify_connections_self s i fun tcb => tcb.takeAck p
  have hacked := h.takeAck p
  obtain ⟨huse, hst, hirs, hnxt, hrecv⟩ := takeAck_fields (s.connections i) p
  unfold Tcp.afterData
  generalize s.modify i (fun tcb => tcb.takeAck p) = t at *
  generalize (s.connections i).takeAck p = acked at *
  subst hself
  have hgain : (t.connections i).gain p = (s.connections i).gain p := by
    simp only [Tcb.gain, Tcb.copySize_eq, hnxt, hrecv]
  have hdata := hacked.processData (hst.trans hstate) env (by rw [hirs, hrecv]; exact hp)
  exact ⟨hdata.inv, hdata.inUse.trans huse, hdata.state.trans hst, hdata.irs.trans hirs,
    by rw [hdata.count, hrecv, hgain], by rw [hdata.next, hrecv, hirs, hgain]⟩

theorem DataStep.forward {peer : Peer} {tcb : Tcb} {p : Packet} {out : List Byte}
    (h : DataStep peer tcb tcb' p out)
    (hnext : tcb.rcvNxt = tcb.irs + 1 + BitVec.ofNat 32 (out.length + tcb.recv.count)) :
    seqLe tcb.rcvNxt tcb'.rcvNxt = true := by
  have hroom := h.inv.count_le
  have hsmall : bufferSize < 2 ^ 31 := by decide
  have hcount := h.count
  rw [hnext, h.next]
  exact (seqLe_add_iff _ (by omega) (by omega)).mpr (Nat.le_add_right _ _)

/-- The FIN of an established connection that keeps order: it comes at `rcv_nxt` with
at most one byte and room for it, or it repeats the last byte before `rcv_nxt`. In the
FIN-WAIT states it only must not lie before `rcv_nxt`. -/
def FinAllowed (tcb : Tcb) (p : Packet) : Prop :=
  has p.flags flagFin = true →
    (tcb.state = .established → has p.flags flagRst = false →
      p.seq = tcb.rcvNxt ∧ p.dataLen ≤ 1 ∧ p.dataLen ≤ bufferSize - tcb.recv.count ∨
        p.dataLen = 1 ∧ p.seq + 1 = tcb.rcvNxt) ∧
    (tcb.state = .finWait1 ∨ tcb.state = .finWait2 → seqLe tcb.rcvNxt (p.seq + 1) = true)

/-- The arithmetic of a FIN at `offset + len`, with `accepted` bytes before it and
`gain` more from its own data. -/
theorem fin_in_order_iff {accepted len space gain : Nat}
    (hgain : gain = if offset = accepted then min len space else 0)
    (hwithin : accepted ≤ offset + len) :
    (offset = accepted ∧ len ≤ 1 ∧ len ≤ space ∨ len = 1 ∧ offset + 1 = accepted) ↔
      offset + len = accepted + gain ∧ accepted + gain ≤ offset + 1 := by
  split_ifs at hgain <;> omega

/-- The condition on a FIN is exact: it holds just when every byte before the FIN has
been accepted and `rcv_nxt` does not step back from where the data step left it. -/
theorem Inv.finAllowed_iff {peer : Peer} {s : State} {i : Nat} {out : List Byte}
    (h : Inv peer (s.connections i) out) (hstate : (s.connections i).state = .established)
    (env : Env) {p : Packet} (hp : Placed peer (s.connections i).irs p offset)
    (hnear : Near offset (out.length + (s.connections i).recv.count))
    (hfin : has p.flags flagFin = true) (hrst : has p.flags flagRst = false) :
    FinAllowed (s.connections i) p ↔
      peer.length = some (out.length + (Tcp.afterData env s i p).recv.count) ∧
        seqLe (Tcp.afterData env s i p).rcvNxt (p.seq + 1) = true := by
  have hdata := h.afterData hstate env fun _ => ⟨offset, hp, hnear⟩
  have hreceives : (s.connections i).state.receives = true := by rw [hstate]; rfl
  have hseq := h.seq_eq_iff hreceives hp hnear
  have hlength := hp.fin hfin
  have hwithin := h.within _ hlength
  obtain ⟨hlow, hhigh⟩ := hnear
  have hroom := h.count_le
  generalize hA : out.length + (s.connections i).recv.count = A at *
  have hgain : (s.connections i).gain p = if offset = A then
      min p.dataLen (bufferSize - (s.connections i).recv.count) else 0 := by
    simp only [Tcb.gain, hseq, Tcb.copySize_eq]
    by_cases hzero : p.dataLen = 0
    · simp [hzero]
    · simp [Nat.pos_of_ne_zero hzero]
  have hone : p.seq + 1 = (s.connections i).irs + 1 + BitVec.ofNat 32 (offset + 1) := by
    rw [hp.seq, BitVec.add_assoc, BitVec.ofNat_add]
    rfl
  have hprev : p.seq + 1 = (s.connections i).rcvNxt ↔ offset + 1 = A := by
    rw [hone, h.next hreceives, hA]
    exact add_ofNat_inj _ (by omega) (by omega)
  have hback : seqLe (Tcp.afterData env s i p).rcvNxt (p.seq + 1) = true ↔
      A + (s.connections i).gain p ≤ offset + 1 := by
    rw [hdata.next, hA, hone]
    apply seqLe_add_iff
    · have hsmall : bufferSize < 2 ^ 31 := by decide
      rw [hgain]
      split_ifs <;> omega
    · omega
  have hcount : out.length + (Tcp.afterData env s i p).recv.count =
      A + (s.connections i).gain p := by
    rw [hdata.count, ← hA, Nat.add_assoc]
  rw [hback, hcount, hlength, Option.some_inj]
  simp only [FinAllowed, hfin, hstate, hrst, hseq, hprev, true_implies, reduceCtorEq, or_self,
    false_implies, and_true]
  exact fin_in_order_iff hgain hwithin

/-! ### One segment -/

theorem seqLe_succ (x : BitVec 32) : seqLe x (x + 1) = true := by
  have h : x - (x + 1) = -1#32 := by bv_omega
  rw [seqLe, h]
  decide

structure SegmentStep (peer : Peer) (tcb tcb' : Tcb) (out : List Byte) : Prop where
  inv : tcb'.inUse = true → Inv peer tcb' out
  forward : tcb'.inUse = true → seqLe tcb.rcvNxt tcb'.rcvNxt = true

theorem SegmentStep.unchanged {peer : Peer} {tcb : Tcb} {out : List Byte}
    (h : Inv peer tcb out) : SegmentStep peer tcb tcb out :=
  ⟨fun _ => h, fun _ => seqLe_self _⟩

theorem SegmentStep.released {peer : Peer} {tcb : Tcb} {out : List Byte} (h : tcb'.inUse = false) :
    SegmentStep peer tcb tcb' out := by
  constructor <;> simp [h]

theorem SegmentStep.of_change {peer : Peer} {tcb : Tcb} {out : List Byte} (h : Inv peer tcb out)
    (hrecv : tcb'.recv = tcb.recv) (hirs : tcb'.irs = tcb.irs) (hnxt : tcb'.rcvNxt = tcb.rcvNxt)
    (hsync : tcb'.state ≠ .listen ∧ tcb'.state ≠ .synSent)
    (hreceives : tcb'.state.receives = true → tcb.state.receives = true)
    (hopen : tcb'.state ≠ .closeWait) : SegmentStep peer tcb tcb' out where
  inv := fun _ => h.change hrecv hirs hsync (fun hr => ⟨hreceives hr, hnxt⟩)
    fun hc => absurd hc hopen
  forward := fun _ => hnxt ▸ seqLe_self _

theorem SegmentStep.of_fin {peer : Peer} {tcb : Tcb} {out : List Byte} (h : Inv peer tcb out)
    {nxt : BitVec 32} (hforward : seqLe tcb.rcvNxt nxt = true) (hrecv : tcb'.recv = tcb.recv)
    (hirs : tcb'.irs = tcb.irs) (hnxt : tcb'.rcvNxt = nxt)
    (hstate : tcb'.state = .timeWait ∨ tcb'.state = .closing) : SegmentStep peer tcb tcb' out := by
  refine ⟨fun _ => h.change hrecv hirs ?_ ?_ ?_, fun _ => hnxt ▸ hforward⟩
  all_goals
    rcases hstate with hstate | hstate <;> simp [hstate, TcpState.receives]

theorem receiveEstablished_of_data (env : Env) {s : State} {i : Nat} {p : Packet}
    (hrst : has p.flags flagRst = false)
    (hfin : has p.flags flagFin = false) :
    (receiveEstablished env s i p).connections i = afterData env s i p := by
  simp [Tcp.receiveEstablished, processFin, hrst, hfin, Tcp.afterData]

theorem receiveEstablished_of_fin (env : Env) {s : State} {i : Nat} {p : Packet}
    (hrst : has p.flags flagRst = false)
    (hfin : has p.flags flagFin = true) :
    ∃ nxt, (receiveEstablished env s i p).connections i =
      { afterData env s i p with rcvNxt := p.seq + 1, state := .closeWait, sndNxt := nxt } := by
  obtain ⟨nxt, hsend⟩ := tcpSendSegment_frame env
    ((processData env (s.modify i fun tcb => tcb.takeAck p) i p).modify i fun tcb =>
      { tcb with rcvNxt := p.seq + 1, state := .closeWait }) i i flagAck []
  refine ⟨nxt, ?_⟩
  rw [receiveEstablished, hrst, if_neg Bool.false_ne_true, processFin, hfin, if_pos rfl, hsend,
    modify_connections_self]
  rfl

section Handlers

variable {peer : Peer} {s : State} {i : Nat} {out : List Byte} (env : Env) {p : Packet}
  (h : Inv peer (s.connections i) out)
include h

theorem Inv.receiveSynReceived (hstate : (s.connections i).state = .synReceived) :
    SegmentStep peer (s.connections i) ((receiveSynReceived s i p).connections i) out := by
  simp only [Tcp.receiveSynReceived]
  split_ifs
  · apply SegmentStep.of_change h <;> simp [TcpState.receives]
  · apply SegmentStep.of_change h <;> simp [TcpState.receives, hstate]
  · exact SegmentStep.unchanged h

theorem Inv.receiveFinWait1 (hstate : (s.connections i).state = .finWait1)
    (hfin : has p.flags flagFin = true →
      seqLe (s.connections i).rcvNxt (p.seq + 1) = true) :
    SegmentStep peer (s.connections i) ((receiveFinWait1 env s i p).connections i) out := by
  simp only [Tcp.receiveFinWait1]
  split_ifs with hflag
  · apply SegmentStep.of_fin h (hfin hflag) <;> simp [enterTimeWait, takeFin]
  · apply SegmentStep.of_fin h (hfin hflag) <;> simp [takeFin]
  · apply SegmentStep.of_change h <;> simp [TcpState.receives, hstate]
  · exact SegmentStep.unchanged h

theorem Inv.receiveFinWait2
    (hfin : has p.flags flagFin = true →
      seqLe (s.connections i).rcvNxt (p.seq + 1) = true) :
    SegmentStep peer (s.connections i) ((receiveFinWait2 env s i p).connections i) out := by
  simp only [Tcp.receiveFinWait2]
  split_ifs with hflag
  · apply SegmentStep.of_fin h (hfin hflag) <;> simp [enterTimeWait, takeFin]
  · exact SegmentStep.unchanged h

theorem Inv.receiveTimeWait :
    SegmentStep peer (s.connections i) ((receiveTimeWait env s i).connections i) out := by
  simp only [Tcp.receiveTimeWait]
  split_ifs
  · exact SegmentStep.released (by simp)
  · exact SegmentStep.unchanged h

theorem Inv.receiveEstablished (hstate : (s.connections i).state = .established)
    (hplaced : 0 < p.dataLen ∨ has p.flags flagFin = true → ∃ offset,
      Placed peer (s.connections i).irs p offset ∧
        Near offset (out.length + (s.connections i).recv.count))
    (hallowed : FinAllowed (s.connections i) p) :
    SegmentStep peer (s.connections i) ((receiveEstablished env s i p).connections i) out := by
  have hreceives : (s.connections i).state.receives = true := by rw [hstate]; rfl
  cases hrst : has p.flags flagRst with
  | true =>
    rw [Tcp.receiveEstablished, hrst, if_pos rfl, modify_connections_self]
    apply SegmentStep.of_change h <;> simp [TcpState.receives]
  | false =>
    cases hfin : has p.flags flagFin with
    | false =>
      rw [receiveEstablished_of_data env hrst hfin]
      have hdata := h.afterData hstate env fun hpos => hplaced (.inl hpos)
      exact ⟨fun _ => hdata.inv, fun _ => hdata.forward (h.next hreceives)⟩
    | true =>
      obtain ⟨offset, hp, hnear⟩ := hplaced (.inr hfin)
      have hdata := h.afterData hstate env fun _ => ⟨offset, hp, hnear⟩
      obtain ⟨hcomplete, -⟩ := (h.finAllowed_iff hstate env hp hnear hfin hrst).mp hallowed
      obtain ⟨nxt, hclosed⟩ := receiveEstablished_of_fin env hrst hfin
      rw [hclosed]
      constructor
      · intro _
        apply hdata.inv.change
        · rfl
        · rfl
        · simp
        · simp [TcpState.receives]
        · exact fun _ => hcomplete
      · intro _
        rcases (hallowed hfin).1 hstate hrst with ⟨hseq, -⟩ | ⟨-, hseq⟩
        · rw [← hseq]
          exact seqLe_succ _
        · rw [← hseq]
          exact seqLe_self _

theorem Inv.stateMachine (srcIp destIp : BitVec 32)
    (hplaced : 0 < p.dataLen ∨ has p.flags flagFin = true → ∃ offset,
      Placed peer (s.connections i).irs p offset ∧
        Near offset (out.length + (s.connections i).recv.count))
    (hallowed : FinAllowed (s.connections i) p) :
    SegmentStep peer (s.connections i)
      ((stateMachine env s i srcIp destIp p).connections i) out := by
  have hsame := SegmentStep.unchanged h
  unfold Tcp.stateMachine
  split <;> rename_i hstate
  · split
    · exact hsame
    · rw [tcpSendRst_connections]
      exact hsame
  · exact absurd hstate h.synchronized.1
  · exact absurd hstate h.synchronized.2
  · exact h.receiveSynReceived hstate
  · exact h.receiveEstablished env hstate hplaced hallowed
  · exact h.receiveFinWait1 env hstate fun hfin => (hallowed hfin).2 (.inl hstate)
  · exact h.receiveFinWait2 env fun hfin => (hallowed hfin).2 (.inr hstate)
  · exact hsame
  · split
    · apply SegmentStep.of_change h <;> simp [enterTimeWait, TcpState.receives]
    · exact hsame
  · split
    · exact SegmentStep.released (by simp)
    · exact hsame
  · exact h.receiveTimeWait env

end Handlers

end TocinOS.Tcp

import TocinOS.IpcQueues

/-! Message queues over runs of `mq_create`, `mq_send` and `mq_receive` by several tasks, in
which a blocked call goes on at any later time. -/

namespace TocinOS.IpcQueues

open Function (update update_self update_of_ne)
open Ipc RingBuffer

/-! ### The ring of a queue -/

def ring (s : State) (i : Nat) : Buffer Message where
  cells k := messageAt s.memory (slotAddr (s.queues.slots i) k)
  head := (s.queues.slots i).head
  tail := (s.queues.slots i).tail
  count := (s.queues.slots i).curMsgs.toNat

structure Sized (q : Queue) : Prop where
  pos : 0 < q.maxMsgs
  le : q.maxMsgs ≤ maxMsgsPerQueue
  size : q.maxMsgSize ≤ maxMsgSize

structure Pending (s : State) (i : Nat) (msgs : List Message) : Prop where
  holds : Holds (s.queues.slots i).maxMsgs (ring s i) msgs
  count : (s.queues.slots i).curMsgs = msgs.length
  small : ∀ msg ∈ msgs, msg.data.length ≤ maxMsgSize

def pendingAddr (q : Queue) (k : Nat) : Nat := slotAddr q ((q.head + k) % q.maxMsgs)

/-- The `n` bytes behind the tail of queue `i` are not part of a pending message of another
queue. -/
def Clear (s : State) (i n : Nat) : Prop :=
  ∀ j, s.queues.bitmap j = true → j ≠ i → ∀ k : Nat, (k : Int) < (s.queues.slots j).curMsgs →
    slotAddr (s.queues.slots i) (s.queues.slots i).tail + n ≤ pendingAddr (s.queues.slots j) k ∨
      pendingAddr (s.queues.slots j) k + 16 +
          (messageAt s.memory (pendingAddr (s.queues.slots j) k)).data.length ≤
        slotAddr (s.queues.slots i) (s.queues.slots i).tail

variable {s s' : State} {i j task : Nat} {msgs : List Message} {msg : Message} {f : Queue → Queue}

structure SameRing (q q' : Queue) : Prop where
  maxMsgs : q'.maxMsgs = q.maxMsgs
  maxMsgSize : q'.maxMsgSize = q.maxMsgSize
  curMsgs : q'.curMsgs = q.curMsgs
  messages : q'.messages = q.messages
  head : q'.head = q.head
  tail : q'.tail = q.tail

theorem SameRing.refl (q : Queue) : SameRing q q := ⟨rfl, rfl, rfl, rfl, rfl, rfl⟩

theorem SameRing.of_eq {q q' : Queue} (h : q' = q) : SameRing q q' := h ▸ .refl q

theorem sameRing_modify (s : State) (i : Nat)
    (hf : SameRing (s.queues.slots i) (f (s.queues.slots i))) (j : Nat) :
    SameRing (s.queues.slots j) ((s.modify i f).queues.slots j) := by
  by_cases hji : j = i
  · subst hji
    simpa [State.modify] using hf
  · simpa [State.modify, hji] using SameRing.refl _

theorem SameRing.slotAddr {q q' : Queue} (h : SameRing q q') (k : Nat) :
    slotAddr q' k = slotAddr q k := by
  rw [IpcQueues.slotAddr, IpcQueues.slotAddr, h.messages]

theorem SameRing.pendingAddr {q q' : Queue} (h : SameRing q q') (k : Nat) :
    pendingAddr q' k = pendingAddr q k := by
  rw [IpcQueues.pendingAddr, IpcQueues.pendingAddr, h.slotAddr, h.head, h.maxMsgs]

theorem Pending.congr (h : Pending s i msgs) (hq : SameRing (s.queues.slots i) (s'.queues.slots i))
    (hcells : ∀ k < msgs.length,
      messageAt s'.memory (pendingAddr (s.queues.slots i) k) =
        messageAt s.memory (pendingAddr (s.queues.slots i) k)) : Pending s' i msgs := by
  refine ⟨?_, hq.curMsgs.trans h.count, h.small⟩
  have hring : ring s' i = { ring s i with cells := (ring s' i).cells } := by
    simp only [ring, hq.head, hq.tail, hq.curMsgs]
  rw [hring, hq.maxMsgs]
  exact h.holds.congr fun k hk =>
    (congrArg (messageAt s'.memory) (hq.slotAddr _)).trans (hcells k hk)

theorem SameRing.pending (h : SameRing (s.queues.slots i) (s'.queues.slots i))
    (hp : Pending s i msgs) (hmemory : s'.memory = s.memory) : Pending s' i msgs :=
  hp.congr h fun k _ => by rw [hmemory]

theorem store_slots_self (s : State) (i : Nat) (msg : Message) (now : Nat) :
    (store s i msg now).queues.slots i =
      { s.queues.slots i with
        tail := ((s.queues.slots i).tail + 1) % (s.queues.slots i).maxMsgs
        curMsgs := (s.queues.slots i).curMsgs + 1 } := by
  simp [store, State.modify]

theorem store_slots_of_ne (s : State) (h : j ≠ i) (msg : Message) (now : Nat) :
    (store s i msg now).queues.slots j = s.queues.slots j := by
  simp [store, State.modify, h]

theorem messageAt_writeMessage_of_slot_ne {q : Queue} {k l : Nat} (h : k ≠ l) (now : Nat)
    (hmsg : msg.data.length ≤ maxMsgSize)
    (hold : (messageAt s.memory (slotAddr q k)).data.length ≤ maxMsgSize) :
    messageAt (writeMessage s.memory (slotAddr q l) msg now) (slotAddr q k) =
      messageAt s.memory (slotAddr q k) := by
  apply messageAt_congr
  intro x hle hlt
  apply writeMessage_outside
  simp only [maxMsgSize] at hmsg hold
  simp only [slotAddr, messageSize] at *
  omega

theorem pending_store (h : Pending s i msgs) (now : Nat)
    (hroom : msgs.length < (s.queues.slots i).maxMsgs) (hmsg : msg.data.length ≤ maxMsgSize) :
    Pending (store s i msg now) i (msgs ++ [msg]) := by
  have hslot := store_slots_self s i msg now
  have hcount := h.count
  have hput := h.holds.put msg hroom
  have htail : (s.queues.slots i).tail = ((s.queues.slots i).head + msgs.length) %
    (s.queues.slots i).maxMsgs := h.holds.tail_eq
  have hring : ring (store s i msg now) i =
      { (ring s i).put (s.queues.slots i).maxMsgs msg with
        count := (ring s i).count + 1, cells := (ring (store s i msg now) i).cells } := by
    simp only [ring, hslot, Buffer.put, Buffer.mk.injEq, true_and]
    omega
  refine ⟨?_, ?_, ?_⟩
  · rw [hring, hslot]
    refine hput.congr fun k hk => ?_
    show messageAt (writeMessage s.memory (slotAddr (s.queues.slots i) (s.queues.slots i).tail)
        msg now) (slotAddr ((store s i msg now).queues.slots i)
          (((s.queues.slots i).head + k) % (s.queues.slots i).maxMsgs)) =
      update (ring s i).cells (s.queues.slots i).tail msg
        (((s.queues.slots i).head + k) % (s.queues.slots i).maxMsgs)
    have haddr : ∀ l, slotAddr ((store s i msg now).queues.slots i) l =
        slotAddr (s.queues.slots i) l := by
      intro l
      rw [hslot, slotAddr, slotAddr]
    rw [haddr]
    by_cases hkt : ((s.queues.slots i).head + k) % (s.queues.slots i).maxMsgs =
        (s.queues.slots i).tail
    · rw [hkt, update_self]
      exact messageAt_writeMessage _ _ now (Nat.lt_of_le_of_lt hmsg (by decide))
    · have hk' : k < msgs.length := by
        rw [List.length_append, List.length_singleton] at hk
        by_contra hge
        obtain rfl : k = msgs.length := by omega
        exact hkt htail.symm
      have hcell := h.holds.cell k hk'
      rw [update_of_ne hkt]
      refine messageAt_writeMessage_of_slot_ne hkt now hmsg ?_
      have hlen := h.small _ (List.getElem_mem hk')
      rw [← hcell] at hlen
      exact hlen
  · rw [hslot, List.length_append, List.length_singleton]
    show (s.queues.slots i).curMsgs + 1 = _
    rw [hcount]
    rfl
  · intro m hm
    rw [List.mem_append, List.mem_singleton] at hm
    rcases hm with hm | rfl
    · exact h.small m hm
    · exact hmsg

theorem pending_store_of_ne (h : Pending s j msgs) (hj : s.queues.bitmap j = true) (hji : j ≠ i)
    (now : Nat) (hclear : Clear s i (16 + msg.data.length)) :
    Pending (store s i msg now) j msgs := by
  have hslot := store_slots_of_ne s hji msg now
  refine h.congr (.of_eq hslot) fun k hk => ?_
  apply messageAt_congr
  intro x hle hlt
  apply writeMessage_outside
  have hcur : (k : Int) < (s.queues.slots j).curMsgs := by
    rw [h.count]
    exact_mod_cast hk
  have hsides := hclear j hj hji k hcur
  omega

theorem fetch_slots_self (s : State) (i : Nat) :
    (fetch s i).2.queues.slots i =
      { s.queues.slots i with
        head := ((s.queues.slots i).head + 1) % (s.queues.slots i).maxMsgs
        curMsgs := (s.queues.slots i).curMsgs - 1 } := by
  simp [fetch, State.modify]

theorem fetch_slots_of_ne (s : State) (h : j ≠ i) :
    (fetch s i).2.queues.slots j = s.queues.slots j := by
  simp [fetch, State.modify, h]

theorem pending_fetch (h : Pending s i (msg :: msgs)) :
    (fetch s i).1 = msg ∧ Pending (fetch s i).2 i msgs := by
  have hpop := h.holds.pop (n := 1) (by simp)
  have hslot := fetch_slots_self s i
  have hcount := h.count
  rw [List.length_cons] at hcount
  have hring : ring (fetch s i).2 i = ((ring s i).pop (s.queues.slots i).maxMsgs 1).2 := by
    have haddr : ∀ l, slotAddr ((fetch s i).2.queues.slots i) l =
        slotAddr (s.queues.slots i) l := by
      intro l
      rw [hslot, slotAddr, slotAddr]
    have hmemory : (fetch s i).2.memory = s.memory := rfl
    simp only [ring, haddr, hmemory, Buffer.pop]
    simp only [hslot, Buffer.mk.injEq, true_and]
    omega
  refine ⟨?_, ⟨?_, ?_, fun m hm => h.small m (List.mem_cons_of_mem _ hm)⟩⟩
  · have hhead : (ring s i).cells (ring s i).head = msg := by
      simpa [Buffer.pop, Buffer.drain] using hpop.1
    exact hhead
  · rw [hring, hslot]
    exact hpop.2
  · rw [hslot]
    show (s.queues.slots i).curMsgs - 1 = _
    omega

theorem pending_fetch_of_ne (h : Pending s j msgs) (hji : j ≠ i) :
    Pending (fetch s i).2 j msgs := (SameRing.of_eq (fetch_slots_of_ne s hji)).pending h rfl

/-! ### Runs -/

inductive Suspended where
  | send (i : Nat) (msg : Message)
  | receive (i : Nat)

/-- The state, the suspended calls, and the messages of the successful sends and receives of
every queue since its creation. -/
structure Config where
  state : State := {}
  calls : Nat → Option Suspended := fun _ => none
  sent : Nat → List Message := fun _ => []
  received : Nat → List Message := fun _ => []

inductive Call where
  | create (name : List Byte) (flags : BitVec 32) (maxMsgs maxMsgSize : Int) (page : Nat)
      (owner : Int)
  | send (task : Nat) (mqid : Int) (msg : Message) (now : Nat)
  | resumeSend (task i : Nat) (msg : Message) (now : Nat)
  | receive (task : Nat) (mqid : Int)
  | resumeReceive (task i : Nat)

def logged (history : Nat → List Message) (i : Nat) (msg : Message) : Nat → List Message :=
  update history i (history i ++ [msg])

def Config.afterSend (c : Config) (task i : Nat) (msg : Message) (r : Outcome × State) : Config :=
  { c with
    state := r.2
    calls := if r.1 = .blocked then update c.calls task (some (.send i msg)) else c.calls
    sent := if r.1 = .returned 0 then logged c.sent i msg else c.sent }

def Config.afterReceive (c : Config) (task i : Nat) : Receipt × State → Config
  | (.message msg, s) => { c with state := s, received := logged c.received i msg }
  | (.failed, s) => { c with state := s }
  | (.blocked, s) => { c with state := s, calls := update c.calls task (some (.receive i)) }

def Config.call (c : Config) : Call → Config
  | .create name flags maxMsgs maxMsgSize page owner =>
    { c with state := (mqCreate c.state name flags maxMsgs maxMsgSize page owner).2 }
  | .send task mqid msg now => c.afterSend task mqid.toNat msg (mqSend c.state mqid msg now)
  | .resumeSend task i msg now =>
    { c with
      state := mqSendResume c.state i msg now
      calls := update c.calls task none
      sent := logged c.sent i msg }
  | .receive task mqid => c.afterReceive task mqid.toNat (mqReceive c.state mqid)
  | .resumeReceive task i =>
    { c with
      state := (mqReceiveResume c.state i).2
      calls := update c.calls task none
      received := logged c.received i (mqReceiveResume c.state i).1 }

def Call.Possible (c : Config) : Call → Prop
  | .create .. => True
  | .send task _ _ _ => c.calls task = none
  | .resumeSend task i msg _ => c.calls task = some (.send i msg)
  | .receive task _ => c.calls task = none
  | .resumeReceive task i => c.calls task = some (.receive i)

/-- A resumed call finds the room or the message that it waited for, and a store stays clear of
the pending messages of other queues. -/
def Call.Proper (c : Config) : Call → Prop
  | .send _ mqid msg _ => ∀ i, c.state.queues.lookup maxMsgQueues mqid = some i →
      msg.data.length ≤ (c.state.queues.slots i).maxMsgSize →
      (c.state.queues.slots i).curMsgs < (c.state.queues.slots i).maxMsgs →
        Clear c.state i (16 + msg.data.length)
  | .resumeSend _ i msg _ =>
      (c.state.queues.slots i).curMsgs < (c.state.queues.slots i).maxMsgs ∧
        Clear c.state i (16 + msg.data.length)
  | .resumeReceive _ i => 0 < (c.state.queues.slots i).curMsgs
  | _ => True

inductive Step (c : Config) : Config → Prop
  | call (a : Call) (hpossible : a.Possible c) (hproper : a.Proper c) : Step c (c.call a)

def Suspended.Valid (s : State) : Suspended → Prop
  | .send i msg => s.queues.bitmap i = true ∧ msg.data.length ≤ maxMsgSize
  | .receive i => s.queues.bitmap i = true

structure Inv (c : Config) : Prop where
  sized : ∀ i, c.state.queues.bitmap i = true → Sized (c.state.queues.slots i)
  fifo : ∀ i, c.state.queues.bitmap i = true →
    ∃ msgs, Pending c.state i msgs ∧ c.sent i = c.received i ++ msgs
  unused : ∀ i, c.state.queues.bitmap i = false → c.sent i = [] ∧ c.received i = []
  valid : ∀ t a, c.calls t = some a → a.Valid c.state

/-! ### Steps -/

theorem clear_modify {n : Nat} (hf : SameRing (s.queues.slots i) (f (s.queues.slots i)))
    (h : Clear s i n) : Clear (s.modify i f) i n := by
  intro j hj hji k hk
  have hi := sameRing_modify s i hf i
  have hj' := sameRing_modify s i hf j
  rw [hi.slotAddr, hi.tail, hj'.pendingAddr]
  exact h j hj hji k (hj'.curMsgs ▸ hk)

variable {c : Config} {calls : Nat → Option Suspended}

theorem Inv.touch (h : Inv c) (i : Nat)
    (hf : SameRing (c.state.queues.slots i) (f (c.state.queues.slots i)))
    (hcalls : ∀ t a, calls t = some a → a.Valid c.state) :
    Inv { c with state := c.state.modify i f, calls } where
  sized j hj := by
    have hsame := sameRing_modify c.state i hf j
    have hsized := h.sized j hj
    exact ⟨hsame.maxMsgs ▸ hsized.pos, hsame.maxMsgs ▸ hsized.le, hsame.maxMsgSize ▸ hsized.size⟩
  fifo j hj := by
    obtain ⟨msgs, hp, hlog⟩ := h.fifo j hj
    exact ⟨msgs, (sameRing_modify c.state i hf j).pending hp rfl, hlog⟩
  unused := h.unused
  valid t a ht := by
    have := hcalls t a ht
    cases a <;> exact this

theorem Inv.store (h : Inv c) (hi : c.state.queues.bitmap i = true)
    (hmsg : msg.data.length ≤ maxMsgSize) (now : Nat)
    (hroom : (c.state.queues.slots i).curMsgs < (c.state.queues.slots i).maxMsgs)
    (hclear : Clear c.state i (16 + msg.data.length))
    (hcalls : ∀ t a, calls t = some a → a.Valid c.state) :
    Inv { c with state := store c.state i msg now, calls, sent := logged c.sent i msg } where
  sized j hj := by
    by_cases hji : j = i
    · subst hji
      have hsized := h.sized j hj
      show Sized ((IpcQueues.store c.state j msg now).queues.slots j)
      rw [store_slots_self]
      exact ⟨hsized.pos, hsized.le, hsized.size⟩
    · show Sized ((IpcQueues.store c.state i msg now).queues.slots j)
      rw [store_slots_of_ne _ hji]
      exact h.sized j hj
  fifo j hj := by
    obtain ⟨msgs, hp, hlog⟩ := h.fifo j hj
    by_cases hji : j = i
    · subst hji
      have hlen : msgs.length < (c.state.queues.slots j).maxMsgs := by
        rw [hp.count] at hroom
        exact_mod_cast hroom
      refine ⟨msgs ++ [msg], pending_store hp now hlen hmsg, ?_⟩
      simp [logged, hlog]
    · exact ⟨msgs, pending_store_of_ne hp hj hji now hclear, by simpa [logged, hji] using hlog⟩
  unused j hj := by
    have hji : j ≠ i := by
      rintro rfl
      exact absurd (hi.symm.trans hj) (by decide)
    simpa [logged, hji] using h.unused j hj
  valid t a ht := by
    have := hcalls t a ht
    cases a <;> exact this

theorem Inv.fetch (h : Inv c) (hi : c.state.queues.bitmap i = true)
    (hcur : 0 < (c.state.queues.slots i).curMsgs)
    (hcalls : ∀ t a, calls t = some a → a.Valid c.state) : Inv { c with
      state := (fetch c.state i).2, calls
      received := logged c.received i (fetch c.state i).1 } where
  sized j hj := by
    have hsized := h.sized j hj
    by_cases hji : j = i
    · subst hji
      show Sized ((IpcQueues.fetch c.state j).2.queues.slots j)
      rw [fetch_slots_self]
      exact ⟨hsized.pos, hsized.le, hsized.size⟩
    · show Sized ((IpcQueues.fetch c.state i).2.queues.slots j)
      rw [fetch_slots_of_ne _ hji]
      exact hsized
  fifo j hj := by
    obtain ⟨msgs, hp, hlog⟩ := h.fifo j hj
    by_cases hji : j = i
    · subst hji
      cases msgs with
      | nil =>
        rw [hp.count] at hcur
        cases hcur
      | cons msg msgs =>
        obtain ⟨hmsg, hrest⟩ := pending_fetch hp
        refine ⟨msgs, hrest, ?_⟩
        simp [logged, hmsg, hlog]
    · exact ⟨msgs, pending_fetch_of_ne hp hji, by simpa [logged, hji] using hlog⟩
  unused j hj := by
    have hji : j ≠ i := by
      rintro rfl
      exact absurd (hi.symm.trans hj) (by decide)
    simpa [logged, hji] using h.unused j hj
  valid t a ht := by
    have := hcalls t a ht
    cases a <;> exact this

theorem Inv.valid_update (h : Inv c) {v : Option Suspended}
    (hv : ∀ a, v = some a → a.Valid c.state) :
    ∀ t a, update c.calls task v t = some a → a.Valid c.state := by
  intro t a ht
  by_cases hne : t = task
  · subst hne
    rw [update_self] at ht
    exact hv a ht
  · rw [update_of_ne hne] at ht
    exact h.valid t a ht

theorem Inv.send (h : Inv c) {mqid : Int} {now : Nat}
    (hproper : (Call.send task mqid msg now).Proper c) :
    Inv (c.call (.send task mqid msg now)) := by
  show Inv (c.afterSend task mqid.toNat msg (mqSend c.state mqid msg now))
  unfold mqSend
  cases hl : c.state.queues.lookup maxMsgQueues mqid with
  | none => exact h
  | some i =>
    obtain ⟨rfl, hi⟩ := Table.lookup_eq_some hl
    have hsized := h.sized i hi
    dsimp only [Int.toNat_natCast]
    by_cases hlarge : msg.data.length > (c.state.queues.slots i).maxMsgSize
    · rw [if_pos hlarge]
      exact h
    rw [if_neg hlarge]
    have hsmall : msg.data.length ≤ maxMsgSize := Nat.le_trans (Nat.le_of_not_gt hlarge) hsized.size
    by_cases hfull : (c.state.queues.slots i).curMsgs ≥ (c.state.queues.slots i).maxMsgs
    · rw [if_pos hfull]
      split_ifs
      · exact h
      · refine h.touch i ⟨rfl, rfl, rfl, rfl, rfl, rfl⟩ (h.valid_update fun a ha => ?_)
        cases ha
        exact ⟨hi, hsmall⟩
    · rw [if_neg hfull]
      exact h.store hi hsmall now (by omega) (hproper i hl (Nat.le_of_not_gt hlarge) (by omega))
        h.valid

theorem Inv.resumeSend (h : Inv c) {now : Nat} (hpossible : c.calls task = some (.send i msg))
    (hproper : (Call.resumeSend task i msg now).Proper c) :
    Inv (c.call (.resumeSend task i msg now)) := by
  obtain ⟨hi, hsmall⟩ := h.valid task _ hpossible
  have hsame : SameRing (c.state.queues.slots i)
      { c.state.queues.slots i with
        blockedWriters := (c.state.queues.slots i).blockedWriters - 1 } :=
    ⟨rfl, rfl, rfl, rfl, rfl, rfl⟩
  have hdone : Inv { c with
      state := c.state.modify i fun q => { q with blockedWriters := q.blockedWriters - 1 }
      calls := update c.calls task none } :=
    h.touch i hsame (h.valid_update fun a ha => by cases ha)
  have hrings := sameRing_modify c.state i
    (f := fun q => { q with blockedWriters := q.blockedWriters - 1 }) hsame i
  refine hdone.store hi hsmall now ?_ (clear_modify hsame hproper.2) hdone.valid
  rw [hrings.curMsgs, hrings.maxMsgs]
  exact hproper.1

theorem Inv.receive (h : Inv c) (task : Nat) (mqid : Int) : Inv (c.call (.receive task mqid)) := by
  show Inv (c.afterReceive task mqid.toNat (mqReceive c.state mqid))
  unfold mqReceive
  cases hl : c.state.queues.lookup maxMsgQueues mqid with
  | none => exact h
  | some i =>
    obtain ⟨rfl, hi⟩ := Table.lookup_eq_some hl
    obtain ⟨msgs, hp, -⟩ := h.fifo i hi
    dsimp only [Int.toNat_natCast]
    by_cases hempty : (c.state.queues.slots i).curMsgs = 0
    · rw [if_pos hempty]
      split_ifs
      · exact h
      · refine h.touch i ⟨rfl, rfl, rfl, rfl, rfl, rfl⟩ (h.valid_update fun a ha => ?_)
        cases ha
        exact hi
    · rw [if_neg hempty]
      have hcount := hp.count
      exact h.fetch hi (by omega) h.valid

theorem Inv.resumeReceive (h : Inv c) (hpossible : c.calls task = some (.receive i))
    (hproper : 0 < (c.state.queues.slots i).curMsgs) : Inv (c.call (.resumeReceive task i)) := by
  have hi : c.state.queues.bitmap i = true := h.valid task _ hpossible
  have hsame : SameRing (c.state.queues.slots i)
      { c.state.queues.slots i with
        blockedReaders := (c.state.queues.slots i).blockedReaders - 1 } :=
    ⟨rfl, rfl, rfl, rfl, rfl, rfl⟩
  have hdone : Inv { c with
      state := c.state.modify i fun q => { q with blockedReaders := q.blockedReaders - 1 }
      calls := update c.calls task none } :=
    h.touch i hsame (h.valid_update fun a ha => by cases ha)
  have hrings := sameRing_modify c.state i
    (f := fun q => { q with blockedReaders := q.blockedReaders - 1 }) hsame i
  exact hdone.fetch hi (hrings.curMsgs ▸ hproper) hdone.valid

theorem mqCreate_cases (s : State) (name : List Byte) (flags : BitVec 32)
    (maxMsgs maxMsgSize' : Int) (page : Nat) (owner : Int) :
    (mqCreate s name flags maxMsgs maxMsgSize' page owner).2 = s ∨
      ∃ mqid q, s.queues.bitmap mqid = false ∧ Sized q ∧ q.head = 0 ∧ q.tail = 0 ∧ q.curMsgs = 0 ∧
        (mqCreate s name flags maxMsgs maxMsgSize' page owner).2 =
          { s with queues := s.queues.occupy mqid q } := by
  unfold mqCreate
  by_cases hargs : maxMsgs ≤ 0 ∨ maxMsgSize' ≤ 0 ∨ maxMsgSize' > maxMsgSize
  · rw [if_pos hargs]
    exact .inl rfl
  rw [if_neg hargs]
  cases findMsgqueue s name with
  | some existing =>
    dsimp only
    split_ifs
    · exact .inl rfl
    · exact .inl rfl
  | none =>
    dsimp only
    by_cases hcreat : (!has flags ipcCreat) = true
    · rw [if_pos hcreat]
      exact .inl rfl
    rw [if_neg hcreat]
    cases hfree : s.queues.firstFree maxMsgQueues with
    | none => exact .inl rfl
    | some mqid =>
      dsimp only
      by_cases hpage : page = 0
      · rw [if_pos hpage]
        exact .inl rfl
      · rw [if_neg hpage]
        refine .inr ⟨mqid, _, (Table.firstFree_eq_some hfree).1, ⟨?_, ?_, ?_⟩, rfl, rfl, rfl, rfl⟩
        all_goals simp only [maxMsgSize, maxMsgsPerQueue] at *
        · split_ifs <;> omega
        · split_ifs <;> omega
        · omega

theorem Inv.create (h : Inv c) (name : List Byte) (flags : BitVec 32) (maxMsgs maxMsgSize' : Int)
    (page : Nat) (owner : Int) :
    Inv (c.call (.create name flags maxMsgs maxMsgSize' page owner)) := by
  show Inv { c with state := (mqCreate c.state name flags maxMsgs maxMsgSize' page owner).2 }
  rcases mqCreate_cases c.state name flags maxMsgs maxMsgSize' page owner with
    hs | ⟨mqid, q, hfree, hsized, hhead, htail, hcur, hs⟩
  · rw [hs]
    exact h
  rw [hs]
  have hused : ∀ j, j ≠ mqid → (c.state.queues.occupy mqid q).bitmap j = c.state.queues.bitmap j :=
    fun j hj => Table.occupy_bitmap_of_ne _ hj _
  constructor
  case sized =>
    intro j hj
    by_cases hji : j = mqid
    · subst hji
      simpa using hsized
    · rw [hused j hji] at hj
      simpa [hji] using h.sized j hj
  case fifo =>
    intro j hj
    by_cases hji : j = mqid
    · subst hji
      obtain ⟨hsent, hreceived⟩ := h.unused j hfree
      refine ⟨[], ⟨?_, by simp [hcur], by simp⟩, by simp [hsent, hreceived]⟩
      have hempty := holds_empty hsized.pos fun k => messageAt c.state.memory (slotAddr q k)
      simpa [ring, hhead, htail, hcur] using hempty
    · rw [hused j hji] at hj
      obtain ⟨msgs, hp, hlog⟩ := h.fifo j hj
      have hslot : (c.state.queues.occupy mqid q).slots j = c.state.queues.slots j :=
        Table.occupy_of_ne _ hji _
      exact ⟨msgs, (SameRing.of_eq hslot).pending hp rfl, hlog⟩
  case unused =>
    intro j hj
    by_cases hji : j = mqid
    · subst hji
      exact h.unused j hfree
    · rw [hused j hji] at hj
      exact h.unused j hj
  case valid =>
    have hmono : ∀ j, c.state.queues.bitmap j = true →
        (c.state.queues.occupy mqid q).bitmap j = true := by
      intro j hj
      by_cases hji : j = mqid
      · subst hji
        simp
      · rw [hused j hji, hj]
    intro t a ht
    have hvalid := h.valid t a ht
    cases a with
    | send i msg => exact ⟨hmono i hvalid.1, hvalid.2⟩
    | receive i => exact hmono i hvalid

theorem Inv.step {c' : Config} (h : Inv c) (hs : Step c c') : Inv c' := by
  obtain ⟨a, hpossible, hproper⟩ := hs
  cases a with
  | create name flags maxMsgs maxMsgSize page owner =>
    exact h.create name flags maxMsgs maxMsgSize page owner
  | send task mqid msg now => exact h.send hproper
  | resumeSend task i msg now => exact h.resumeSend hpossible hproper
  | receive task mqid => exact h.receive task mqid
  | resumeReceive task i => exact h.resumeReceive hpossible hproper

theorem Inv.run (h : Relation.ReflTransGen Step {} c) : Inv c := by
  induction h with
  | refl =>
    exact ⟨fun _ hi => (by cases hi), fun _ hi => (by cases hi), fun _ _ => ⟨rfl, rfl⟩,
      fun _ _ ht => (by cases ht)⟩
  | tail _ hs ih => exact ih.step hs

/-- In every run of such calls the number of messages of a queue stays within its bounds, and
the messages received from it followed by those pending in it are the messages sent to it. -/
theorem message_queue_fifo {c : Config} (h : Relation.ReflTransGen Step {} c) {i : Nat}
    (hi : c.state.queues.bitmap i = true) :
    0 ≤ (c.state.queues.slots i).curMsgs ∧
      (c.state.queues.slots i).curMsgs ≤ (c.state.queues.slots i).maxMsgs ∧
      ∃ msgs, Pending c.state i msgs ∧ c.sent i = c.received i ++ msgs := by
  obtain ⟨msgs, hp, hlog⟩ := (Inv.run h).fifo i hi
  have hfits : msgs.length ≤ (c.state.queues.slots i).maxMsgs := hp.holds.fits
  have hcount := hp.count
  exact ⟨by omega, by omega, msgs, hp, hlog⟩

def oneQueue : Config := ({} : Config).call (.create [0x61] ipcCreat 2 16 4096 0)

def oneMessage : Config := oneQueue.call (.send 0 0 ⟨7, [0x62]⟩ 0)

/-- Task 1 waits for the first message and is resumed, and a second message is pending. -/
def resumed : Config :=
  [.receive 1 0, .send 0 0 ⟨7, [0x62]⟩ 0, .resumeReceive 1 0, .send 0 0 ⟨8, [0x63]⟩ 0].foldl Config.call
    oneQueue

theorem clear_alone {mqid : Int} (h : s.queues.bitmap = update (fun _ => false) 0 true)
    (hl : s.queues.lookup maxMsgQueues mqid = some i) (hid : mqid = 0) (n : Nat) : Clear s i n := by
  intro j hj hji
  obtain ⟨hi, -⟩ := Table.lookup_eq_some hl
  rw [h, update_of_ne (by omega)] at hj
  cases hj

theorem resumed_reached : Relation.ReflTransGen Step {} resumed := by
  have hcreate : Step {} oneQueue := .call (.create [0x61] ipcCreat 2 16 4096 0) trivial trivial
  have hwait := Step.call (c := oneQueue) (.receive 1 0) rfl trivial
  have hsend := Step.call (c := oneQueue.call (.receive 1 0)) (.send 0 0 ⟨7, [0x62]⟩ 0) rfl
    fun i hl _ _ => clear_alone rfl hl rfl _
  refine .tail (.tail (.tail (.tail (.single hcreate) hwait) hsend) (.call (.resumeReceive 1 0) rfl ?_))
    (.call (.send 0 0 ⟨8, [0x63]⟩ 0) rfl fun i hl _ _ => clear_alone rfl hl rfl _)
  show 0 < _
  decide

theorem resumed_fifo : (resumed.received 0).length = 1 ∧ ∃ msgs, Pending resumed.state 0 msgs ∧
    resumed.sent 0 = resumed.received 0 ++ msgs :=
  ⟨rfl, (message_queue_fifo resumed_reached (by decide)).2.2⟩

/-- A receiver that is resumed while the queue is still empty makes its count negative. -/
theorem empty_queue_underflows :
    (oneQueue.call (.receive 0 0)).calls 0 = some (.receive 0) ∧
      (((oneQueue.call (.receive 0 0)).call (.resumeReceive 0 0)).state.queues.slots 0).curMsgs =
        -1 :=
  ⟨rfl, by decide⟩

end TocinOS.IpcQueues

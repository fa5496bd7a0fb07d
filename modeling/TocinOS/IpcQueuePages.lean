import TocinOS.IpcQueueRuns

/-! Where the slots of a message queue lie. `mq_create` takes one page for all of them. -/

namespace TocinOS.IpcQueues

open Ipc

abbrev pageSize : Nat := 4096

def InPage (q : Queue) (a n : Nat) : Prop := q.messages ≤ a ∧ a + n ≤ q.messages + pageSize

structure Indexed (q : Queue) : Prop extends Sized q where
  head : q.head < q.maxMsgs
  tail : q.tail < q.maxMsgs

def Indices (s : State) : Prop := ∀ i, s.queues.bitmap i = true → Indexed (s.queues.slots i)

variable {s : State} {c : Config}

theorem Indices.modify (h : Indices s) (i : Nat) {f : Queue → Queue}
    (hf : ∀ q, Indexed q → Indexed (f q)) : Indices (s.modify i f) := by
  intro j hj
  by_cases hji : j = i
  · subst hji
    simpa [State.modify] using hf _ (h j hj)
  · simpa [State.modify, hji] using h j hj

theorem Indices.store (h : Indices s) (i : Nat) (msg : Message) (now : Nat) :
    Indices (store s i msg now) := by
  have hmodify := h.modify i
    (f := fun q => { q with tail := (q.tail + 1) % q.maxMsgs, curMsgs := q.curMsgs + 1 })
    fun q hq => ⟨⟨hq.pos, hq.le, hq.size⟩, hq.head, Nat.mod_lt _ hq.pos⟩
  exact hmodify

theorem Indices.fetch (h : Indices s) (i : Nat) : Indices (fetch s i).2 :=
  h.modify i fun _ hq => ⟨⟨hq.pos, hq.le, hq.size⟩, Nat.mod_lt _ hq.pos, hq.tail⟩

theorem Indices.blocked (h : Indices s) (i : Nat) (writers readers : Queue → Int) :
    Indices (s.modify i fun q =>
      { q with blockedWriters := writers q, blockedReaders := readers q }) :=
  h.modify i fun _ hq => ⟨⟨hq.pos, hq.le, hq.size⟩, hq.head, hq.tail⟩

theorem Indices.send (h : Indices s) (mqid : Int) (msg : Message) (now : Nat) :
    Indices (mqSend s mqid msg now).2 := by
  unfold mqSend
  cases s.queues.lookup maxMsgQueues mqid with
  | none => exact h
  | some i =>
    dsimp only
    split_ifs
    · exact h
    · exact h
    · exact h.blocked i (fun q => q.blockedWriters + 1) Queue.blockedReaders
    · exact h.store i msg now

theorem Indices.receive (h : Indices s) (mqid : Int) : Indices (mqReceive s mqid).2 := by
  unfold mqReceive
  cases s.queues.lookup maxMsgQueues mqid with
  | none => exact h
  | some i =>
    dsimp only
    split_ifs
    · exact h
    · exact h.blocked i Queue.blockedWriters fun q => q.blockedReaders + 1
    · exact h.fetch i

theorem Indices.create (h : Indices s) (name : List Byte) (flags : BitVec 32)
    (maxMsgs maxMsgSize' : Int) (page : Nat) (owner : Int) :
    Indices (mqCreate s name flags maxMsgs maxMsgSize' page owner).2 := by
  rcases mqCreate_cases s name flags maxMsgs maxMsgSize' page owner with
    he | ⟨mqid, q, -, hq, hhead, htail, -, he⟩
  · rw [he]
    exact h
  · rw [he]
    intro j hj
    by_cases hji : j = mqid
    · subst hji
      rw [Table.occupy_self]
      exact ⟨hq, hhead ▸ hq.pos, htail ▸ hq.pos⟩
    · rw [Table.occupy_of_ne _ hji]
      exact h j (by rwa [Table.occupy_bitmap_of_ne _ hji] at hj)

theorem Indices.call (h : Indices c.state) (a : Call) : Indices (c.call a).state := by
  cases a with
  | create name flags maxMsgs maxMsgSize' page owner =>
    exact h.create name flags maxMsgs maxMsgSize' page owner
  | send task mqid msg now => exact h.send mqid msg now
  | resumeSend task i msg now =>
    exact (h.blocked i (fun q => q.blockedWriters - 1) Queue.blockedReaders).store i msg now
  | receive task mqid =>
    have hreceive := h.receive mqid
    simp only [Config.call]
    generalize mqReceive c.state mqid = r at hreceive
    obtain ⟨_ | _ | _, s⟩ := r
    all_goals exact hreceive
  | resumeReceive task i =>
    exact (h.blocked i Queue.blockedWriters fun q => q.blockedReaders - 1).fetch i

theorem Indices.run (h : Relation.ReflTransGen (fun c d => ∃ a, d = Config.call c a) {} c) :
    Indices c.state := by
  induction h with
  | refl => exact fun i hi => (nomatch hi)
  | tail _ hstep ih =>
    obtain ⟨a, rfl⟩ := hstep
    exact ih.call a

/-- After any calls the indices of a queue are slots of it, and no slot lies in its page. What a
send stores at the tail stays in the page only at the first slot, up to 4080 bytes of data. -/
theorem no_slot_in_page (h : Relation.ReflTransGen (fun c d => ∃ a, d = Config.call c a) {} c)
    {i : Nat} (hi : c.state.queues.bitmap i = true) :
    let q := c.state.queues.slots i
    q.head < q.maxMsgs ∧ q.tail < q.maxMsgs ∧
      (∀ k < q.maxMsgs, ¬ InPage q (slotAddr q k) messageSize) ∧
      ∀ n, InPage q (slotAddr q q.tail) (16 + n) ↔ q.tail = 0 ∧ n ≤ 4080 := by
  have hq := Indices.run h i hi
  refine ⟨hq.head, hq.tail, fun k _ hk => ?_, fun n => ?_⟩
  · simp only [InPage, slotAddr, messageSize, pageSize] at hk
    omega
  · simp only [InPage, slotAddr, messageSize, pageSize]
    omega

theorem oneMessage_leaves_page : let q := oneMessage.state.queues.slots 0
    q.tail = 1 ∧ ∀ k < q.maxMsgs, ¬ InPage q (slotAddr q k) messageSize :=
  ⟨by decide, (no_slot_in_page (.tail (.single ⟨.create [0x61] ipcCreat 2 16 4096 0, rfl⟩)
    ⟨.send 0 0 ⟨7, [0x62]⟩ 0, rfl⟩) (by decide)).2.2.1⟩

/-- The second message of the queue goes to the memory behind its page. -/
theorem second_slot_behind_page : let q := oneMessage.state.queues.slots 0
    q.messages + pageSize ≤ slotAddr q q.tail ∧ ¬ InPage q (slotAddr q q.tail) messageSize := by
  refine ⟨by decide, fun h => absurd h.2 (by decide)⟩

end TocinOS.IpcQueues

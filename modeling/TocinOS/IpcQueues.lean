import TocinOS.IpcTables
import TocinOS.LittleEndian
import TocinOS.RingBuffer

/-! The message queues of `kernel/ipc.c`. A queue owns one page, but the messages of its ring
are 8208 bytes each, so the ring is modelled where it lies, in the memory of the machine.
`mq_send` and `mq_receive` are cut where they call `task_block`. -/

namespace TocinOS.IpcQueues

open Function (update)
open Ipc

abbrev Byte := BitVec 8

abbrev Memory := Nat → Byte

abbrev maxMsgQueues : Nat := 64
abbrev maxMsgSize : Nat := 8192
abbrev maxMsgsPerQueue : Nat := 32

abbrev messageSize : Nat := 8208

structure Message where
  type : BitVec 32
  data : List Byte

structure Queue where
  name : List Byte := []
  flags : BitVec 32 := 0
  maxMsgs : Nat := 0
  maxMsgSize : Nat := 0
  curMsgs : Int := 0
  messages : Nat := 0
  head : Nat := 0
  tail : Nat := 0
  owner : Int := 0
  blockedReaders : Int := 0
  blockedWriters : Int := 0

structure State where
  queues : Table Queue := { slots := fun _ => {} }
  memory : Memory := fun _ => 0

def findMsgqueue (s : State) (name : List Byte) : Option Nat :=
  (List.range maxMsgQueues).find? fun i =>
    s.queues.bitmap i && (s.queues.slots i).name != [] && (s.queues.slots i).name == name

/-- The id of the queue, or -1. `page` is what `pmm_alloc_page` returns. -/
def mqCreate (s : State) (name : List Byte) (flags : BitVec 32) (maxMsgs maxMsgSize' : Int)
    (page : Nat) (owner : Int) : Int × State :=
  if maxMsgs ≤ 0 ∨ maxMsgSize' ≤ 0 ∨ maxMsgSize' > maxMsgSize then (-1, s)
  else
    match findMsgqueue s name with
    | some existing => if has flags ipcExcl then (-1, s) else (existing, s)
    | none =>
      if !has flags ipcCreat then (-1, s)
      else
        match s.queues.firstFree maxMsgQueues with
        | none => (-1, s)
        | some mqid =>
          if page = 0 then (-1, s)
          else
            let queue : Queue :=
              { name := name.take 31
                flags
                maxMsgs := if maxMsgs < maxMsgsPerQueue then maxMsgs.toNat else maxMsgsPerQueue
                maxMsgSize := maxMsgSize'.toNat
                messages := page
                owner }
            (mqid, { s with queues := s.queues.occupy mqid queue })

/-! ### Messages in memory -/

def slotAddr (q : Queue) (k : Nat) : Nat := q.messages + k * messageSize

def messageAt (m : Memory) (a : Nat) : Message where
  type := BitVec.ofNat 32 (LittleEndian.get m a 4)
  data := (List.range (LittleEndian.get m (a + 4) 4)).map fun i => m (a + 16 + i)

def writeMessage (m : Memory) (a : Nat) (msg : Message) (now : Nat) : Memory :=
  let m := LittleEndian.put m a 4 msg.type.toNat
  let m := LittleEndian.put m (a + 4) 4 msg.data.length
  let m := LittleEndian.put m (a + 8) 8 now
  fun x => if a + 16 ≤ x ∧ x < a + 16 + msg.data.length then msg.data.getD (x - (a + 16)) 0 else m x

/-! ### Sending and receiving -/

def State.modify (s : State) (i : Nat) (f : Queue → Queue) : State :=
  { s with queues := s.queues.modify i f }

def store (s : State) (i : Nat) (msg : Message) (now : Nat) : State :=
  let q := s.queues.slots i
  { (s.modify i fun q => { q with tail := (q.tail + 1) % q.maxMsgs, curMsgs := q.curMsgs + 1 }) with
    memory := writeMessage s.memory (slotAddr q q.tail) msg now }

def mqSend (s : State) (mqid : Int) (msg : Message) (now : Nat) : Outcome × State :=
  match s.queues.lookup maxMsgQueues mqid with
  | none => (.returned (-1), s)
  | some i =>
    let q := s.queues.slots i
    if msg.data.length > q.maxMsgSize then (.returned (-1), s)
    else if q.curMsgs ≥ q.maxMsgs then
      if has q.flags ipcNowait then (.returned (-1), s)
      else (.blocked, s.modify i fun q => { q with blockedWriters := q.blockedWriters + 1 })
    else (.returned 0, store s i msg now)

/-- `mq_send` goes on after `task_block`, without a second look at the queue. -/
def mqSendResume (s : State) (i : Nat) (msg : Message) (now : Nat) : State :=
  store (s.modify i fun q => { q with blockedWriters := q.blockedWriters - 1 }) i msg now

def fetch (s : State) (i : Nat) : Message × State :=
  let q := s.queues.slots i
  (messageAt s.memory (slotAddr q q.head),
    s.modify i fun q => { q with head := (q.head + 1) % q.maxMsgs, curMsgs := q.curMsgs - 1 })

inductive Receipt where
  | message (msg : Message)
  | failed
  | blocked

def mqReceive (s : State) (mqid : Int) : Receipt × State :=
  match s.queues.lookup maxMsgQueues mqid with
  | none => (.failed, s)
  | some i =>
    let q := s.queues.slots i
    if q.curMsgs = 0 then
      if has q.flags ipcNowait then (.failed, s)
      else (.blocked, s.modify i fun q => { q with blockedReaders := q.blockedReaders + 1 })
    else (.message (fetch s i).1, (fetch s i).2)

def mqReceiveResume (s : State) (i : Nat) : Message × State :=
  fetch (s.modify i fun q => { q with blockedReaders := q.blockedReaders - 1 }) i

/-! ### Reading back what was written -/

theorem writeMessage_outside (m : Memory) {a x : Nat} (msg : Message) (now : Nat)
    (h : x < a ∨ a + 16 + msg.data.length ≤ x) : writeMessage m a msg now x = m x := by
  simp only [writeMessage, LittleEndian.put]
  rw [if_neg (by omega), if_neg (by omega), if_neg (by omega), if_neg (by omega)]

theorem messageAt_congr {m m' : Memory} {a : Nat}
    (h : ∀ x, a ≤ x → x < a + 16 + (messageAt m a).data.length → m' x = m x) :
    messageAt m' a = messageAt m a := by
  have hsize : LittleEndian.get m' (a + 4) 4 = LittleEndian.get m (a + 4) 4 :=
    LittleEndian.get_congr fun x _ _ => h x (by omega) (by omega)
  have htype : LittleEndian.get m' a 4 = LittleEndian.get m a 4 :=
    LittleEndian.get_congr fun x _ _ => h x (by omega) (by omega)
  rw [messageAt, messageAt, hsize, htype]
  congr 1
  apply List.map_congr_left
  intro i hi
  refine h _ (by omega) ?_
  simp only [messageAt, List.length_map, List.length_range]
  have := List.mem_range.mp hi
  omega

theorem messageAt_writeMessage (m : Memory) (a : Nat) {msg : Message} (now : Nat)
    (h : msg.data.length < 2 ^ 32) : messageAt (writeMessage m a msg now) a = msg := by
  have hbelow : ∀ n pos, pos + n ≤ a + 16 → LittleEndian.get (writeMessage m a msg now) pos n =
      LittleEndian.get (LittleEndian.put (LittleEndian.put (LittleEndian.put m a 4 msg.type.toNat)
        (a + 4) 4 msg.data.length) (a + 8) 8 now) pos n := by
    intro n pos hn
    apply LittleEndian.get_congr
    intro x _ _
    exact if_neg (by omega)
  have htype : LittleEndian.get (writeMessage m a msg now) a 4 = msg.type.toNat := by
    rw [hbelow 4 a (by omega), LittleEndian.get_put_of_disjoint _ _ (by omega),
      LittleEndian.get_put_of_disjoint _ _ (by omega), LittleEndian.get_put _ _ msg.type.isLt]
  have hsize : LittleEndian.get (writeMessage m a msg now) (a + 4) 4 = msg.data.length := by
    rw [hbelow 4 (a + 4) (by omega), LittleEndian.get_put_of_disjoint _ _ (by omega),
      LittleEndian.get_put _ _ h]
  have hdata : (List.range msg.data.length).map
      (fun i => writeMessage m a msg now (a + 16 + i)) = msg.data := by
    apply List.ext_getElem
    · simp
    · intro i hi hi'
      simp [writeMessage, hi']
  rw [messageAt, htype, hsize, hdata, BitVec.ofNat_toNat, BitVec.setWidth_eq]

end TocinOS.IpcQueues

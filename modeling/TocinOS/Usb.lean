import Mathlib

/-! The replies of a device that `kernel/drivers/usb/usb_core.c` walks over: the descriptors behind
a configuration and the text of a string descriptor. -/

namespace TocinOS.Usb

abbrev maxInterfaces : Nat := 8
abbrev maxEndpoints : Nat := 16

inductive Kind where
  | configuration | interface | endpoint | other

structure Endpoint where
  address : BitVec 8 := 0
  direction : BitVec 8 := 0
  type : BitVec 8 := 0
  maxPacketSize : BitVec 16 := 0
  interval : BitVec 8 := 0

structure Interface where
  number : BitVec 8 := 0
  alternate : BitVec 8 := 0
  classCode : BitVec 8 := 0
  subclass : BitVec 8 := 0
  protocol : BitVec 8 := 0
  numEndpoints : Nat := 0
  endpoints : Nat → Endpoint := fun _ => {}
  /-- Where the descriptor stands that the entry was made from. -/
  descriptor : Nat := 0

inductive Access where
  | read (offset : Nat)
  | interface (slot : Nat)
  | endpoint (slot index : Nat)
  | attach (owner follows : Option Nat)
  | char (index : Int) (c : BitVec 8)

/-- What a reply of `received` bytes, and a buffer of `length` for its text, leave room for. -/
def Access.Allowed (received length : Int) : Access → Prop
  | .read offset => offset < received
  | .interface slot => slot < maxInterfaces
  | .endpoint slot index => slot < maxInterfaces ∧ index < maxEndpoints
  | .attach owner follows => owner = follows
  | .char index _ => 0 ≤ index ∧ index < length

instance (received length : Int) : DecidablePred (Access.Allowed received length)
  | .read _ | .interface _ | .endpoint _ _ | .attach _ _ | .char _ _ => by
    unfold Access.Allowed; infer_instance

def Safe (received length : Int) (log : List Access) : Prop := ∀ a ∈ log, a.Allowed received length

instance (received length : Int) (log : List Access) : Decidable (Safe received length log) :=
  inferInstanceAs (Decidable (∀ a ∈ log, _))

/-- The device under construction, where the last interface descriptor stands, and the accesses,
newest first. -/
structure Parse where
  config : Option (List (BitVec 8)) := none
  numInterfaces : Nat := 0
  interfaces : Nat → Interface := fun _ => {}
  current : Option Nat := none
  last : Option Nat := none
  log : List Access := []

def reads (p : Nat) (offsets : List Nat) : List Access := offsets.map fun i => .read (p + i)

section Walk

variable (kmalloc : Nat → Bool) (data : Nat → BitVec 8)

def kind (p : Nat) : Kind :=
  if data (p + 1) = 2 then .configuration
  else if data (p + 1) = 4 then .interface
  else if data (p + 1) = 5 then .endpoint
  else .other

def Parse.descriptor (p : Nat) (s : Parse) : Parse :=
  match kind data p with
  | .configuration =>
    if kmalloc p then
      { s with
        config := some ((List.range 9).map fun i => data (p + i))
        log := reads p (List.range 9) ++ s.log }
    else { s with config := none }
  | .interface =>
    if s.numInterfaces < maxInterfaces then
      { s with
        current := some s.numInterfaces
        numInterfaces := s.numInterfaces + 1
        interfaces := Function.update s.interfaces s.numInterfaces
          { number := data (p + 2), alternate := data (p + 3), classCode := data (p + 5)
            subclass := data (p + 6), protocol := data (p + 7), descriptor := p }
        last := p
        log := .interface s.numInterfaces :: reads p [2, 3, 5, 6, 7] ++ s.log }
    else { s with last := p }
  | .endpoint =>
    match s.current.filter fun i => (s.interfaces i).numEndpoints < maxEndpoints with
    | some i =>
      let f := s.interfaces i
      { s with
        interfaces := Function.update s.interfaces i
          { f with
            numEndpoints := f.numEndpoints + 1
            endpoints := Function.update f.endpoints f.numEndpoints
              { address := data (p + 2) &&& 0x0F, direction := data (p + 2) &&& 0x80
                type := data (p + 3) &&& 0x03, maxPacketSize := data (p + 5) ++ data (p + 4)
                interval := data (p + 6) } }
        log := .attach f.descriptor s.last :: .endpoint i f.numEndpoints ::
          reads p [2, 3, 4, 5, 6] ++ s.log }
    | none => { s with log := .attach none s.last :: s.log }
  | .other => s

def parseLoop (total : Nat) : Nat → Nat → Parse → Option Parse
  | 0, p, s => if p < total then none else some s
  | fuel + 1, p, s =>
    if p < total then
      let s := { s with log := reads p [0, 1] ++ s.log }
      if data p = 0 then some s
      else parseLoop total fuel (p + (data p).toNat) (s.descriptor kmalloc data p)
    else some s

/-- Every round moves on by a byte at least. -/
def usbParseConfig (total : Nat) : Option Parse := parseLoop kmalloc data total total 0 {}

/-- The descriptor at `p`, behind `n` interface descriptors and `e` endpoint descriptors of the last
one: the fields that are used were received, and an endpoint is one of the first sixteen of one of
the first eight interfaces. -/
def Placed (total n e p : Nat) : Prop :=
  match kind data p with
  | .configuration => kmalloc p → p + 8 < total
  | .interface => n < maxInterfaces → p + 7 < total
  | .endpoint => n ≠ 0 → (n ≤ maxInterfaces ∧ e < maxEndpoints) ∧ p + 6 < total
  | .other => True

def interfacesTo (n p : Nat) : Nat :=
  match kind data p with
  | .interface => n + 1
  | _ => n

def endpointsTo (e p : Nat) : Nat :=
  match kind data p with
  | .interface => 0
  | .endpoint => e + 1
  | _ => e

/-- All descriptors from `p` on are complete and have a place. -/
inductive Complete (total : Nat) : Nat → Nat → Nat → Prop
  | done {n e p : Nat} : total ≤ p → Complete total n e p
  | stop {n e p : Nat} : p + 1 < total → data p = 0 → Complete total n e p
  | next {n e p : Nat} : p + 1 < total → data p ≠ 0 → Placed kmalloc data total n e p →
    Complete total (interfacesTo data n p) (endpointsTo data e p) (p + (data p).toNat) →
    Complete total n e p

/-- The entry that `current_interface` points at. -/
def Parse.newest (s : Parse) : Interface := s.interfaces (s.numInterfaces - 1)

/-- What `n` interface descriptors in front of `p` make of the device. -/
structure Inv (n e p : Nat) (s : Parse) : Prop where
  num : s.numInterfaces = min n maxInterfaces
  current : s.current = if n = 0 then none else some (s.numInterfaces - 1)
  first : s.last = none ↔ n = 0
  before : n ≠ 0 → s.newest.descriptor < p
  last : n ≠ 0 → n ≤ maxInterfaces →
    s.last = s.newest.descriptor ∧ s.newest.numEndpoints = min e maxEndpoints
  dropped : maxInterfaces < n → s.last ≠ s.newest.descriptor

variable {kmalloc data} {total n e p q : Nat} {s s' : Parse} {length : Int}

theorem safe_reads {offsets : List Nat} {log : List Access} :
    Safe total length (reads p offsets ++ log) ↔
      (∀ i ∈ offsets, p + i < total) ∧ Safe total length log := by
  simp only [Safe, reads, List.forall_mem_append, List.forall_mem_map, Access.Allowed,
    Int.ofNat_lt]

theorem safe_cons {received : Int} {a : Access} {log : List Access} :
    Safe received length (a :: log) ↔ a.Allowed received length ∧ Safe received length log :=
  List.forall_mem_cons

theorem Inv.keep (h : Inv n e p s) (hq : p < q)
    (hsame : s'.numInterfaces = s.numInterfaces ∧ s'.current = s.current ∧ s'.last = s.last ∧
      s'.newest.descriptor = s.newest.descriptor) {e' : Nat}
    (he : n ≠ 0 → n ≤ maxInterfaces → s'.newest.numEndpoints = min e' maxEndpoints) :
    Inv n e' q s' := by
  obtain ⟨hnum, hcurrent, hlast, hd⟩ := hsame
  constructor
  · exact hnum.trans h.num
  · rw [hcurrent, hnum, h.current]
  · rw [hlast, h.first]
  · exact fun h0 => hd ▸ Nat.lt_trans (h.before h0) hq
  · rw [hlast, hd]
    exact fun h0 h8 => ⟨(h.last h0 h8).1, he h0 h8⟩
  · rw [hlast, hd]
    exact h.dropped

theorem Inv.descriptor (h : Inv n e p s) (hq : p < q) :
    Inv (interfacesTo data n p) (endpointsTo data e p) q (s.descriptor kmalloc data p) ∧
      (Safe total length (s.descriptor kmalloc data p).log ↔
        Placed kmalloc data total n e p ∧ Safe total length s.log) := by
  have h8 : maxInterfaces = 8 := rfl
  have hnum := h.num
  unfold Parse.descriptor Placed interfacesTo endpointsTo
  cases hk : kind data p with
  | configuration =>
    have hinv {c log} : Inv n e q { s with config := c, log := log } :=
      h.keep hq (by simp [Parse.newest]) fun h0 h8 => (h.last h0 h8).2
    by_cases ha : kmalloc p
    · simp only [ha, if_true, true_implies]
      refine ⟨hinv, safe_reads.trans (and_congr_left' ⟨fun h => ?_, fun h i hi => ?_⟩)⟩
      · exact h 8 (by decide)
      · have := List.mem_range.mp hi
        omega
    · exact ⟨by simpa [ha] using hinv, by simp [ha]⟩
  | interface =>
    by_cases hroom : s.numInterfaces < maxInterfaces
    · have hn : n < maxInterfaces := by omega
      simp only [hroom, if_true, hn, true_implies, List.cons_append]
      constructor
      · constructor <;> simp [Parse.newest, hq] <;> omega
      · rw [safe_cons, safe_reads, ← and_assoc]
        refine and_congr_left' ?_
        simp [Access.Allowed]
        omega
    · have hn : ¬ n < maxInterfaces := by omega
      have hlt := h.before (by omega)
      simp only [hroom, if_false, hn, false_implies, true_and, iff_self, and_true]
      constructor
      · exact hnum.trans (by omega)
      · rw [h.current, if_neg (by omega), if_neg (by omega)]
      · simp
      · exact fun _ => Nat.lt_trans hlt hq
      · omega
      · exact fun _ => mt Option.some_inj.mp (Nat.ne_of_gt hlt)
  | endpoint =>
    cases hf : s.current.filter fun i => (s.interfaces i).numEndpoints < maxEndpoints with
    | none =>
      have hfull (h0 : n ≠ 0) : maxEndpoints ≤ s.newest.numEndpoints := by
        simpa [h.current, h0, Parse.newest] using hf
      constructor
      · refine h.keep hq (by simp [Parse.newest]) fun h0 h8 => ?_
        have := (h.last h0 h8).2
        have := hfull h0
        simp only [Parse.newest] at *
        omega
      · rw [safe_cons, Access.Allowed, eq_comm, h.first]
        refine and_congr_left' ⟨fun hn h => absurd hn h, fun hfit => ?_⟩
        by_contra h0
        have := (h.last h0 (hfit h0).1.1).2
        have := hfull h0
        omega
    | some i =>
      obtain ⟨hi, hlt⟩ := Option.filter_eq_some_iff.mp hf
      have h0 : n ≠ 0 := fun h0 => by simp [h.current, h0] at hi
      obtain rfl : s.numInterfaces - 1 = i := by simpa [h.current, h0] using hi
      have hroom : s.newest.numEndpoints < maxEndpoints := of_decide_eq_true hlt
      constructor
      · refine h.keep hq (by simp [Parse.newest]) fun h0 h8 => ?_
        have := (h.last h0 h8).2
        simp only [Parse.newest, Function.update_self] at *
        omega
      · simp only [List.cons_append, safe_cons, safe_reads, ← and_assoc]
        refine and_congr_left' ?_
        have howner : some s.newest.descriptor = s.last ↔ n ≤ maxInterfaces :=
          ⟨fun heq => Nat.le_of_not_lt fun h9 => h.dropped h9 heq.symm,
            fun h8 => (h.last h0 h8).1.symm⟩
        constructor
        · rintro ⟨⟨hattach, -⟩, hread⟩ -
          have h8 := howner.mp hattach
          have := (h.last h0 h8).2
          exact ⟨⟨h8, by omega⟩, hread 6 (by decide)⟩
        · intro hfit
          obtain ⟨⟨h8, -⟩, ht⟩ := hfit h0
          exact ⟨⟨howner.mpr h8, by omega, hroom⟩, by simp; omega⟩
  | other =>
    exact ⟨h.keep hq (by simp [Parse.newest]) fun h0 h8 => (h.last h0 h8).2, by simp⟩

theorem Inv.parseLoop (h : Inv n e p s) {fuel : Nat} (hfuel : total ≤ p + fuel) :
    ∃ s', parseLoop kmalloc data total fuel p s = some s' ∧ (Safe total length s'.log ↔
      Complete kmalloc data total n e p ∧ Safe total length s.log) := by
  induction fuel generalizing n e p s with
  | zero => exact ⟨s, if_neg (by omega), by simp [Complete.done (show total ≤ p from hfuel)]⟩
  | succ fuel ih =>
    rw [Usb.parseLoop]
    by_cases hp : p < total
    · have hread {log} : Safe total length (reads p [0, 1] ++ log) ↔
          p + 1 < total ∧ Safe total length log := by
        simp [safe_reads, hp]
      rw [if_pos hp]
      by_cases h0 : data p = 0
      · refine ⟨_, if_pos h0, hread.trans (and_congr_left' ⟨fun hhead => .stop hhead h0, ?_⟩)⟩
        rintro (hle | ⟨hhead, -⟩ | ⟨hhead, -⟩)
        · omega
        · exact hhead
        · exact hhead
      · have hpos : (data p).toNat ≠ 0 := fun hz => h0 (BitVec.eq_of_toNat_eq hz)
        have hinv : Inv n e p { s with log := reads p [0, 1] ++ s.log } :=
          ⟨h.num, h.current, h.first, h.before, h.last, h.dropped⟩
        obtain ⟨hinv, hsafe⟩ := hinv.descriptor (q := p + (data p).toNat) (by omega)
        obtain ⟨s', hrun, hall⟩ := ih hinv (by omega)
        refine ⟨s', (if_neg h0).trans hrun, hall.trans ?_⟩
        rw [hsafe, hread]
        constructor
        · rintro ⟨hrest, hplaced, hhead, hlog⟩
          exact ⟨.next hhead h0 hplaced hrest, hlog⟩
        · rintro ⟨hle | ⟨-, hz⟩ | ⟨hhead, -, hplaced, hrest⟩, hlog⟩
          · omega
          · exact absurd hz h0
          · exact ⟨hrest, hplaced, hhead, hlog⟩
    · exact ⟨s, if_neg hp, by simp [Complete.done (Nat.le_of_not_lt hp)]⟩

end Walk

/-- `ret` is the result of the transfer into `raw`. -/
def usbGetString (index : BitVec 8) (ret : Int) (raw : Nat → BitVec 8) (length : Int) :
    Int × List Access :=
  if index = 0 then (0, [.char 0 0])
  else if ret < 2 then (ret, [.char 0 0])
  else
    let strLen := min (((raw 0).toNat - 2 : Int).tdiv 2) (length - 1)
    (strLen, .read 0 :: (List.range strLen.toNat).flatMap (fun i =>
      [.read (2 + i * 2), .char i (raw (2 + i * 2))]) ++ [.char strLen 0])

/-- The length byte is not zero, and one of it and the buffer asks for no more than was received. -/
def TextFits (index : BitVec 8) (ret : Int) (raw : Nat → BitVec 8) (length : Int) : Prop :=
  0 < length ∧ (index = 0 ∨ ret < 2 ∨
    raw 0 ≠ 0 ∧ (2 * ((raw 0).toNat / 2 : Int) < ret + 2 ∨ 2 * length < ret + 2))

theorem safe_usbGetString_iff (index : BitVec 8) (ret : Int) (raw : Nat → BitVec 8) (length : Int) :
    Safe ret length (usbGetString index ret raw length).2 ↔ TextFits index ret raw length := by
  have hend : Safe ret length [.char 0 0] ↔ 0 < length := by simp [Safe, Access.Allowed]
  unfold usbGetString TextFits
  by_cases hi : index = 0
  · rw [if_pos hi, hend]
    simp [hi]
  by_cases hr : ret < 2
  · rw [if_neg hi, if_pos hr, hend]
    simp [hr]
  have hraw : raw 0 ≠ 0 ↔ (raw 0).toNat ≠ 0 := (BitVec.toNat_ne_iff_ne (y := 0)).symm
  obtain ⟨a, ha⟩ : ∃ a, a = ((raw 0).toNat - 2 : Int).tdiv 2 := ⟨_, rfl⟩
  have hdiv : (raw 0).toNat = 0 ∧ a = -1 ∨ (raw 0).toNat = 1 ∧ a = 0 ∨
      2 ≤ (raw 0).toNat ∧ a = (raw 0).toNat / 2 - 1 := by
    obtain h0 | h1 | h2 : (raw 0).toNat = 0 ∨ (raw 0).toNat = 1 ∨ 2 ≤ (raw 0).toNat := by omega
    · simp [ha, h0]
    · simp [ha, h1]
    · rw [Int.tdiv_eq_ediv_of_nonneg (by omega)] at ha
      omega
  simp only [hi, hr, if_false, false_or, Safe, List.cons_append, List.forall_mem_cons,
    List.forall_mem_append, List.forall_mem_flatMap, Access.Allowed, ← ha, hraw, List.mem_range,
    List.not_mem_nil, false_implies, implies_true, and_true]
  constructor
  · rintro ⟨-, hloop, hlast⟩
    have := hloop ((min a (length - 1)).toNat - 1)
    omega
  · intro h
    refine ⟨by omega, fun i hi => by omega, by omega⟩

theorem descriptors_safe_iff (kmalloc : Nat → Bool) (data : Nat → BitVec 8) (total : Nat)
    (index : BitVec 8) (ret : Int) (raw : Nat → BitVec 8) (length : Int) :
    (∃ s, usbParseConfig kmalloc data total = some s ∧
      (Safe total 0 s.log ↔ Complete kmalloc data total 0 0 0)) ∧
    (Safe ret length (usbGetString index ret raw length).2 ↔ TextFits index ret raw length) := by
  have hstart : Inv 0 0 0 {} := by constructor <;> simp
  obtain ⟨s, hrun, hsafe⟩ := hstart.parseLoop (Nat.le_of_eq (Nat.zero_add total).symm)
  exact ⟨⟨s, hrun, hsafe.trans (and_iff_left nofun)⟩, safe_usbGetString_iff index ret raw length⟩

/-- A configuration with nine interfaces, the last with an endpoint. -/
def nineInterfaces : List (BitVec 8) :=
  [9, 2, 97, 0, 9, 1, 0, 128, 50] ++ (List.replicate 9 [9, 4, 0, 0, 1, 3, 0, 0, 0]).flatten ++
    [7, 5, 0x81, 3, 8, 0, 10]

theorem ninth_interface_misattached :
    (∃ s, usbParseConfig (fun _ => true) (nineInterfaces.getD · 0) 97 = some s ∧
      ¬ Safe 97 0 s.log) ∧
    ¬ Safe 2 64 (usbGetString 1 2 (fun _ => 0) 64).2 :=
  ⟨⟨_, rfl, by decide⟩, by decide⟩

end TocinOS.Usb

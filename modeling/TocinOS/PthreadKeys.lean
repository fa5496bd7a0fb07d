import Mathlib

/-! The thread-specific keys of `libc/pthread.c`. Threads interleave between their accesses to
`key_bitmap`, `key_destructors` and `tls_values`; a null pointer is 0. The ghost fields `born` and
`setIn` count the creations of a key and keep in which of them a value was set. -/

namespace TocinOS.PthreadKeys

open Function

abbrev keysMax : Nat := 128

def bit (words : Nat → BitVec 32) (i : Nat) : Bool := (words (i / 32)).getLsbD (i % 32)

def mask (i : Nat) : BitVec 32 := 1#32 <<< (i % 32)

inductive Place
  | outside
  -- `pthread_key_create`: the test of a bit, the second read, the swap, the destructor
  | scan (destructor i : Nat)
  | reread (destructor i : Nat)
  | swap (destructor i : Nat) (old : BitVec 32)
  | store (destructor i : Nat)
  -- `pthread_key_delete`
  | forget (key : Nat)
  | release (key : Nat)
  -- the loop of `pthread_exit`
  | exiting (i : Nat)
  | gone

structure Thread where
  place : Place
  values : Nat → Nat
  setIn : Nat → Nat

structure State (ι : Type*) where
  words : Nat → BitVec 32
  destructors : Nat → Nat
  born : Nat → Nat
  thread : ι → Thread

inductive Request
  | create (destructor : Nat)
  | delete (key : Nat)
  | setspecific (key value : Nat)
  | getspecific (key : Nat)
  | exit

inductive Event
  | silent
  | created (key : Nat)
  | failed
  | read (key value : Nat)
  | called (key value : Nat)

variable {ι : Type*} [DecidableEq ι]

def State.put (s : State ι) (t : ι) (th : Thread) : State ι := { s with thread := update s.thread t th }

def State.goto (s : State ι) (t : ι) (place : Place) : State ι :=
  s.put t { s.thread t with place }

def State.call (s : State ι) (t : ι) : Request → Event × State ι
  | .create destructor => (.silent, s.goto t (.scan destructor 0))
  | .delete key => (.silent, if keysMax ≤ key then s else s.goto t (.forget key))
  | .setspecific key value =>
    (.silent,
      if keysMax ≤ key then s
      else s.put t { s.thread t with
        values := update (s.thread t).values key value
        setIn := update (s.thread t).setIn key (s.born key) })
  | .getspecific key => (.read key (if keysMax ≤ key then 0 else (s.thread t).values key), s)
  | .exit => (.silent, s.goto t (.exiting 0))

def State.resume (s : State ι) (t : ι) : Event × State ι :=
  match (s.thread t).place with
  | .outside | .gone => (.silent, s)
  | .scan destructor i =>
    if keysMax ≤ i then (.failed, s.goto t .outside)
    else if bit s.words i then (.silent, s.goto t (.scan destructor (i + 1)))
    else (.silent, s.goto t (.reread destructor i))
  | .reread destructor i => (.silent, s.goto t (.swap destructor i (s.words (i / 32))))
  | .swap destructor i old =>
    if s.words (i / 32) = old then
      (.created i, { s with
        words := update s.words (i / 32) (old ||| mask i)
        born := update s.born i (s.born i + 1) }.goto t (.store destructor i))
    else (.silent, s.goto t (.scan destructor (i + 1)))
  | .store destructor i =>
    (.silent, { s with destructors := update s.destructors i destructor }.goto t .outside)
  | .forget key => (.silent, { s with destructors := update s.destructors key 0 }.goto t (.release key))
  | .release key =>
    (.silent, { s with
      words := update s.words (key / 32) (s.words (key / 32) &&& ~~~ mask key) }.goto t .outside)
  | .exiting i =>
    if keysMax ≤ i then (.silent, s.goto t .gone)
    else
      (if (s.thread t).values i ≠ 0 ∧ s.destructors i ≠ 0 then .called i ((s.thread t).values i)
        else .silent, s.goto t (.exiting (i + 1)))

inductive Action
  | call (request : Request)
  | resume

def State.act (s : State ι) (t : ι) (a : Action) : Event × State ι :=
  match (s.thread t).place, a with
  | .outside, .call request => s.call t request
  | _, .call _ => (.silent, s)
  | _, .resume => s.resume t

def Right (s : State ι) (t : ι) : Event → Prop
  | .silent => True
  | .created key => bit s.words key = false
  | .failed => ∀ key < keysMax, bit s.words key = true
  | .read key value => value ≠ 0 → (s.thread t).setIn key = s.born key
  | .called key _ => bit s.words key = true ∧ (s.thread t).setIn key = s.born key

def Place.Busy : Place → Prop
  | .outside | .exiting _ | .gone => False
  | _ => True

def Place.Handles : Place → Nat → Prop
  | .store _ i, key | .forget i, key | .release i, key => i = key
  | _, _ => False

def Thread.Holds (th : Thread) (key : Nat) : Prop := th.place ≠ .gone ∧ th.values key ≠ 0

/-- Keys are created and deleted by one thread at a time, a key is deleted once its values are null
in all threads that are left, and values are set for keys that are allocated. -/
def Careful (s : State ι) : Action → Prop
  | .call (.create _) => ∀ u, ¬ (s.thread u).place.Busy
  | .call (.delete key) => (∀ u, ¬ (s.thread u).place.Busy) ∧ ∀ u, ¬ (s.thread u).Holds key
  | .call (.setspecific key _) => bit s.words key = true ∧ ∀ u, ¬ (s.thread u).place.Handles key
  | _ => True

def Step (s s' : State ι) : Prop := ∃ t a, s' = (s.act t a).2

def CarefulStep (s s' : State ι) : Prop := ∃ t a, Careful s a ∧ s' = (s.act t a).2

def start : State ι where
  words _ := 0
  destructors _ := 0
  born _ := 0
  thread _ := ⟨.outside, fun _ => 0, fun _ => 0⟩

/-! ### Bits -/

theorem mask_getLsbD (i j : Nat) : (mask i).getLsbD (j % 32) = decide (j % 32 = i % 32) := by
  have hlt := Nat.mod_lt i (by decide : 0 < 32)
  simp only [mask, ← BitVec.twoPow_eq, BitVec.getLsbD_twoPow, hlt, decide_true, Bool.true_and, eq_comm]

theorem bit_set (words : Nat → BitVec 32) (i j : Nat) :
    bit (update words (i / 32) (words (i / 32) ||| mask i)) j = (bit words j || decide (j = i)) := by
  by_cases hword : j / 32 = i / 32
  · have hsame : j = i ↔ j % 32 = i % 32 := by omega
    simp only [bit, hword, update_self, BitVec.getLsbD_or, mask_getLsbD, hsame]
  · have hne : j ≠ i := fun h => hword (congrArg (· / 32) h)
    rw [bit, update_of_ne hword, decide_eq_false hne, Bool.or_false, bit]

theorem bit_clear (words : Nat → BitVec 32) (i j : Nat) :
    bit (update words (i / 32) (words (i / 32) &&& ~~~ mask i)) j = (bit words j && decide (j ≠ i)) := by
  by_cases hword : j / 32 = i / 32
  · have hsame : j = i ↔ j % 32 = i % 32 := by omega
    have hlt := Nat.mod_lt j (by decide : 0 < 32)
    simp only [bit, hword, update_self, BitVec.getLsbD_and, BitVec.getLsbD_not, mask_getLsbD,
      hlt, decide_true, Bool.true_and, ne_eq, hsame, decide_not]
  · have hne : j ≠ i := fun h => hword (congrArg (· / 32) h)
    rw [bit, update_of_ne hword, decide_eq_true hne, Bool.and_true, bit]

/-! ### The invariant of careful runs -/

def Place.Sound (words : Nat → BitVec 32) : Place → Prop
  | .scan _ i => ∀ j < i, bit words j = true
  | .reread _ i => (∀ j < i, bit words j = true) ∧ bit words i = false
  | .swap _ i old => (∀ j < i, bit words j = true) ∧ bit words i = false ∧ words (i / 32) = old
  | _ => True

variable {place : Place}

theorem Place.sound_of_not_busy (h : ¬ place.Busy) (words : Nat → BitVec 32) :
    place.Sound words := by
  cases place <;> first | trivial | exact absurd trivial h

structure Inv (s : State ι) : Prop where
  alone : ∀ t u, (s.thread t).place.Busy → (s.thread u).place.Busy → t = u
  value : ∀ t k, (s.thread t).Holds k →
    bit s.words k = true ∧ (s.thread t).setIn k = s.born k ∧ ∀ u, ¬ (s.thread u).place.Handles k
  sound : ∀ t, (s.thread t).place.Sound s.words

variable {s : State ι} {t : ι}

/-- One thread moves on, with the shared words and counts changed at most for keys that it handles
then. -/
theorem Inv.move (h : Inv s) {words : Nat → BitVec 32} {destructors born : Nat → Nat}
    (hbusy : place.Busy → ∀ u, u ≠ t → ¬ (s.thread u).place.Busy)
    (hhere : (s.thread t).place ≠ .gone)
    (hhandles : ∀ k, place.Handles k → ∀ u, ¬ (s.thread u).Holds k)
    (hvalue : ∀ u k, (s.thread u).Holds k → bit words k = true ∧ born k = s.born k)
    (hsound : place.Sound words)
    (hwords : words = s.words ∨ ∀ u, u ≠ t → ¬ (s.thread u).place.Busy) :
    Inv (State.goto { s with words, destructors, born } t place) := by
  have hself : (State.goto { s with words, destructors, born } t place).thread t =
      { s.thread t with place } := update_self ..
  have hother {u : ι} (hu : u ≠ t) :
      (State.goto { s with words, destructors, born } t place).thread u = s.thread u :=
    update_of_ne hu _ _
  have hvalues {u : ι} {k : Nat}
      (hk : ((State.goto { s with words, destructors, born } t place).thread u).Holds k) :
      (s.thread u).Holds k ∧
      ((State.goto { s with words, destructors, born } t place).thread u).setIn = (s.thread u).setIn := by
    by_cases hu : u = t
    · subst hu
      rw [hself] at hk ⊢
      exact ⟨⟨hhere, hk.2⟩, rfl⟩
    · rw [hother hu] at hk ⊢
      exact ⟨hk, rfl⟩
  refine ⟨fun a b ha hb => ?_, fun u k hk => ?_, fun u => ?_⟩
  · by_cases hat : a = t
    · by_cases hbt : b = t
      · rw [hat, hbt]
      · rw [hat, hself] at ha
        rw [hother hbt] at hb
        exact absurd hb (hbusy ha b hbt)
    · rw [hother hat] at ha
      by_cases hbt : b = t
      · rw [hbt, hself] at hb
        exact absurd ha (hbusy hb a hat)
      · rw [hother hbt] at hb
        exact h.alone a b ha hb
  · obtain ⟨hk, hsame⟩ := hvalues hk
    rw [hsame]
    obtain ⟨-, hset, hfree⟩ := h.value u k hk
    obtain ⟨hbit, hborn⟩ := hvalue u k hk
    refine ⟨hbit, hset.trans hborn.symm, fun b => ?_⟩
    by_cases hbt : b = t
    · rw [hbt, hself]
      exact fun hhandle => hhandles k hhandle u hk
    · rw [hother hbt]
      exact hfree b
  · by_cases hu : u = t
    · rw [hu, hself]
      exact hsound
    · rw [hother hu]
      rcases hwords with rfl | hidle
      · exact h.sound u
      · exact Place.sound_of_not_busy (hidle u hu) _

theorem Inv.goto (h : Inv s) (hbusy : place.Busy → ∀ u, u ≠ t → ¬ (s.thread u).place.Busy)
    (hhere : (s.thread t).place ≠ .gone)
    (hhandles : ∀ k, place.Handles k → ∀ u, ¬ (s.thread u).Holds k)
    (hsound : place.Sound s.words) : Inv (s.goto t place) :=
  h.move hbusy hhere hhandles (fun u k hk => ⟨(h.value u k hk).1, rfl⟩) hsound (.inl rfl)

omit [DecidableEq ι] in
theorem Inv.idle (h : Inv s) (hbusy : (s.thread t).place.Busy) :
    ∀ u, u ≠ t → ¬ (s.thread u).place.Busy := fun u hu hb => hu (h.alone u t hb hbusy)

omit [DecidableEq ι] in
theorem Inv.null_of_handles (h : Inv s) (k : Nat) (hhandles : (s.thread t).place.Handles k) (u : ι) :
    ¬ (s.thread u).Holds k := fun hk => (h.value u k hk).2.2 t hhandles

theorem Inv.resume (h : Inv s) : Inv (s.resume t).2 := by
  have hsound := h.sound t
  have hidle := h.idle (t := t)
  have hnull := h.null_of_handles (t := t)
  by_cases hhere : (s.thread t).place = .gone
  · rw [State.resume, hhere]
    exact h
  rw [State.resume]
  cases hplace : (s.thread t).place with
  | outside => exact h
  | gone => exact absurd hplace hhere
  | scan destructor i =>
    rw [hplace] at hsound hidle
    dsimp only
    split_ifs with hend hbit
    · exact h.goto nofun hhere nofun trivial
    · refine h.goto (fun _ => hidle trivial) hhere nofun fun j hj => ?_
      rcases Nat.lt_succ_iff_lt_or_eq.mp hj with hj | rfl
      · exact hsound j hj
      · exact hbit
    · exact h.goto (fun _ => hidle trivial) hhere nofun ⟨hsound, Bool.eq_false_iff.mpr hbit⟩
  | reread destructor i =>
    rw [hplace] at hsound hidle
    exact h.goto (fun _ => hidle trivial) hhere nofun ⟨hsound.1, hsound.2, rfl⟩
  | swap destructor i old =>
    rw [hplace] at hsound hidle
    obtain ⟨-, hclear, hold⟩ := hsound
    have hnever (u : ι) {k : Nat} (hk : (s.thread u).Holds k) : k ≠ i := by
      rintro rfl
      exact Bool.false_ne_true (hclear.symm.trans (h.value u k hk).1)
    dsimp only
    rw [if_pos hold, ← hold]
    refine h.move (fun _ => hidle trivial) hhere (fun k hk u hne => hnever u hne hk.symm)
      (fun u k hk => ⟨?_, ?_⟩) trivial (.inr (hidle trivial))
    · rw [bit_set, (h.value u k hk).1, Bool.true_or]
    · exact update_of_ne (hnever u hk) _ _
  | store destructor i =>
    exact h.move nofun hhere nofun (fun u k hk => ⟨(h.value u k hk).1, rfl⟩) trivial (.inl rfl)
  | forget key =>
    rw [hplace] at hidle hnull
    refine h.move (fun _ => hidle trivial) hhere hnull
      (fun u k hk => ⟨(h.value u k hk).1, rfl⟩) trivial (.inl rfl)
  | release key =>
    rw [hplace] at hidle hnull
    refine h.move nofun hhere nofun (fun u k hk => ⟨?_, rfl⟩) trivial (.inr (hidle trivial))
    have hne : k ≠ key := by
      rintro rfl
      exact hnull k rfl u hk
    rw [bit_clear, (h.value u k hk).1, Bool.true_and, decide_eq_true hne]
  | exiting i =>
    dsimp only
    split_ifs
    · exact h.goto nofun hhere nofun trivial
    · exact h.goto nofun hhere nofun trivial
    · exact h.goto nofun hhere nofun trivial

theorem Inv.set (h : Inv s) {key : Nat} (value : Nat) (hbit : bit s.words key = true)
    (hfree : ∀ u, ¬ (s.thread u).place.Handles key) :
    Inv (s.put t { s.thread t with
      values := update (s.thread t).values key value
      setIn := update (s.thread t).setIn key (s.born key) }) := by
  generalize hth : ({ s.thread t with
    values := update (s.thread t).values key value
    setIn := update (s.thread t).setIn key (s.born key) } : Thread) = th
  have hself : (s.put t th).thread t = th := update_self ..
  have hother {u : ι} (hu : u ≠ t) : (s.put t th).thread u = s.thread u :=
    update_of_ne hu _ _
  have hplaces (u : ι) : ((s.put t th).thread u).place = (s.thread u).place := by
    by_cases hu : u = t
    · rw [hu, hself, ← hth]
    · rw [hother hu]
  refine ⟨fun a b ha hb => ?_, fun u k hk => ?_, fun u => ?_⟩
  · rw [hplaces] at ha hb
    exact h.alone a b ha hb
  · simp only [hplaces]
    by_cases hu : u = t
    · rw [hu, hself, ← hth] at hk ⊢
      by_cases hkey : k = key
      · rw [hkey]
        exact ⟨hbit, update_self .., hfree⟩
      · dsimp only
        rw [update_of_ne hkey]
        refine h.value t k ⟨hk.1, ?_⟩
        have hvalue := hk.2
        dsimp only at hvalue
        rwa [update_of_ne hkey] at hvalue
    · rw [hother hu] at hk ⊢
      exact h.value u k hk
  · rw [hplaces]
    exact h.sound u

theorem Inv.call (h : Inv s) {request : Request} (hcareful : Careful s (.call request))
    (hhere : (s.thread t).place ≠ .gone) : Inv (s.call t request).2 := by
  cases request with
  | create destructor =>
    exact h.goto (fun _ u _ => hcareful u) hhere nofun fun _ hj => absurd hj (Nat.not_lt_zero _)
  | delete key =>
    obtain ⟨hidle, hnull⟩ := hcareful
    simp only [State.call]
    split_ifs
    · exact h
    · refine h.goto (fun _ u _ => hidle u) hhere (fun k hk u => ?_) trivial
      obtain rfl : key = k := hk
      exact hnull u
  | setspecific key value =>
    obtain ⟨hbit, hfree⟩ := hcareful
    simp only [State.call]
    split_ifs
    · exact h
    · exact h.set value hbit hfree
  | getspecific key => exact h
  | exit => exact h.goto nofun hhere nofun trivial

theorem Inv.act (h : Inv s) {a : Action} (hcareful : Careful s a) : Inv (s.act t a).2 := by
  rw [State.act.eq_def]
  split
  · next hplace => exact h.call hcareful (by simp [hplace])
  · exact h
  · exact h.resume

omit [DecidableEq ι] in
theorem start_inv : Inv (start : State ι) where
  alone _ _ ht _ := ht.elim
  value _ _ hk := absurd rfl hk.2
  sound _ := trivial

theorem Inv.resume_right (h : Inv s) : Right s t (s.resume t).1 := by
  have hsound := h.sound t
  rw [State.resume]
  cases hplace : (s.thread t).place with
  | scan destructor i =>
    rw [hplace] at hsound
    dsimp only
    split_ifs with hend
    · exact fun key hkey => hsound key (Nat.lt_of_lt_of_le hkey hend)
    · trivial
    · trivial
  | swap destructor i old =>
    rw [hplace] at hsound
    dsimp only
    split_ifs
    · exact hsound.2.1
    · trivial
  | exiting i =>
    dsimp only
    split_ifs with hend hcalled
    · trivial
    · obtain ⟨hbit, hset, -⟩ := h.value t i ⟨by simp [hplace], hcalled.1⟩
      exact ⟨hbit, hset⟩
    · trivial
  | _ => trivial

theorem Inv.call_right (h : Inv s) (hhere : (s.thread t).place ≠ .gone) (request : Request) :
    Right s t (s.call t request).1 := by
  cases request with
  | getspecific key =>
    intro hvalue
    split_ifs at hvalue with hkey
    · exact absurd rfl hvalue
    · exact (h.value t key ⟨hhere, hvalue⟩).2.1
  | _ => trivial

/-- In careful runs every creation, failure, read and destructor call is right. -/
theorem keys_right (hrun : Relation.ReflTransGen CarefulStep start s) (t : ι) (a : Action) :
    Right s t (s.act t a).1 := by
  have h : Inv s := by
    induction hrun with
    | refl => exact start_inv
    | tail _ hstep ih =>
      obtain ⟨u, b, hcareful, rfl⟩ := hstep
      exact ih.act hcareful
  rw [State.act.eq_def]
  split
  · next hplace => exact h.call_right (by simp [hplace]) _
  · trivial
  · exact h.resume_right

/-! ### A key that is used again -/

def play (s : State Unit) (acts : List Action) : State Unit :=
  acts.foldl (fun s a => (s.act () a).2) s

theorem play_reached (acts : List Action) (s : State Unit) :
    Relation.ReflTransGen Step s (play s acts) := by
  induction acts generalizing s with
  | nil => exact .refl
  | cons a acts ih => exact .head ⟨(), a, rfl⟩ (ih _)

def createKey : List Action := [.call (.create 9), .resume, .resume, .resume, .resume]

def firstKey : State Unit := play start (createKey ++ [.call (.setspecific 0 7)])

theorem firstKey_reached : Relation.ReflTransGen CarefulStep start firstKey :=
  have hcreate : Relation.ReflTransGen CarefulStep start (play start [.call (.create 9)]) :=
    .single ⟨(), .call (.create 9), fun _ => id, rfl⟩
  have hreturn : Relation.ReflTransGen CarefulStep start (play start createKey) :=
    (((hcreate.tail ⟨(), .resume, trivial, rfl⟩).tail ⟨(), .resume, trivial, rfl⟩).tail
      ⟨(), .resume, trivial, rfl⟩).tail ⟨(), .resume, trivial, rfl⟩
  hreturn.tail ⟨(), .call (.setspecific 0 7), ⟨by decide, fun _ => id⟩, rfl⟩

theorem firstKey_right : Right firstKey () (firstKey.act () (.call (.getspecific 0))).1 :=
  keys_right firstKey_reached () _

/-- The value 7 set for key 0 is read again after the key was deleted and created anew. -/
theorem old_value_read :
    ∃ s : State Unit, Relation.ReflTransGen Step start s ∧
      ¬ Right s () (s.act () (.call (.getspecific 0))).1 := by
  refine ⟨play start (createKey ++ [.call (.setspecific 0 7)] ++ [.call (.delete 0), .resume, .resume] ++
    createKey), play_reached _ _, fun h => ?_⟩
  have hborn := h (by decide)
  exact absurd hborn (by decide)

end TocinOS.PthreadKeys

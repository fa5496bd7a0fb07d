import Mathlib

/-! Banks of intrusive doubly linked lists. The nodes carry their own `next`
and `prev` fields and every key has a head pointer, so one node can be on at
most one list of the bank. -/

namespace IntrusiveList

open Function

variable {κ ι : Type*}

/-- Head pointers, one for each key, and the link fields of the nodes. -/
@[ext]
structure Bank (κ ι : Type*) where
  head : κ → Option ι
  next : ι → Option ι
  prev : ι → Option ι

def Bank.empty : Bank κ ι := ⟨fun _ => none, fun _ => none, fun _ => none⟩

/-- The nodes of a segment point to their neighbours: the first one back to
`p`, the last one on to `q`. -/
def Linked (next prev : ι → Option ι) : Option ι → List ι → Option ι → Prop
  | _, [], _ => True
  | p, x :: l, q => prev x = p ∧ next x = l.head?.or q ∧ Linked next prev (some x) l q

variable {next prev : ι → Option ι} {p q : Option ι} {l r : List ι} {L : κ → List ι} {k : κ}
  {n : Nat}

theorem Linked.congr {next' prev' : ι → Option ι} (h : Linked next prev p l q)
    (hn : ∀ x ∈ l, next' x = next x) (hp : ∀ x ∈ l, prev' x = prev x) :
    Linked next' prev' p l q := by
  induction l generalizing p with
  | nil => trivial
  | cons x l ih =>
    obtain ⟨h₁, h₂, h₃⟩ := h
    refine ⟨(hp x (by simp)).trans h₁, (hn x (by simp)).trans h₂, ?_⟩
    exact ih h₃ (fun y hy => hn y (by simp [hy])) (fun y hy => hp y (by simp [hy]))

theorem linked_append : Linked next prev p (l ++ r) q ↔
      Linked next prev p l (r.head?.or q) ∧ Linked next prev (l.getLast?.or p) r q := by
  induction l generalizing p with
  | nil => simp [Linked]
  | cons x l ih =>
    have hlast : ((x :: l).getLast?).or p = l.getLast?.or (some x) := by
      cases l with
      | nil => rfl
      | cons y l =>
        simp only [List.getLast?_cons_cons]
        cases he : (y :: l).getLast? with
        | none => simp at he
        | some z => rfl
    have hhead : ((l ++ r).head?).or q = l.head?.or (r.head?.or q) := by
      cases l <;> simp
    rw [List.cons_append, Linked, Linked, ih, hlast, hhead]
    tauto

theorem Linked.setEnd [DecidableEq ι] {r : Option ι} {z : ι} (h : Linked next prev p (l ++ [z]) q)
    (hz : z ∉ l) : Linked (update next z r) prev p (l ++ [z]) r := by
  rw [linked_append] at h ⊢
  obtain ⟨hl, hz₁, _, _⟩ := h
  refine ⟨?_, hz₁, by simp, trivial⟩
  refine Linked.congr hl (fun x hx => ?_) (fun _ _ => rfl)
  exact update_of_ne (fun e => hz (by rw [← e]; exact hx)) _ _

namespace Bank

structure Rep (b : Bank κ ι) (L : κ → List ι) : Prop where
  head : ∀ k, b.head k = (L k).head?
  linked : ∀ k, Linked b.next b.prev none (L k) none
  nodup : ∀ k, (L k).Nodup
  disjoint : ∀ j k, j ≠ k → (L j).Disjoint (L k)

theorem rep_empty : (Bank.empty : Bank κ ι).Rep (fun _ => []) :=
  ⟨fun _ => rfl, fun _ => trivial, fun _ => List.nodup_nil, fun _ _ _ => List.disjoint_nil_left _⟩

theorem Rep.key_unique {b : Bank κ ι} (h : b.Rep L) {x : ι} {j : κ} (hj : x ∈ L j) (hk : x ∈ L k) :
    j = k := by
  by_contra hne
  exact h.disjoint j k hne hj hk

theorem Rep.neighbours {b : Bank κ ι} (h : b.Rep L) {x : ι} (he : L k = l ++ x :: r) :
    b.prev x = l.getLast? ∧ b.next x = r.head? := by
  have hl := h.linked k
  rw [he, linked_append] at hl
  obtain ⟨_, hp, hn, _⟩ := hl
  simpa using And.intro hp hn

def nodes (b : Bank κ ι) : Nat → Option ι → List ι
  | 0, _ => []
  | _ + 1, none => []
  | n + 1, some x => x :: b.nodes n (b.next x)

theorem nodes_linked {b : Bank κ ι} (h : Linked b.next b.prev p l none) (hn : l.length ≤ n) :
    b.nodes n l.head? = l := by
  induction l generalizing p n with
  | nil => cases n <;> rfl
  | cons x l ih =>
    obtain ⟨-, hnext, hl⟩ := h
    cases n with
    | zero => simp at hn
    | succ n => rw [List.head?_cons, nodes, hnext, Option.or_none, ih hl (by simpa using hn)]

theorem Rep.nodes_head {b : Bank κ ι} (h : b.Rep L) (hn : (L k).length ≤ n) :
    b.nodes n (b.head k) = L k := by
  rw [h.head k]
  exact nodes_linked (h.linked k) hn

section Scan

variable [DecidableEq ι]

/-- Walk along `next` from a pointer until the target or the end is met. The
walk of a cyclic list runs out of steps. -/
def scan (b : Bank κ ι) (t : ι) : Nat → Option ι → Option Bool
  | _, none => some false
  | 0, some _ => none
  | n + 1, some c => if c = t then some true else b.scan t n (b.next c)

theorem scan_linked {b : Bank κ ι} (t : ι) (h : Linked b.next b.prev p l none) (hn : l.length ≤ n) :
    b.scan t n l.head? = some (decide (t ∈ l)) := by
  induction l generalizing p n with
  | nil => cases n <;> rfl
  | cons x l ih =>
    obtain ⟨_, hnext, hl⟩ := h
    cases n with
    | zero => simp at hn
    | succ n =>
      rw [List.head?_cons, scan, hnext, Option.or_none, ih hl (by simpa using hn)]
      by_cases hx : x = t
      · simp [hx]
      · simp [hx, Ne.symm hx]

theorem Rep.scan_head {b : Bank κ ι} (h : b.Rep L) (t : ι) (hn : (L k).length ≤ n) :
    b.scan t n (b.head k) = some (decide (t ∈ L k)) := by
  rw [h.head k]
  exact scan_linked t (h.linked k) hn

end Scan

variable [DecidableEq κ] [DecidableEq ι]

def setHead (b : Bank κ ι) (k : κ) (v : Option ι) : Bank κ ι :=
  { b with head := Function.update b.head k v }

def setNext (b : Bank κ ι) (x : ι) (v : Option ι) : Bank κ ι :=
  { b with next := Function.update b.next x v }

def setPrev (b : Bank κ ι) (x : ι) (v : Option ι) : Bank κ ι :=
  { b with prev := Function.update b.prev x v }

def pushFront (b : Bank κ ι) (k : κ) (x : ι) : Bank κ ι :=
  let b := (b.setNext x (b.head k)).setPrev x none
  let b := match b.head k with
    | some y => b.setPrev y (some x)
    | none => b
  b.setHead k (some x)

/-- Unlink a node from the list of key `k` and clear its link fields. -/
def remove (b : Bank κ ι) (k : κ) (x : ι) : Bank κ ι :=
  let b := match b.prev x with
    | some p => b.setNext p (b.next x)
    | none => b.setHead k (b.next x)
  let b := match b.next x with
    | some n => b.setPrev n (b.prev x)
    | none => b
  (b.setNext x none).setPrev x none

def insertBetween (b : Bank κ ι) (k : κ) (p : Option ι) (x : ι) (q : Option ι) : Bank κ ι :=
  let b := (b.setPrev x p).setNext x q
  let b := match p with
    | some y => b.setNext y (some x)
    | none => b.setHead k (some x)
  match q with
  | some y => b.setPrev y (some x)
  | none => b

omit [DecidableEq κ] in
theorem Rep.clear {b : Bank κ ι} {L : κ → List ι} (h : b.Rep L) {x : ι} (hx : ∀ j, x ∉ L j)
    (v w : Option ι) : ((b.setNext x v).setPrev x w).Rep L := by
  refine ⟨h.head, fun k => ?_, h.nodup, h.disjoint⟩
  have hne : ∀ y ∈ L k, y ≠ x := fun y hy e => hx k (e ▸ hy)
  apply (h.linked k).congr
  · exact fun y hy => update_of_ne (hne y hy) _ _
  · exact fun y hy => update_of_ne (hne y hy) _ _

theorem pushFront_eq (b : Bank κ ι) (k : κ) (x : ι) : b.pushFront k x =
    { head := update b.head k (some x)
      next := update b.next x (b.head k)
      prev := match b.head k with
        | some y => update (update b.prev x none) y (some x)
        | none => update b.prev x none } := by
  simp only [pushFront, setHead, setNext, setPrev]
  cases b.head k <;> rfl

theorem remove_eq (b : Bank κ ι) (k : κ) (x : ι) : b.remove k x =
    { head := match b.prev x with
        | some _ => b.head
        | none => update b.head k (b.next x)
      next := match b.prev x with
        | some p => update (update b.next p (b.next x)) x none
        | none => update b.next x none
      prev := match b.next x with
        | some n => update (update b.prev n (b.prev x)) x none
        | none => update b.prev x none } := by
  have hself : ∀ p, update b.next p (b.next x) x = b.next x := by
    intro p
    by_cases h : x = p
    · rw [h, update_self]
    · rw [update_of_ne h]
  unfold remove setHead setNext setPrev
  rcases hp : b.prev x with _ | p <;> rcases hn : b.next x with _ | n <;>
    simp only [hp, hn, hn ▸ hself _]

theorem pushFront_next_of_ne (b : Bank κ ι) (k : κ) {x y : ι} (h : y ≠ x) :
    (b.pushFront k x).next y = b.next y := by
  simp [pushFront_eq, h]

theorem pushFront_prev_of_ne (b : Bank κ ι) (k : κ) {x y : ι} (h : y ≠ x)
    (hh : b.head k ≠ some y) : (b.pushFront k x).prev y = b.prev y := by
  rw [pushFront_eq]
  cases he : b.head k with
  | none => simp [h]
  | some z =>
    have hz : y ≠ z := fun e => hh (by rw [he, e])
    simp [h, hz]

theorem Rep.pushFront {b : Bank κ ι} (h : b.Rep L) {x : ι} (hx : ∀ j, x ∉ L j) :
    (b.pushFront k x).Rep (update L k (x :: L k)) := by
  have hne : ∀ j, ∀ y ∈ L j, y ≠ x := fun j y hy e => hx j (e ▸ hy)
  refine ⟨fun j => ?_, fun j => ?_, fun j => ?_, fun i j hij => ?_⟩
  · by_cases hj : j = k
    · subst hj; simp [pushFront_eq]
    · simp [pushFront_eq, hj, h.head j]
  · by_cases hj : j = k
    · subst hj
      have hl := h.linked j
      have hhead := h.head j
      rw [update_self]
      refine ⟨?_, by simp [pushFront_eq, hhead], ?_⟩
      · rw [pushFront_eq]
        cases he : b.head j with
        | none => simp
        | some y =>
          have hy : y ∈ L j := List.mem_of_mem_head? (by rw [← hhead, he]; rfl)
          simp [Ne.symm (hne j y hy)]
      · cases hL : L j with
        | nil => trivial
        | cons y l =>
          rw [hL] at hl hhead
          obtain ⟨_, hn, ht⟩ := hl
          have hyx : y ≠ x := hne j y (by simp [hL])
          have hnd := List.nodup_cons.mp (hL ▸ h.nodup j)
          refine ⟨?_, ?_, ht.congr (fun z hz => ?_) (fun z hz => ?_)⟩
          · simp [pushFront_eq, hhead]
          · rw [pushFront_next_of_ne b j hyx, hn]
          · exact pushFront_next_of_ne b j (hne j z (by simp [hL, hz]))
          · refine pushFront_prev_of_ne b j (hne j z (by simp [hL, hz])) ?_
            rw [hhead]
            intro e
            have : y = z := by simpa using e
            exact hnd.1 (this ▸ hz)
    · rw [update_of_ne hj]
      refine (h.linked j).congr (fun z hz => pushFront_next_of_ne b k (hne j z hz)) ?_
      intro z hz
      refine pushFront_prev_of_ne b k (hne j z hz) (fun he => ?_)
      have hzk : z ∈ L k := List.mem_of_mem_head? (by rw [← h.head k, he]; rfl)
      exact hj (h.key_unique hz hzk)
  · by_cases hj : j = k
    · subst hj; simp [h.nodup j, hx j]
    · simp [hj, h.nodup j]
  · by_cases hi : i = k <;> by_cases hj : j = k
    · exact absurd (hi.trans hj.symm) hij
    · subst hi
      simp [hj, hx j, h.disjoint i j hij]
    · subst hj
      simp [hi, hx i, h.disjoint i j hij]
    · simp [hi, hj, h.disjoint i j hij]

theorem remove_next_of_ne (b : Bank κ ι) (k : κ) {x y : ι} (h : y ≠ x)
    (hp : b.prev x ≠ some y) : (b.remove k x).next y = b.next y := by
  rw [remove_eq]
  cases he : b.prev x with
  | none => simp [h]
  | some z =>
    have hz : y ≠ z := fun e => hp (by rw [he, e])
    simp [h, hz]

theorem remove_prev_of_ne (b : Bank κ ι) (k : κ) {x y : ι} (h : y ≠ x)
    (hn : b.next x ≠ some y) : (b.remove k x).prev y = b.prev y := by
  rw [remove_eq]
  cases he : b.next x with
  | none => simp [h]
  | some z =>
    have hz : y ≠ z := fun e => hn (by rw [he, e])
    simp [h, hz]

theorem Rep.remove_linked {b : Bank κ ι} (h : b.Rep L) {x : ι} (he : L k = l ++ x :: r) :
    Linked (b.remove k x).next (b.remove k x).prev none (l ++ r) none := by
  obtain ⟨hp, hn⟩ := h.neighbours he
  have hnd : (l ++ x :: r).Nodup := he ▸ h.nodup k
  have hxl : x ∉ l := fun hx => (List.disjoint_of_nodup_append hnd) hx (by simp)
  have hxr : x ∉ r := (List.nodup_cons.mp (List.nodup_append.mp hnd).2.1).1
  have hlr : ∀ y ∈ l, y ∉ r := fun y hy hr => (List.disjoint_of_nodup_append hnd) hy (by simp [hr])
  have hlink := h.linked k
  rw [he, linked_append] at hlink
  obtain ⟨hl, _, _, hr⟩ := hlink
  rw [linked_append]
  constructor
  · cases l using List.reverseRecOn with
    | nil => trivial
    | append_singleton l z =>
      have hz : z ∉ l := fun hz =>
        List.disjoint_of_nodup_append (List.nodup_append.mp hnd).1 hz (by simp)
      refine (hl.setEnd (r := r.head?.or none) hz).congr (fun y hy => ?_) (fun y hy => ?_)
      · have hyx : y ≠ x := fun e => hxl (e ▸ hy)
        have hpz : b.prev x = some z := by simpa using hp
        simp only [remove_eq, hpz, hn]
        rw [update_of_ne hyx, Option.or_none]
      · refine remove_prev_of_ne b k (fun e => hxl (e ▸ hy)) (fun e => ?_)
        exact hlr y hy (List.mem_of_mem_head? (by rw [← hn, e]; rfl))
  · cases r with
    | nil => trivial
    | cons n r =>
      have hnx : n ≠ x := fun e => hxr (by simp [e])
      have hnn : b.next x = some n := by simpa using hn
      obtain ⟨_, hnext, hrest⟩ := hr
      have hnr := (List.nodup_cons.mp (List.nodup_cons.mp (List.nodup_append.mp hnd).2.1).2).1
      have hkeep : ∀ y ∈ n :: r, (b.remove k x).next y = b.next y := by
        intro y hy
        refine remove_next_of_ne b k (fun e => hxr (e ▸ hy)) (fun e => ?_)
        exact hlr y (List.mem_of_mem_getLast? (by rw [← hp, e]; rfl)) hy
      refine ⟨?_, (hkeep n (by simp)).trans hnext, hrest.congr (fun y hy => ?_) (fun y hy => ?_)⟩
      · simp [remove_eq, hnn, hp, hnx]
      · exact hkeep y (by simp [hy])
      · refine remove_prev_of_ne b k (fun e => hxr (e ▸ by simp [hy])) (fun e => ?_)
        rw [hnn, Option.some.injEq] at e
        exact hnr (e ▸ hy)

theorem Rep.remove {b : Bank κ ι} (h : b.Rep L) {x : ι} (hx : x ∈ L k) :
    (b.remove k x).Rep (update L k ((L k).erase x)) := by
  obtain ⟨l, r, he⟩ := List.append_of_mem hx
  have hp := (h.neighbours he).1
  have hn := (h.neighbours he).2
  have hnd : (l ++ x :: r).Nodup := he ▸ h.nodup k
  have hxl : x ∉ l := fun hx => (List.disjoint_of_nodup_append hnd) hx (by simp)
  have herase : (L k).erase x = l ++ r := by
    rw [he, List.erase_append_right _ hxl, List.erase_cons_head]
  have hsub : ∀ j, update L k ((L k).erase x) j ⊆ L j := by
    intro j y hy
    by_cases hj : j = k
    · subst hj
      rw [update_self] at hy
      exact List.mem_of_mem_erase hy
    · rwa [update_of_ne hj] at hy
  refine ⟨fun j => ?_, fun j => ?_, fun j => ?_, fun i j hij => ?_⟩
  · by_cases hj : j = k
    · subst hj
      rw [update_self, herase]
      cases l using List.reverseRecOn with
      | nil => simp [remove_eq, hp, hn]
      | append_singleton l z =>
        have hhead : b.head j = (l ++ [z]).head? := by
          rw [h.head j, he]; cases l <;> simp
        simp only [remove_eq, hp, List.getLast?_append, List.getLast?_singleton,
          Option.some_or, hhead]
        cases l <;> simp
    · rw [update_of_ne hj, ← h.head j]
      rw [remove_eq]
      cases b.prev x <;> simp [hj]
  · by_cases hj : j = k
    · subst hj
      rw [update_self, herase]
      exact h.remove_linked he
    · rw [update_of_ne hj]
      have hxj : x ∉ L j := fun hxj => hj (h.key_unique hxj hx)
      refine (h.linked j).congr (fun y hy => ?_) (fun y hy => ?_)
      · refine remove_next_of_ne b k (fun e => hxj (e ▸ hy)) (fun e => hj (h.key_unique hy ?_))
        have : y ∈ l := List.mem_of_mem_getLast? (by rw [← hp, e]; rfl)
        simp [he, this]
      · refine remove_prev_of_ne b k (fun e => hxj (e ▸ hy)) (fun e => hj (h.key_unique hy ?_))
        have : y ∈ r := List.mem_of_mem_head? (by rw [← hn, e]; rfl)
        simp [he, this]
  · by_cases hj : j = k
    · subst hj
      rw [update_self]
      exact (h.nodup j).erase x
    · rw [update_of_ne hj]
      exact h.nodup j
  · exact fun y hi hj => h.disjoint i j hij (hsub i hi) (hsub j hj)

theorem insertBetween_eq (b : Bank κ ι) (k : κ) (p : Option ι) (x : ι) (q : Option ι) :
    b.insertBetween k p x q =
      { head := match p with
          | some _ => b.head
          | none => update b.head k (some x)
        next := match p with
          | some y => update (update b.next x q) y (some x)
          | none => update b.next x q
        prev := match q with
          | some y => update (update b.prev x p) y (some x)
          | none => update b.prev x p } := by
  cases p <;> cases q <;> rfl

theorem insertBetween_next_of_ne (b : Bank κ ι) (k : κ) {x y : ι} (h : y ≠ x) (hp : p ≠ some y) :
    (b.insertBetween k p x q).next y = b.next y := by
  rw [insertBetween_eq]
  cases p with
  | none => simp [h]
  | some z =>
    have hz : y ≠ z := fun e => hp (by rw [e])
    simp [h, hz]

theorem insertBetween_prev_of_ne (b : Bank κ ι) (k : κ) {x y : ι} (h : y ≠ x) (hq : q ≠ some y) :
    (b.insertBetween k p x q).prev y = b.prev y := by
  rw [insertBetween_eq]
  cases q with
  | none => simp [h]
  | some z =>
    have hz : y ≠ z := fun e => hq (by rw [e])
    simp [h, hz]

theorem Rep.insertBetween_linked {b : Bank κ ι} (h : b.Rep L) {x : ι} (he : L k = l ++ r)
    (hx : x ∉ L k) : let b' := b.insertBetween k l.getLast? x r.head?
    Linked b'.next b'.prev none (l ++ x :: r) none := by
  have hnd : (l ++ r).Nodup := he ▸ h.nodup k
  have hxl : ∀ y ∈ l, y ≠ x := fun y hy e => hx (by simp [he, ← e, hy])
  have hxr : ∀ y ∈ r, y ≠ x := fun y hy e => hx (by simp [he, ← e, hy])
  have hlr : ∀ y ∈ l, y ∉ r := fun y hy hr => (List.disjoint_of_nodup_append hnd) hy hr
  have hlink := h.linked k
  rw [he, linked_append] at hlink
  obtain ⟨hl, hr⟩ := hlink
  dsimp only
  rw [linked_append]
  refine ⟨?_, ?_, ?_, ?_⟩
  · cases l using List.reverseRecOn with
    | nil => trivial
    | append_singleton l z =>
      have hz : z ∉ l := fun hz =>
        List.disjoint_of_nodup_append (List.nodup_append.mp hnd).1 hz (by simp)
      refine (hl.setEnd (r := some x) hz).congr (fun y hy => ?_) (fun y hy => ?_)
      · simp only [insertBetween_eq, List.getLast?_append, List.getLast?_singleton, Option.some_or]
        by_cases hyz : y = z
        · simp [hyz]
        · simp [hyz, hxl y hy]
      · refine insertBetween_prev_of_ne b k (hxl y hy) fun e => ?_
        exact hlr y hy (List.mem_of_mem_head? (by rw [e]; rfl))
  · cases hq : r.head? with
    | none => simp [insertBetween_eq]
    | some y =>
      have hy : y ≠ x := hxr y (List.mem_of_mem_head? (by rw [hq]; rfl))
      simp [insertBetween_eq, Ne.symm hy]
  · cases hp : l.getLast? with
    | none => simp [insertBetween_eq]
    | some y =>
      have hy : y ≠ x := hxl y (List.mem_of_mem_getLast? (by rw [hp]; rfl))
      simp [insertBetween_eq, Ne.symm hy]
  · cases r with
    | nil => trivial
    | cons n r =>
      obtain ⟨-, hnext, hrest⟩ := hr
      have hnr := (List.nodup_cons.mp (List.nodup_append.mp hnd).2.1).1
      have hkeep : ∀ y ∈ n :: r, (b.insertBetween k l.getLast? x (some n)).next y = b.next y := by
        intro y hy
        refine insertBetween_next_of_ne b k (hxr y hy) fun e => ?_
        exact hlr y (List.mem_of_mem_getLast? (by rw [e]; rfl)) hy
      refine ⟨by simp [insertBetween_eq], (hkeep n (by simp)).trans hnext,
        hrest.congr (fun y hy => hkeep y (by simp [hy])) (fun y hy => ?_)⟩
      refine insertBetween_prev_of_ne b k (hxr y (by simp [hy])) fun e => ?_
      rw [List.head?_cons, Option.some.injEq] at e
      exact hnr (e ▸ hy)

theorem Rep.insertBetween {b : Bank κ ι} (h : b.Rep L) {x : ι} (he : L k = l ++ r)
    (hx : ∀ j, x ∉ L j) :
    (b.insertBetween k l.getLast? x r.head?).Rep (update L k (l ++ x :: r)) := by
  have hmem : ∀ j, ∀ y ∈ update L k (l ++ x :: r) j, y ∈ L j ∨ y = x ∧ j = k := by
    intro j y hy
    by_cases hj : j = k
    · subst hj
      rw [update_self, List.mem_append, List.mem_cons] at hy
      rw [he, List.mem_append]
      tauto
    · rw [update_of_ne hj] at hy
      exact .inl hy
  refine ⟨fun j => ?_, fun j => ?_, fun j => ?_, fun i j hij y hi hj => ?_⟩
  · by_cases hj : j = k
    · subst hj
      rw [update_self, insertBetween_eq]
      cases l with
      | nil => simp
      | cons y l =>
        have hhead := h.head j
        rw [he] at hhead
        cases hlast : (y :: l).getLast? with
        | none => simp at hlast
        | some z => simpa using hhead
    · rw [update_of_ne hj, insertBetween_eq, ← h.head j]
      cases l.getLast? <;> simp [hj]
  · by_cases hj : j = k
    · subst hj
      rw [update_self]
      exact h.insertBetween_linked he (hx j)
    · rw [update_of_ne hj]
      have hne : ∀ y ∈ L j, y ≠ x := fun y hy e => hx j (e ▸ hy)
      refine (h.linked j).congr (fun y hy => ?_) (fun y hy => ?_)
      · refine insertBetween_next_of_ne b k (hne y hy) fun e => hj (h.key_unique hy ?_)
        rw [he, List.mem_append]
        exact .inl (List.mem_of_mem_getLast? (by rw [e]; rfl))
      · refine insertBetween_prev_of_ne b k (hne y hy) fun e => hj (h.key_unique hy ?_)
        rw [he, List.mem_append]
        exact .inr (List.mem_of_mem_head? (by rw [e]; rfl))
  · by_cases hj : j = k
    · subst hj
      rw [update_self, List.nodup_middle, ← he]
      exact List.nodup_cons.mpr ⟨hx j, h.nodup j⟩
    · rw [update_of_ne hj]
      exact h.nodup j
  · rcases hmem i y hi with hyi | ⟨hyx, hik⟩ <;> rcases hmem j y hj with hyj | ⟨hyx', hjk⟩
    · exact h.disjoint i j hij hyi hyj
    · exact hx i (hyx' ▸ hyi)
    · exact hx j (hyx ▸ hyj)
    · exact hij (hik.trans hjk.symm)

def onLists (L : κ → List ι) : Set ι := {x | ∃ k, x ∈ L k}

omit [DecidableEq ι] in
theorem mem_push_iff {L : κ → List ι} {j k : κ} {x y : ι} :
    y ∈ update L k (x :: L k) j ↔ y ∈ L j ∨ y = x ∧ j = k := by
  by_cases hj : j = k
  · subst hj
    simp [or_comm]
  · simp [hj]

theorem Rep.mem_erase_iff {b : Bank κ ι} (h : b.Rep L) {j : κ} {x y : ι} (hx : x ∈ L k) :
    y ∈ update L k ((L k).erase x) j ↔ y ∈ L j ∧ y ≠ x := by
  by_cases hj : j = k
  · subst hj
    rw [update_self, (h.nodup j).mem_erase_iff, and_comm]
  · rw [update_of_ne hj]
    constructor
    · exact fun hy => ⟨hy, fun e => hj (h.key_unique (e ▸ hy) hx)⟩
    · exact fun hy => hy.1

omit [DecidableEq ι] in
theorem onLists_push (L : κ → List ι) (k : κ) (x : ι) :
    onLists (update L k (x :: L k)) = insert x (onLists L) := by
  ext y
  simp only [onLists, Set.mem_ofPred_eq, Set.mem_insert_iff, mem_push_iff]
  constructor
  · rintro ⟨j, hy | ⟨rfl, -⟩⟩
    · exact .inr ⟨j, hy⟩
    · exact .inl rfl
  · rintro (rfl | ⟨j, hy⟩)
    · exact ⟨k, .inr ⟨rfl, rfl⟩⟩
    · exact ⟨j, .inl hy⟩

theorem Rep.onLists_erase {b : Bank κ ι} (h : b.Rep L) {x : ι} (hx : x ∈ L k) :
    onLists (update L k ((L k).erase x)) = onLists L \ {x} := by
  ext y
  simp only [onLists, Set.mem_ofPred_eq, Set.mem_sdiff, Set.mem_singleton_iff, h.mem_erase_iff hx]
  exact ⟨fun ⟨j, hy, hne⟩ => ⟨⟨j, hy⟩, hne⟩, fun ⟨⟨j, hy⟩, hne⟩ => ⟨j, hy, hne⟩⟩

/-! ### Nodes that nothing points to -/

structure Unreferenced (b : Bank κ ι) (x : ι) : Prop where
  head : ∀ k, b.head k ≠ some x
  next : ∀ y, b.next y ≠ some x
  prev : ∀ y, b.prev y ≠ some x

section Unreferenced

variable {b : Bank κ ι} {x y : ι}

omit [DecidableEq ι] in
theorem update_ne_some {α : Type*} [DecidableEq α] {f : α → Option ι} {v : Option ι} (a : α)
    (h : ∀ c, f c ≠ some x) (hv : v ≠ some x) (c : α) : update f a v c ≠ some x := by
  by_cases hc : c = a
  · simpa [hc] using hv
  · simpa [hc] using h c

omit [DecidableEq κ] in
theorem Unreferenced.clear (h : b.Unreferenced x) (y : ι) :
    ((b.setNext y none).setPrev y none).Unreferenced x :=
  ⟨h.head, update_ne_some y h.next nofun, update_ne_some y h.prev nofun⟩

theorem Unreferenced.pushFront (h : b.Unreferenced x) (k : κ) (hy : y ≠ x) :
    (b.pushFront k y).Unreferenced x := by
  have hsome : some y ≠ some x := fun e => hy (Option.some_inj.mp e)
  rw [pushFront_eq]
  refine ⟨update_ne_some k h.head hsome, update_ne_some y h.next (h.head k), ?_⟩
  have hprev := update_ne_some y h.prev (nofun : none ≠ some x)
  cases b.head k with
  | some z => exact update_ne_some z hprev hsome
  | none => exact hprev

theorem Unreferenced.remove (h : b.Unreferenced x) (k : κ) (y : ι) : (b.remove k y).Unreferenced x := by
  have hhead := update_ne_some k h.head (h.next y)
  have hnext (a : ι) := update_ne_some y (update_ne_some a h.next (h.next y)) (nofun : none ≠ some x)
  have hprev (a : ι) := update_ne_some y (update_ne_some a h.prev (h.prev y)) (nofun : none ≠ some x)
  rw [remove_eq]
  constructor
  · cases b.prev y with
    | some a => exact h.head
    | none => exact hhead
  · cases b.prev y with
    | some a => exact hnext a
    | none => exact update_ne_some y h.next nofun
  · cases hn : b.next y with
    | some a => exact hprev a
    | none => exact update_ne_some y h.prev nofun

omit [DecidableEq κ] [DecidableEq ι] in
theorem Unreferenced.notMem_nodes (h : b.Unreferenced x) (n : Nat) {p : Option ι} (hp : p ≠ some x) :
    x ∉ b.nodes n p := by
  induction n generalizing p with
  | zero => simp [nodes]
  | succ n ih =>
    cases p with
    | none => simp [nodes]
    | some y =>
      have hy : x ≠ y := fun e => hp (by rw [e])
      simp [nodes, hy, ih (h.next y)]

end Unreferenced

end Bank

end IntrusiveList

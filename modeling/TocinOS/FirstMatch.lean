import Mathlib

/-! Linear searches: for the first entry that passes a test weaker than the property
wanted, and for the first entry of greatest weight. -/

namespace FirstMatch

variable {α : Type*} {P : α → Prop} {test : α → Bool} {w : α → Nat} {L : List α}

/-- The entry found has the property; if none is found, none has it. -/
def Hits (P : α → Prop) (L : List α) : Option Nat → Prop
  | none => ∀ a ∈ L, ¬P a
  | some i => ∃ a, L[i]? = some a ∧ P a

def Guarded (P : α → Prop) (test : α → Bool) (L : List α) : Prop :=
  ∀ (i : Nat) a, L[i]? = some a → test a = true → ∃ j ≤ i, ∃ b, L[j]? = some b ∧ P b

theorem findIdx?_some {i : Nat} (h : L.findIdx? test = some i) :
    (∃ a, L[i]? = some a ∧ test a = true) ∧
      ∀ (j : Nat) a, L[j]? = some a → test a = true → i ≤ j := by
  obtain ⟨hi, htest, hbefore⟩ := List.findIdx?_eq_some_iff_getElem.mp h
  refine ⟨⟨L[i], List.getElem?_eq_getElem hi, htest⟩, fun j a ha hta => ?_⟩
  by_contra hlt
  obtain ⟨hj, rfl⟩ := List.getElem?_eq_some_iff.mp ha
  exact hbefore j (by omega) hta

theorem hits_findIdx?_iff (h : ∀ a ∈ L, P a → test a = true) :
    Hits P L (L.findIdx? test) ↔ Guarded P test L := by
  cases hfind : L.findIdx? test with
  | none =>
    have hnone := List.findIdx?_eq_none_iff.mp hfind
    constructor
    · intro _ i a ha hta
      exact absurd (hnone a (List.mem_of_getElem? ha)) (by simp [hta])
    · intro _ a ha hPa
      exact absurd (hnone a ha) (by simp [h a ha hPa])
  | some i =>
    obtain ⟨⟨a, ha, hta⟩, hleast⟩ := findIdx?_some hfind
    constructor
    · rintro ⟨b, hb, hPb⟩ j c hc htc
      exact ⟨i, hleast j c hc htc, b, hb, hPb⟩
    · intro hguard
      obtain ⟨j, hj, b, hb, hPb⟩ := hguard i a ha hta
      have hij : i ≤ j := hleast j b hb (h b (List.mem_of_getElem? hb) hPb)
      obtain rfl : i = j := by omega
      exact ⟨b, hb, hPb⟩

/-- The place of the first entry of greatest weight. Entries of weight 0 do not count. -/
def Heaviest (w : α → Nat) (L : List α) : Option Nat → Prop
  | none => ∀ a ∈ L, w a = 0
  | some i => ∃ a, L[i]? = some a ∧ 0 < w a ∧
      ∀ (j : Nat) b, L[j]? = some b → w b ≤ w a ∧ (j < i → w b < w a)

def bestWeight (w : α → Nat) (L : List α) (best : Option Nat) : Nat :=
  ((best.bind (L[·]?)).map w).getD 0

variable {best : Option Nat} {a : α}

theorem Heaviest.le (h : Heaviest w L best) (ha : a ∈ L) : w a ≤ bestWeight w L best := by
  cases best with
  | none => rw [h a ha]; exact Nat.zero_le _
  | some i =>
    obtain ⟨b, hb, -, hmax⟩ := h
    obtain ⟨j, hj⟩ := List.mem_iff_getElem?.mp ha
    simpa [bestWeight, hb] using (hmax j a hj).1

theorem Heaviest.append_lt (h : Heaviest w L best) (hlt : bestWeight w L best < w a) :
    Heaviest w (L ++ [a]) (some L.length) := by
  refine ⟨a, by simp, by omega, fun j b hb => ?_⟩
  obtain hj | hj := Nat.lt_or_ge j L.length
  · rw [List.getElem?_append_left hj] at hb
    have := h.le (List.mem_of_getElem? hb)
    exact ⟨by omega, fun _ => by omega⟩
  · rw [List.getElem?_append_right hj] at hb
    obtain ⟨-, rfl⟩ := List.getElem?_eq_some_iff.mp hb
    exact ⟨by simp, fun hlt' => by omega⟩

theorem Heaviest.append_le (h : Heaviest w L best) (hle : w a ≤ bestWeight w L best) :
    Heaviest w (L ++ [a]) best := by
  cases best with
  | none =>
    intro b hb
    obtain hb | rfl := by simpa using hb
    · exact h b hb
    · simpa [bestWeight] using hle
  | some i =>
    obtain ⟨b, hb, hpos, hmax⟩ := h
    have hi : i < L.length := (List.getElem?_eq_some_iff.mp hb).1
    rw [bestWeight] at hle
    simp only [Option.bind_some, hb, Option.map_some, Option.getD_some] at hle
    refine ⟨b, by rwa [List.getElem?_append_left hi], hpos, fun j c hc => ?_⟩
    obtain hj | hj := Nat.lt_or_ge j L.length
    · rw [List.getElem?_append_left hj] at hc
      exact hmax j c hc
    · rw [List.getElem?_append_right hj] at hc
      obtain ⟨-, rfl⟩ := List.getElem?_eq_some_iff.mp hc
      exact ⟨by simpa using hle, fun hlt => by omega⟩

theorem bestWeight_append (h : Heaviest w L best) (L' : List α) :
    bestWeight w (L ++ L') best = bestWeight w L best := by
  cases best with
  | none => rfl
  | some i =>
    obtain ⟨b, hb, -⟩ := h
    have hi : i < L.length := (List.getElem?_eq_some_iff.mp hb).1
    simp [bestWeight, List.getElem?_append_left hi]

def Answers (needed : Prop) (Good : Nat → Prop) : Option Nat → Prop
  | none => ¬needed
  | some i => Good i

/-- The heaviest entry is good just if good entries of positive weight exist when they are
needed, and each other entry of positive weight is outweighed, or preceded at equal weight,
by a good one. -/
theorem Heaviest.good_iff (h : Heaviest w L best) (needed : Prop) (Good : Nat → Prop) :
    Answers needed Good best ↔
    (needed → ∃ j b, Good j ∧ L[j]? = some b ∧ 0 < w b) ∧
      ∀ (i : Nat) a, L[i]? = some a → 0 < w a → ¬Good i →
        ∃ j b, Good j ∧ L[j]? = some b ∧ (w a < w b ∨ w a = w b ∧ j < i) := by
  cases best with
  | none =>
    refine ⟨fun hno => ⟨fun hyes => absurd hyes hno, fun i a ha hpos _ => ?_⟩, fun hcond hyes => ?_⟩
    · exact absurd (h a (List.mem_of_getElem? ha)) (by omega)
    · obtain ⟨j, b, -, hb, hpos⟩ := hcond.1 hyes
      exact absurd (h b (List.mem_of_getElem? hb)) (by omega)
  | some k =>
    obtain ⟨c, hc, hpos, hmax⟩ := h
    constructor
    · intro hgood
      refine ⟨fun _ => ⟨k, c, hgood, hc, hpos⟩, fun i a ha _ hbad => ⟨k, c, hgood, hc, ?_⟩⟩
      obtain ⟨hle, hlt⟩ := hmax i a ha
      obtain hik | rfl | hki := Nat.lt_trichotomy i k
      · exact .inl (hlt hik)
      · exact absurd hgood hbad
      · omega
    · rintro ⟨-, hcond⟩
      by_contra hbad
      obtain ⟨j, b, -, hb, hbeats⟩ := hcond k c hc hpos hbad
      obtain ⟨hle, hlt⟩ := hmax j b hb
      omega

theorem getElem?_eq_of_eraseIdx_eq {i j : Nat} {b : α} (hi : L[i]? = some a) (hj : L[j]? = some b)
    (h : L.eraseIdx i = L.eraseIdx j) : a = b := by
  obtain ⟨hi', rfl⟩ := List.getElem?_eq_some_iff.mp hi
  obtain ⟨hj', rfl⟩ := List.getElem?_eq_some_iff.mp hj
  have hperm := (List.getElem_cons_eraseIdx_perm hi').trans
    (List.getElem_cons_eraseIdx_perm hj').symm
  rw [h] at hperm
  have hcount := Multiset.coe_eq_coe.mpr hperm
  simpa [← Multiset.cons_coe] using hcount

end FirstMatch

import Mathlib

/-! Bytes at 32-bit addresses, read and written in little-endian words, and lists of changes to words
that do not overlap. -/

namespace WordPatches

abbrev Memory := BitVec 32 → BitVec 8

def Covers (a b : BitVec 32) : Prop := b - a < 4

instance (a b : BitVec 32) : Decidable (Covers a b) := inferInstanceAs (Decidable (_ < _))

def word (m : Memory) (a : BitVec 32) : BitVec 32 := m (a + 3) ++ m (a + 2) ++ m (a + 1) ++ m a

def byteOf (v : BitVec 32) (d : BitVec 32) : BitVec 8 := v.extractLsb' (8 * d.toNat) 8

def store (m : Memory) (a v : BitVec 32) : Memory :=
  fun b => if Covers a b then byteOf v (b - a) else m b

def Apart (a b : BitVec 32) : Prop := ∀ c, Covers a c → ¬ Covers b c

variable {m m' : Memory} {a b v : BitVec 32}

theorem store_of_covers (h : Covers a b) : store m a v b = byteOf v (b - a) := if_pos h

theorem store_of_not_covers (h : ¬ Covers a b) : store m a v b = m b := if_neg h

theorem covers_cases (h : Covers a b) : b = a ∨ b = a + 1 ∨ b = a + 2 ∨ b = a + 3 := by
  rw [Covers] at h
  bv_omega

theorem extract_bytes (p q r s : BitVec 8) :
    (p ++ q ++ r ++ s).extractLsb' 0 8 = s ∧ (p ++ q ++ r ++ s).extractLsb' 8 8 = r ∧
      (p ++ q ++ r ++ s).extractLsb' 16 8 = q ∧ (p ++ q ++ r ++ s).extractLsb' 24 8 = p := by
  refine ⟨?_, ?_, ?_, ?_⟩
  all_goals
    refine BitVec.eq_of_getLsbD_eq fun i hi => ?_
    simp only [BitVec.getLsbD_extractLsb', BitVec.getLsbD_append, hi, decide_true, Bool.true_and]
  · rw [if_pos (by omega), Nat.zero_add]
  · rw [if_neg (by omega), if_pos (by omega), Nat.add_sub_cancel_left]
  · rw [if_neg (by omega), if_neg (by omega), if_pos (by omega)]
    congr 1
    omega
  · rw [if_neg (by omega), if_neg (by omega), if_neg (by omega)]
    congr 1
    omega

theorem byteOf_word (h : Covers a b) : byteOf (word m a) (b - a) = m b := by
  have hsub (k : BitVec 32) : a + k - a = k := by bv_omega
  obtain ⟨h0, h1, h2, h3⟩ := extract_bytes (m (a + 3)) (m (a + 2)) (m (a + 1)) (m a)
  rcases covers_cases h with rfl | rfl | rfl | rfl
  · rw [BitVec.sub_self]
    exact h0
  · rw [hsub]
    exact h1
  · rw [hsub]
    exact h2
  · rw [hsub]
    exact h3

theorem word_congr (h : ∀ b, Covers a b → m b = m' b) : word m a = word m' a := by
  have hcovers (k : BitVec 32) (hk : k < 4) : Covers a (a + k) := by
    rw [Covers]
    bv_omega
  rw [word, word, h _ (hcovers 3 (by decide)), h _ (hcovers 2 (by decide)),
    h _ (hcovers 1 (by decide)), h a (by rw [Covers, BitVec.sub_self]; decide)]

theorem word_eq_iff : word m a = word m' a ↔ ∀ b, Covers a b → m b = m' b := by
  refine ⟨fun h b hb => ?_, word_congr⟩
  calc
    m b = byteOf (word m a) (b - a) := (byteOf_word hb).symm
    _ = byteOf (word m' a) (b - a) := by rw [h]
    _ = m' b := byteOf_word hb

theorem store_word (m : Memory) (a : BitVec 32) : store m a (word m a) = m := by
  funext b
  by_cases hb : Covers a b
  · rw [store_of_covers hb, byteOf_word hb]
  · rw [store_of_not_covers hb]

theorem word_store (m : Memory) (a v : BitVec 32) : word (store m a v) a = v := by
  have hbytes : byteOf v 3 ++ byteOf v 2 ++ byteOf v 1 ++ byteOf v 0 = v := by
    simp only [byteOf]
    rw [BitVec.extractLsb'_append_extractLsb'_eq_extractLsb' (by rfl),
      BitVec.extractLsb'_append_extractLsb'_eq_extractLsb' (by rfl),
      BitVec.extractLsb'_append_extractLsb'_eq_extractLsb' (by rfl)]
    exact BitVec.extractLsb'_eq_self
  have hbyte (k : BitVec 32) (hk : k < 4) : store m a v (a + k) = byteOf v k := by
    have hsub : a + k - a = k := by bv_omega
    rw [store_of_covers (by rw [Covers, hsub]; exact hk), hsub]
  have hzero : store m a v a = byteOf v 0 := by
    have hself : a + 0 = a := BitVec.add_zero a
    rw [← hbyte 0 (by decide), hself]
  rw [word, hbyte 3 (by decide), hbyte 2 (by decide), hbyte 1 (by decide), hzero]
  exact hbytes

theorem word_store_of_apart (h : Apart a b) : word (store m a v) b = word m b :=
  word_congr fun _ hc => store_of_not_covers fun hac => h _ hac hc

/-! ### Lists of changes -/

variable {α : Type*} (addr : α → BitVec 32) (f : α → BitVec 32 → BitVec 32)

def patch (m : Memory) (r : α) : Memory := store m (addr r) (f r (word m (addr r)))

variable {addr f} {rs : List α} {r : α}

theorem foldl_patch_outside (h : ∀ r ∈ rs, ¬ Covers (addr r) b) : rs.foldl (patch addr f) m b = m b := by
  induction rs generalizing m with
  | nil => rfl
  | cons r rs ih =>
    rw [List.forall_mem_cons] at h
    rw [List.foldl_cons, ih h.2]
    exact store_of_not_covers h.1

theorem foldl_patch_word (hapart : rs.Pairwise fun r r' => Apart (addr r) (addr r')) (hr : r ∈ rs) :
    word (rs.foldl (patch addr f) m) (addr r) = f r (word m (addr r)) := by
  induction rs generalizing m with
  | nil => exact absurd hr List.not_mem_nil
  | cons r' rs ih =>
    obtain ⟨hhead, htail⟩ := List.pairwise_cons.mp hapart
    rw [List.foldl_cons]
    rcases List.mem_cons.mp hr with rfl | hr
    · have hkept : word (rs.foldl (patch addr f) (patch addr f m r)) (addr r) =
          word (patch addr f m r) (addr r) :=
        word_congr fun b hb => foldl_patch_outside fun r' hr' => hhead r' hr' b hb
      rw [hkept]
      exact word_store ..
    · rw [ih htail hr]
      exact congrArg (f r) (word_store_of_apart (hhead r hr))

end WordPatches

import Mathlib.Data.BitVec

/-! Tests of a word against a mask: when two of them accept the same words. -/

namespace MceTest.Library.Mask

variable {w : Nat}

/-- All bits of `b` are bits of `m`. -/
def Within (b m : BitVec w) : Prop := b &&& m = b

instance (b m : BitVec w) : Decidable (Within b m) := inferInstanceAs (Decidable (_ = _))

theorem within_iff {b m : BitVec w} :
    Within b m ↔ ∀ i < w, b.getLsbD i = true → m.getLsbD i = true := by
  constructor
  · intro h i _ hset
    have hand : (b &&& m).getLsbD i = true := by rwa [show b &&& m = b from h]
    rw [BitVec.getLsbD_and, Bool.and_eq_true] at hand
    exact hand.2
  · intro h
    apply BitVec.eq_of_getLsbD_eq
    intro i hi
    rw [BitVec.getLsbD_and]
    cases hset : b.getLsbD i with
    | false => rfl
    | true => simpa using h i hi hset

theorem Within.trans {a b c : BitVec w} (hab : Within a b) (hbc : Within b c) : Within a c :=
  within_iff.mpr fun i hi hset => within_iff.mp hbc i hi (within_iff.mp hab i hi hset)

theorem Within.and {b m : BitVec w} (h : Within b m) (c : BitVec w) : Within (b &&& c) m := by
  rw [within_iff] at *
  intro i hi hset
  rw [BitVec.getLsbD_and, Bool.and_eq_true] at hset
  exact h i hi hset.1

theorem Within.or {b c m : BitVec w} (hb : Within b m) (hc : Within c m) :
    Within (b ||| c) m := by
  rw [within_iff] at *
  intro i hi hset
  rw [BitVec.getLsbD_or, Bool.or_eq_true] at hset
  exact hset.elim (hb i hi) (hc i hi)

theorem Within.xor {b c m : BitVec w} (hb : Within b m) (hc : Within c m) :
    Within (b ^^^ c) m := by
  rw [within_iff] at *
  intro i hi hset
  rw [BitVec.getLsbD_xor] at hset
  cases hbit : b.getLsbD i with
  | true => exact hb i hi hbit
  | false => exact hc i hi (by simpa [hbit] using hset)

theorem and_and_self (b m : BitVec w) : b &&& m &&& m = b &&& m := by
  rw [BitVec.and_assoc, BitVec.and_self]

theorem twoPow_and_ne_zero {i : Nat} (hi : i < w) (m : BitVec w) :
    BitVec.twoPow w i &&& m ≠ 0 ↔ m.getLsbD i = true := by
  rw [BitVec.twoPow_and]
  cases h : m.getLsbD i
  · simp
  · have hne : BitVec.twoPow w i ≠ 0 := by
      intro heq
      have := congrArg (·.getLsbD i) heq
      simp [hi] at this
    simpa using hne

theorem eq_of_getLsbD {a b : BitVec w}
    (h : ∀ i < w, a.getLsbD i = true ↔ b.getLsbD i = true) : a = b := by
  apply BitVec.eq_of_getLsbD_eq
  intro i hi
  exact Bool.eq_iff_iff.mpr (h i hi)

theorem forall_and_ne_zero_iff {a b : BitVec w} :
    (∀ f, f &&& a ≠ 0 ↔ f &&& b ≠ 0) ↔ a = b := by
  constructor
  · intro h
    apply eq_of_getLsbD
    intro i hi
    rw [← twoPow_and_ne_zero hi, ← twoPow_and_ne_zero hi]
    exact h _
  · rintro rfl f
    rfl

/-- Turning one bit of `f` over shows whether the mask looks at it. -/
theorem xor_twoPow_and_eq {i : Nat} (hi : i < w) {f m b : BitVec w} (h : f &&& m = b) :
    (f ^^^ BitVec.twoPow w i) &&& m = b ↔ ¬ m.getLsbD i = true := by
  rw [← twoPow_and_ne_zero hi, not_not]
  have hsplit : (f ^^^ BitVec.twoPow w i) &&& m = b ^^^ (BitVec.twoPow w i &&& m) := by
    rw [← h]
    ext j
    simp [Bool.and_xor_distrib_right]
  rw [hsplit]
  constructor
  · intro heq
    have := congrArg (b ^^^ ·) heq
    simpa [← BitVec.xor_assoc] using this
  · intro heq
    simp [heq]

theorem forall_and_eq_iff {m b m' b' : BitVec w} :
    (∀ f, f &&& m = b ↔ f &&& m' = b') ↔
      (¬ Within b m ∧ ¬ Within b' m') ∨
        (Within b m ∧ Within b' m' ∧ m = m' ∧ b = b') := by
  constructor
  · intro h
    by_cases hb : Within b m
    · right
      have hbm' : b &&& m' = b' := (h b).mp hb
      have hmask : m = m' := by
        apply eq_of_getLsbD
        intro i hi
        have hflip := h (b ^^^ BitVec.twoPow w i)
        rw [xor_twoPow_and_eq hi hb, xor_twoPow_and_eq hi hbm'] at hflip
        exact not_iff_not.mp hflip
      subst hmask
      obtain rfl : b = b' := hb.symm.trans hbm'
      exact ⟨hb, hb, rfl, rfl⟩
    · refine Or.inl ⟨hb, fun hb' => hb ?_⟩
      have hb'm : b' &&& m = b := (h b').mpr hb'
      rw [Within, ← hb'm, and_and_self]
  · rintro (⟨hb, hb'⟩ | ⟨-, -, rfl, rfl⟩) f
    · constructor
      · rintro rfl
        exact absurd (and_and_self f m) hb
      · rintro rfl
        exact absurd (and_and_self f m') hb'
    · rfl

theorem forall_ne_zero_iff_eq {m' m b : BitVec w} :
    (∀ f, f &&& m' ≠ 0 ↔ f &&& m = b) ↔
      (m' = 0 ∧ ¬ Within b m) ∨ (m = m' ∧ b = m ∧ ∃ i < w, m = BitVec.twoPow w i) := by
  constructor
  · intro h
    by_cases hm' : m' = 0
    · left
      refine ⟨hm', fun hb => ?_⟩
      exact (h b).mpr hb (by simp [hm'])
    · right
      have hones : m = b := by
        have := (h (BitVec.allOnes w)).mp (by rwa [BitVec.allOnes_and])
        rwa [BitVec.allOnes_and] at this
      have hzero : ¬ (0#w &&& m = b) := fun heq => (h 0).mpr heq (by simp)
      rw [BitVec.zero_and] at hzero
      have hbit : ∀ i < w, m'.getLsbD i = true → m = BitVec.twoPow w i := by
        intro i hi hset
        have heq := (h _).mp ((twoPow_and_ne_zero hi m').mpr hset)
        rw [BitVec.twoPow_and] at heq
        split at heq
        · rw [hones, heq]
        · exact absurd heq hzero
      obtain ⟨i, hi, hset⟩ : ∃ i < w, m'.getLsbD i = true := by
        by_contra hnone
        apply hm'
        apply eq_of_getLsbD
        intro i hi
        simpa using fun hset => hnone ⟨i, hi, hset⟩
      have hm := hbit i hi hset
      refine ⟨?_, hones.symm, i, hi, hm⟩
      apply eq_of_getLsbD
      intro j hj
      constructor
      · intro hset'
        rw [hm, BitVec.getLsbD_twoPow] at hset'
        obtain rfl : i = j := by simpa [hi] using hset'
        exact hset
      · intro hset'
        rw [hbit j hj hset']
        simp [hj]
  · rintro (⟨rfl, hb⟩ | ⟨rfl, rfl, i, hi, rfl⟩) f
    · constructor
      · exact fun h => absurd (by simp) h
      · rintro rfl
        exact absurd (and_and_self f m) hb
    · rw [BitVec.and_twoPow]
      have hne : BitVec.twoPow w i ≠ 0 := by
        have := (twoPow_and_ne_zero hi (BitVec.twoPow w i)).mpr (by simp [hi])
        rwa [BitVec.and_self] at this
      split
      · simpa using hne
      · simpa using hne.symm

end MceTest.Library.Mask

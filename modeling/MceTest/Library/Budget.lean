import Mathlib.Data.Nat.Find
import Mathlib.Algebra.Group.Int.Defs

/-! Loops of the form `while (count--)` that are left when a turn succeeds. -/

namespace MceTest.Library.Budget

variable {σ : Type}

/-- What the budget is when the loop is left, by a turn that succeeds or by its condition. -/
def spend (turn : Nat → σ → σ × Bool) : Nat → Nat → σ → Int
  | 0, _, _ => -1
  | count + 1, k, s => if (turn k s).2 then count else spend turn count (k + 1) (turn k s).1

def stateAt (turn : Nat → σ → σ × Bool) (s : σ) : Nat → σ
  | 0 => s
  | k + 1 => (turn k (stateAt turn s k)).1

def succeeds (turn : Nat → σ → σ × Bool) (s : σ) (k : Nat) : Bool :=
  (turn k (stateAt turn s k)).2

variable {turn : Nat → σ → σ × Bool} {s : σ}

theorem spend_of_none {count k : Nat}
    (h : ∀ i < count, succeeds turn s (k + i) = false) :
    spend turn count k (stateAt turn s k) = -1 := by
  induction count generalizing k with
  | zero => rfl
  | succ count ih =>
    have hk : ¬ (turn k (stateAt turn s k)).2 = true := by
      rw [Bool.not_eq_true]
      exact h 0 (Nat.succ_pos count)
    rw [spend, if_neg hk]
    refine ih (k := k + 1) fun i hi => ?_
    rw [Nat.add_assoc, Nat.add_comm 1]
    exact h (i + 1) (Nat.succ_lt_succ hi)

theorem spend_of_first {count k i : Nat} (hi : i < count)
    (hfirst : ∀ j < i, succeeds turn s (k + j) = false) (hsucceeds : succeeds turn s (k + i)) :
    spend turn count k (stateAt turn s k) = (count - 1 - i : Nat) := by
  induction i generalizing count k with
  | zero =>
    obtain ⟨count, rfl⟩ := Nat.exists_eq_succ_of_ne_zero (Nat.ne_of_gt hi)
    rw [spend]
    exact if_pos hsucceeds
  | succ i ih =>
    obtain ⟨count, rfl⟩ := Nat.exists_eq_succ_of_ne_zero (Nat.ne_of_gt (Nat.zero_lt_of_lt hi))
    have hk : ¬ (turn k (stateAt turn s k)).2 = true := by
      rw [Bool.not_eq_true]
      exact hfirst 0 (Nat.succ_pos i)
    have hshift (j : Nat) : k + 1 + j = k + (j + 1) := by omega
    rw [spend, if_neg hk]
    refine (ih (k := k + 1) (show i < count by omega) (fun j hj => ?_) ?_).trans ?_
    · rw [hshift]
      exact hfirst (j + 1) (Nat.succ_lt_succ hj)
    · rw [hshift]
      exact hsucceeds
    · omega

theorem exists_first {count : Nat} (h : ∃ i < count, succeeds turn s i) :
    ∃ i < count, succeeds turn s i ∧ ∀ j < i, succeeds turn s j = false := by
  have hex : ∃ i, succeeds turn s i := h.imp fun _ => And.right
  obtain ⟨i, hi, hsucceeds⟩ := h
  refine ⟨Nat.find hex, Nat.lt_of_le_of_lt (Nat.find_min' hex hsucceeds) hi, Nat.find_spec hex,
    fun j hj => ?_⟩
  rw [← Bool.not_eq_true]
  exact Nat.find_min hex hj

/-- The budget is 0 behind the loop iff the last turn is the first to succeed. -/
theorem spend_eq_zero_iff {count : Nat} :
    spend turn count 0 s = 0 ↔
      ∃ i, i + 1 = count ∧ succeeds turn s i ∧ ∀ j < i, succeeds turn s j = false := by
  by_cases h : ∃ i < count, succeeds turn s i
  · obtain ⟨i, hi, hsucceeds, hfirst⟩ := exists_first h
    have hspend := spend_of_first (s := s) (k := 0) hi (by simpa using hfirst)
      (by simpa using hsucceeds)
    rw [stateAt] at hspend
    rw [hspend]
    constructor
    · intro hzero
      exact ⟨i, by omega, hsucceeds, hfirst⟩
    · rintro ⟨i', hlast, hsucceeds', hfirst'⟩
      have hle : i' ≤ i := by
        by_contra hlt
        rw [hfirst' i (by omega)] at hsucceeds
        cases hsucceeds
      omega
  · have hnone : ∀ i < count, succeeds turn s (0 + i) = false := fun i hi => by
      rw [Nat.zero_add, ← Bool.not_eq_true]
      exact fun hsucceeds => h ⟨i, hi, hsucceeds⟩
    have hspend := spend_of_none hnone
    rw [stateAt] at hspend
    rw [hspend]
    refine iff_of_false (by decide) ?_
    rintro ⟨i, hlast, hsucceeds, -⟩
    exact h ⟨i, by omega, hsucceeds⟩

end MceTest.Library.Budget

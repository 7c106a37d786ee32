import Mathlib.Algebra.Order.Group.Nat
import Mathlib.Data.BitVec
import Mathlib.Order.Bounds.Defs

/-! Rounding up to a multiple, and addresses that are rounded with a mask. -/

namespace MceTest.Library.Align

variable {a n : Nat}

def up (a n : Nat) : Nat := (n + (a - 1)) / a * a

theorem dvd_up (a n : Nat) : a ∣ up a n := Nat.dvd_mul_left _ _

theorem le_up (ha : 0 < a) (n : Nat) : n ≤ up a n := by
  have hdiv := Nat.div_add_mod' (n + (a - 1)) a
  have hmod := Nat.mod_lt (n + (a - 1)) ha
  rw [up]
  omega

theorem up_lt (ha : 0 < a) (n : Nat) : up a n < n + a := by
  have := Nat.div_mul_le_self (n + (a - 1)) a
  rw [up]
  omega

theorem up_le {b : Nat} (ha : 0 < a) (hdvd : a ∣ b) (hle : n ≤ b) : up a n ≤ b := by
  obtain ⟨q, rfl⟩ := hdvd
  rw [up, Nat.mul_comm a q]
  apply Nat.mul_le_mul_right
  rw [Nat.div_le_iff_le_mul_add_pred ha]
  omega

theorem up_eq_iff {b : Nat} (ha : 0 < a) (hdvd : a ∣ b) : up a n = b ↔ n ≤ b ∧ b < n + a := by
  constructor
  · rintro rfl
    exact ⟨le_up ha n, up_lt ha n⟩
  · rintro ⟨hle, hlt⟩
    have hmin := up_le ha hdvd hle
    obtain ⟨c, hc⟩ := (Nat.dvd_sub hdvd (dvd_up a n))
    have hfirst := le_up ha n
    rcases Nat.eq_zero_or_pos c with rfl | hpos
    · omega
    · have := Nat.le_mul_of_pos_right a hpos
      omega

theorem exists_block_iff (ha : 0 < a) {e : Nat} :
    (∃ b, a ∣ b ∧ n ≤ b ∧ b + a ≤ e) ↔ up a n + a ≤ e := by
  constructor
  · rintro ⟨b, hdvd, hle, hend⟩
    have := up_le ha hdvd hle
    omega
  · intro hend
    exact ⟨up a n, dvd_up a n, le_up ha n, hend⟩

theorem isLeast_up (ha : 0 < a) {e : Nat} (hend : up a n + a ≤ e) :
    IsLeast {b | a ∣ b ∧ n ≤ b ∧ b + a ≤ e} (up a n) := by
  constructor
  · exact ⟨dvd_up a n, le_up ha n, hend⟩
  · rintro b ⟨hdvd, hle, -⟩
    exact up_le ha hdvd hle

theorem toNat_add_ofNat {x : BitVec 64} {i : Nat} (h : x.toNat + i < 2 ^ 64) :
    (x + BitVec.ofNat 64 i).toNat = x.toNat + i := by
  have hi : i < 2 ^ 64 := by omega
  rw [BitVec.toNat_add, BitVec.toNat_ofNat, Nat.mod_eq_of_lt hi, Nat.mod_eq_of_lt h]

/-- Masking the low bits rounds down. -/
theorem toNat_and_not_mask (x : BitVec 64) (k : Nat) :
    (x &&& ~~~BitVec.ofNat 64 (2 ^ k - 1)).toNat = x.toNat / 2 ^ k * 2 ^ k := by
  have hshift : x &&& ~~~BitVec.ofNat 64 (2 ^ k - 1) = (x >>> k) <<< k := by
    apply BitVec.eq_of_getLsbD_eq
    intro i hi
    simp only [BitVec.getLsbD_and, BitVec.getLsbD_not, BitVec.getLsbD_ofNat,
      Nat.testBit_two_pow_sub_one, BitVec.getLsbD_shiftLeft, BitVec.getLsbD_ushiftRight, hi,
      decide_true, Bool.true_and]
    by_cases hik : i < k
    · simp [hik]
    · simp [hik, Nat.add_sub_cancel' (Nat.le_of_not_lt hik)]
  have hle : x.toNat / 2 ^ k * 2 ^ k < 2 ^ 64 :=
    (Nat.div_mul_le_self _ _).trans_lt x.isLt
  rw [hshift, BitVec.toNat_shiftLeft, BitVec.toNat_ushiftRight, Nat.shiftRight_eq_div_pow,
    Nat.shiftLeft_eq, Nat.mod_eq_of_lt hle]

end MceTest.Library.Align

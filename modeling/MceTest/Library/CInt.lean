import Mathlib.Data.Int.DivMod
import Mathlib.Algebra.Group.Int.Defs
import Mathlib.Algebra.Group.Nat.Defs

/-! Integers of C: `int` with undefined overflow, and the conversions between `int`, `long` and
`unsigned long`. -/

namespace MceTest.Library.CInt

def IsInt (v : Int) : Prop := -2 ^ 31 ≤ v ∧ v < 2 ^ 31

instance (v : Int) : Decidable (IsInt v) := inferInstanceAs (Decidable (_ ∧ _))

/-- The `int` a wider number is converted to. -/
def toInt (v : Int) : Int := v.bmod (2 ^ 32)

def toULong (v : Int) : Nat := (v % 2 ^ 64).toNat

/-- The `long` a wider number is converted to. -/
def toLong (v : Int) : Int := v.bmod (2 ^ 64)

/-- The product of two `int`s, if it is one. -/
def intMul (a b : Int) : Option Int := if IsInt (a * b) then some (a * b) else none

theorem toInt_of_small {v : Int} (h : v % 2 ^ 32 < 2 ^ 31) : toInt v = v % 2 ^ 32 := by
  rw [toInt, Int.bmod_def]
  exact if_pos (by omega)

theorem toInt_of_large {v : Int} (h : 2 ^ 31 ≤ v % 2 ^ 32) : toInt v = v % 2 ^ 32 - 2 ^ 32 := by
  rw [toInt, Int.bmod_def]
  exact if_neg (by omega)

theorem isInt_toInt (v : Int) : IsInt (toInt v) := by
  rw [toInt, Int.bmod_def, IsInt]
  split <;> omega

theorem toLong_of_bounds {v : Int} (hlo : -2 ^ 63 ≤ v) (hhi : v < 2 ^ 63) : toLong v = v := by
  rw [toLong, Int.bmod_def]
  split <;> omega

theorem toULong_nonneg {v : Int} (h : 0 ≤ v) (hv : v < 2 ^ 64) : (toULong v : Int) = v := by
  rw [toULong]
  omega

theorem toULong_natCast {n : Nat} (h : n < 2 ^ 64) : toULong n = n := by
  rw [toULong]
  omega

theorem toULong_neg {v : Int} (h : v < 0) (hv : -2 ^ 64 ≤ v) :
    (toULong v : Int) = 2 ^ 64 + v := by
  rw [toULong]
  omega

end MceTest.Library.CInt

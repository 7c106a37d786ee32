import Mathlib.Algebra.Group.Int.Defs
import Mathlib.Data.Int.DivMod

/-! The numbers and the arithmetic of `bc`. -/

namespace MceTest.Library.Bc

/-- The digits as an integer, and how many of them stand after the point. -/
structure Num where
  coeff : Int
  scale : Nat
  deriving DecidableEq

def Num.int (n : Int) : Num := ⟨n, 0⟩

/-- The digits with `scale` places after the point; what lies behind them is cut off. -/
def Num.places (x : Num) (scale : Nat) : Int := (x.coeff * 10 ^ scale).tdiv (10 ^ x.scale)

def Num.sub (x y : Num) : Num :=
  let scale := max x.scale y.scale
  ⟨x.places scale - y.places scale, scale⟩

def Num.mul (scale : Nat) (x y : Num) : Num :=
  let z : Num := ⟨x.coeff * y.coeff, x.scale + y.scale⟩
  let scale := min z.scale (max scale (max x.scale y.scale))
  ⟨z.places scale, scale⟩

def Num.div (scale : Nat) (x y : Num) : Option Num :=
  if y.coeff = 0 then none
  else some ⟨(x.coeff * 10 ^ (scale + y.scale)).tdiv (y.coeff * 10 ^ x.scale), scale⟩

def Num.pow (scale : Nat) (x : Num) (n : Nat) : Num :=
  let z : Num := ⟨x.coeff ^ n, x.scale * n⟩
  let scale := min z.scale (max scale x.scale)
  ⟨z.places scale, scale⟩

inductive Expr
  | num (x : Num)
  | sub (e f : Expr)
  | mul (e f : Expr)
  | div (e f : Expr)
  | pow (e : Expr) (n : Nat)

/-- What is printed with the variable `scale` set; a division by zero prints nothing. -/
def Expr.eval (scale : Nat) : Expr → Option Num
  | .num x => some x
  | .sub e f => return (← e.eval scale).sub (← f.eval scale)
  | .mul e f => return (← e.eval scale).mul scale (← f.eval scale)
  | .div e f => do (← e.eval scale).div scale (← f.eval scale)
  | .pow e n => return (← e.eval scale).pow scale n

theorem Num.places_self (x : Num) : x.places x.scale = x.coeff :=
  Int.mul_tdiv_cancel _ (Int.ne_of_gt (Int.pow_pos (by decide)))

theorem Num.sub_int (a b : Int) : (int a).sub (int b) = int (a - b) := by
  change Num.mk ((int a).places (int a).scale - (int b).places (int b).scale) 0 = int (a - b)
  rw [places_self, places_self]
  rfl

theorem Num.mul_int (scale : Nat) (x : Num) (b : Int) :
    x.mul scale (int b) = ⟨x.coeff * b, x.scale⟩ := by
  have hscale : min (x.scale + 0) (max scale (max x.scale 0)) = x.scale := by omega
  have hplaces := places_self ⟨x.coeff * b, x.scale⟩
  rw [mul]
  dsimp only [int]
  rw [hscale]
  exact congrArg (Num.mk · x.scale) hplaces

theorem Num.pow_int (scale : Nat) (a : Int) (n : Nat) : (int a).pow scale n = int (a ^ n) := by
  have hscale : min (0 * n) (max scale 0) = 0 := by omega
  have hplaces := places_self (int (a ^ n))
  rw [pow]
  dsimp only [int]
  rw [hscale, Nat.zero_mul]
  exact congrArg (Num.mk · 0) hplaces

theorem Num.div_int (scale : Nat) (a : Int) {b : Int} (hb : b ≠ 0) :
    (int a).div scale (int b) = some ⟨(a * 10 ^ scale).tdiv b, scale⟩ := by
  rw [div, if_neg (show (int b).coeff ≠ 0 from hb)]
  dsimp only [int]
  rw [Int.pow_zero, Int.mul_one, Nat.add_zero]

theorem Num.div_places {scale : Nat} (a : Int) {b : Int} (hb : b ≠ 0) :
    (Num.mk a scale).div scale (int b) = some ⟨a.tdiv b, scale⟩ := by
  rw [div, if_neg (show (int b).coeff ≠ 0 from hb)]
  dsimp only [int]
  rw [Nat.add_zero, Int.mul_tdiv_mul_of_pos_left _ _ (Int.pow_pos (by decide))]

end MceTest.Library.Bc

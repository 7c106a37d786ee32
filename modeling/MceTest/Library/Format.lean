import Mathlib.Data.BitVec
import Mathlib.Data.List.Flatten

/-! `vsprintf` into a buffer: the text that a format and its arguments give, and whether
it fits with its terminator.  A `Char` stands for a byte. -/

namespace MceTest.Library.Format

/-- A stretch of a format, or a directive with its argument. -/
inductive Piece
  | lit (text : List Char)
  | s (text : List Char)
  | d (v : BitVec 32)
  | x (v : BitVec 8)
  | p (v : BitVec 64)

def intText (v : BitVec 32) : List Char :=
  if 0 ≤ v.toInt then Nat.toDigits 10 v.toInt.toNat
  else '-' :: Nat.toDigits 10 v.toInt.natAbs

/-- A null pointer is `(nil)`. -/
def ptrText (v : BitVec 64) : List Char :=
  if v = 0 then "(nil)".toList else '0' :: 'x' :: Nat.toDigits 16 v.toNat

def Piece.text : Piece → List Char
  | .lit t | .s t => t
  | .d v => intText v
  | .x v => Nat.toDigits 16 v.toNat
  | .p v => ptrText v

def format (ps : List Piece) : List Char := ps.flatMap Piece.text

/-- The text, unless it runs over the end of the buffer. -/
def vsprintf (size : Nat) (ps : List Piece) : Option (List Char) :=
  if (format ps).length + 1 ≤ size then some (format ps) else none

/-- What a directive can take up. -/
def Piece.width : Piece → Nat
  | .lit t | .s t => t.length
  | .d _ => 11
  | .x _ => 2
  | .p _ => 18

theorem length_intText_le (v : BitVec 32) : (intText v).length ≤ 11 := by
  have hlow := BitVec.le_toInt v
  have hhigh := BitVec.toInt_lt (x := v)
  unfold intText
  split
  · exact ((Nat.length_toDigits_le_iff (k := 10) (by decide) (by decide)).mpr (by omega)).trans
      (by decide)
  · rw [List.length_cons]
    exact Nat.succ_le_succ
      ((Nat.length_toDigits_le_iff (k := 10) (by decide) (by decide)).mpr (by omega))

theorem length_ptrText_le (v : BitVec 64) : (ptrText v).length ≤ 18 := by
  unfold ptrText
  split
  · decide
  · rw [List.length_cons, List.length_cons]
    have hlt := v.isLt
    exact Nat.add_le_add_right
      ((Nat.length_toDigits_le_iff (k := 16) (by decide) (by decide)).mpr (by omega)) 2

theorem Piece.length_text_le (a : Piece) : a.text.length ≤ a.width := by
  cases a with
  | lit t | s t => exact le_rfl
  | d v => exact length_intText_le v
  | x v =>
    have hlt := v.isLt
    exact (Nat.length_toDigits_le_iff (k := 2) (by decide) (by decide)).mpr (by omega)
  | p v => exact length_ptrText_le v

theorem length_format_le (ps : List Piece) : (format ps).length ≤ (ps.map Piece.width).sum := by
  induction ps with
  | nil => exact le_rfl
  | cons a ps ih =>
    rw [format, List.flatMap_cons, List.length_append, List.map_cons, List.sum_cons]
    exact Nat.add_le_add a.length_text_le ih

end MceTest.Library.Format

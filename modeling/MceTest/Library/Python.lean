import MceTest.Library.Numeral
import Mathlib.Data.List.DropRight

/-! Texts and integers as Python has them. -/

namespace MceTest.Library.Python

open MceTest.Library.Numeral

/-- `l.find(c)`, `none` for -1. -/
def find (c : Char) (l : List Char) : Option Nat := l.findIdx? (· = c)

theorem find_append {c : Char} {a : List Char} (ha : c ∉ a) (r : List Char) :
    find c (a ++ c :: r) = some a.length := by
  have hnone : a.findIdx? (· = c) = none :=
    List.findIdx?_eq_none_iff.mpr fun d hd => decide_eq_false fun h => ha (h ▸ hd)
  rw [find, List.findIdx?_append, hnone, List.findIdx?_cons]
  simp

def nat? (ds : List Char) : Option Nat :=
  if ds ≠ [] ∧ Digits 10 ds then some (value 10 ds) else none

/-- `int(s)`; `none` for a `ValueError`. -/
def int? (s : List Char) : Option Int :=
  match (s.dropWhile isSpace).rdropWhile isSpace with
  | '-' :: ds => (nat? ds).map fun n => -(n : Int)
  | '+' :: ds => (nat? ds).map fun n => (n : Int)
  | ds => (nat? ds).map fun n => (n : Int)

theorem isSpace_of_digit {c : Char} (hc : digitVal c < 10) : isSpace c = false := by
  rw [digitVal] at hc
  simp only [isSpace, decide_eq_false_iff_not]
  rintro (rfl | ⟨hlo, hhi⟩)
  · exact absurd hc (by decide)
  · grind

theorem int?_padded {pad ds : List Char} (hpad : ∀ c ∈ pad, isSpace c = true) (hne : ds ≠ [])
    (hds : Digits 10 ds) : int? (pad ++ ds) = some (value 10 ds) := by
  have hspace : ∀ c ∈ ds, isSpace c = false := fun c hc => isSpace_of_digit (hds c hc)
  have hnat : nat? ds = some (value 10 ds) := if_pos ⟨hne, hds⟩
  have hleft : (pad ++ ds).dropWhile isSpace = ds := by
    rw [List.dropWhile_append_of_pos hpad]
    cases ds with
    | nil => rfl
    | cons d ds => exact List.dropWhile_cons_of_neg (by simp [hspace d List.mem_cons_self])
  have hright : ds.rdropWhile isSpace = ds := by
    rw [List.rdropWhile_eq_self_iff]
    intro h
    simp [hspace _ (List.getLast_mem h)]
  rw [int?, hleft, hright]
  split
  · exact absurd (hds '-' List.mem_cons_self) (by decide)
  · exact absurd (hds '+' List.mem_cons_self) (by decide)
  · rw [hnat]
    rfl

/-- `"%*s"` -/
def rjust (width : Nat) (s : List Char) : List Char := s.leftpad width ' '

theorem rjust_eq (width : Nat) (s : List Char) :
    ∃ pad, rjust width s = pad ++ s ∧ ∀ c ∈ pad, c = ' ' :=
  ⟨_, rfl, fun _ hc => List.eq_of_mem_replicate hc⟩

end MceTest.Library.Python

import Mathlib.Data.List.Basic

/-! Arrays of slots, where the first empty slot ends what is in them. -/

namespace MceTest.Library.Slots

variable {α : Type}

/-- The loop to the first empty slot, which must not run beyond the array. -/
def firstEmpty : List (Option α) → Option Nat
  | [] => none
  | none :: _ => some 0
  | some _ :: slots => (firstEmpty slots).map (· + 1)

def write (slots : List (Option α)) (i : Nat) (x : α) : Option (List (Option α)) :=
  if i < slots.length then some (slots.set i (some x)) else none

def walk : List (Option α) → Option (List α)
  | [] => none
  | none :: _ => some []
  | some x :: slots => (walk slots).map (x :: ·)

def filled (used : List α) (free : Nat) : List (Option α) :=
  used.map some ++ List.replicate free none

theorem length_filled (used : List α) (free : Nat) :
    (filled used free).length = used.length + free := by
  rw [filled, List.length_append, List.length_map, List.length_replicate]

theorem firstEmpty_filled (used : List α) (free : Nat) :
    firstEmpty (filled used free) = if free = 0 then none else some used.length := by
  induction used with
  | nil => cases free <;> rfl
  | cons x used ih =>
    change (firstEmpty (filled used free)).map (· + 1) = _
    rw [ih]
    split <;> rfl

theorem write_filled (used : List α) (free : Nat) (x : α) :
    write (filled used free) used.length x =
      if free = 0 then none else some (filled (used ++ [x]) (free - 1)) := by
  rw [write, length_filled]
  cases free with
  | zero => rw [Nat.add_zero, if_neg (Nat.lt_irrefl _), if_pos rfl]
  | succ free =>
    rw [if_pos (by omega), if_neg (Nat.succ_ne_zero free), filled, List.replicate_succ,
      List.set_append_right _ _ (Nat.le_of_eq (List.length_map some))]
    simp [filled]

theorem walk_filled (used : List α) (free : Nat) :
    walk (filled used free) = if free = 0 then none else some used := by
  induction used with
  | nil => cases free <;> rfl
  | cons x used ih =>
    change (walk (filled used free)).map (x :: ·) = _
    rw [ih]
    split <;> rfl

end MceTest.Library.Slots

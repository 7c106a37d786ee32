import Mathlib.Data.List.Basic
import Mathlib.Data.List.Flatten

/-! Reading a text with `fgets` into a buffer of fixed size, and texts made of records that such
reads give back. -/

namespace MceTest.Library.Fgets

/-- One call that stores at most `room` characters: up to the end of the line, and what is left. -/
def fgets : Nat → List Char → List Char × List Char
  | 0, cs => ([], cs)
  | _ + 1, [] => ([], [])
  | room + 1, c :: cs =>
    if c = '\n' then ([c], cs) else ((c :: (fgets room cs).1), (fgets room cs).2)

def readsFrom (room : Nat) : Nat → List Char → List (List Char)
  | 0, _ => []
  | _ + 1, [] => []
  | fuel + 1, c :: cs =>
    (fgets room (c :: cs)).1 :: readsFrom room fuel (fgets room (c :: cs)).2

/-- What the calls give until the end of the file. -/
def reads (room : Nat) (cs : List Char) : List (List Char) := readsFrom room cs.length cs

theorem fgets_append (room : Nat) (cs : List Char) :
    (fgets room cs).1 ++ (fgets room cs).2 = cs := by
  induction room generalizing cs with
  | zero => rfl
  | succ room ih =>
    cases cs with
    | nil => rfl
    | cons c cs =>
      rw [fgets]
      split
      · rfl
      · exact congrArg (c :: ·) (ih cs)

theorem fgets_rest_lt {room : Nat} (hroom : room ≠ 0) (c : Char) (cs : List Char) :
    (fgets room (c :: cs)).2.length < (c :: cs).length := by
  obtain ⟨room, rfl⟩ := Nat.exists_eq_succ_of_ne_zero hroom
  have hlength := congrArg List.length (fgets_append room cs)
  rw [List.length_append] at hlength
  rw [fgets]
  split
  · exact Nat.lt_succ_self _
  · rw [List.length_cons]
    dsimp only
    omega

theorem readsFrom_fuel {room : Nat} (hroom : room ≠ 0) {fuel : Nat} {cs : List Char}
    (h : cs.length ≤ fuel) : readsFrom room fuel cs = reads room cs := by
  induction fuel using Nat.strongRecOn generalizing cs with
  | ind fuel ih =>
    cases cs with
    | nil => cases fuel <;> rfl
    | cons c cs =>
      cases fuel with
      | zero => cases h
      | succ fuel =>
        have hrest := fgets_rest_lt hroom c cs
        have hlength : (c :: cs).length = cs.length + 1 := rfl
        rw [reads, hlength, readsFrom, readsFrom, ih fuel (Nat.lt_succ_self _) (by omega)]
        by_cases heq : cs.length = fuel
        · rw [heq, ih fuel (Nat.lt_succ_self _) (by omega)]
        · rw [ih cs.length (by omega) (by omega)]

theorem reads_cons {room : Nat} (hroom : room ≠ 0) (c : Char) (cs : List Char) :
    reads room (c :: cs) =
      (fgets room (c :: cs)).1 :: reads room (fgets room (c :: cs)).2 := by
  have hrest := fgets_rest_lt hroom c cs
  have hlength : (c :: cs).length = cs.length + 1 := rfl
  rw [reads, hlength, readsFrom, readsFrom_fuel hroom (by omega)]

structure Record (room : Nat) (r : List Char) : Prop where
  length : r.length = room
  line : ∃ text, r = text ++ ['\n'] ∧ '\n' ∉ text

theorem fgets_line {text rest : List Char} (h : '\n' ∉ text) {room : Nat}
    (hroom : text.length < room) : fgets room (text ++ '\n' :: rest) = (text ++ ['\n'], rest) := by
  induction text generalizing room with
  | nil =>
    obtain ⟨room, rfl⟩ := Nat.exists_eq_succ_of_ne_zero (Nat.ne_zero_of_lt hroom)
    exact if_pos rfl
  | cons c text ih =>
    obtain ⟨room, rfl⟩ := Nat.exists_eq_succ_of_ne_zero (Nat.ne_zero_of_lt hroom)
    obtain ⟨hc, htext⟩ := not_or.mp (mt List.mem_cons.mpr h)
    rw [List.cons_append, fgets, if_neg (Ne.symm hc), ih htext (Nat.lt_of_succ_lt_succ hroom)]
    rfl

theorem reads_records {room : Nat} (hroom : room ≠ 0) {rs : List (List Char)}
    (h : ∀ r ∈ rs, Record room r) : reads room rs.flatten = rs := by
  induction rs with
  | nil => rfl
  | cons r rs ih =>
    obtain ⟨hr, hrs⟩ := List.forall_mem_cons.mp h
    obtain ⟨text, rfl, htext⟩ := hr.line
    have hlength : text.length < room := by
      have := hr.length
      rw [List.length_append, List.length_singleton] at this
      omega
    have hcall : fgets room ((text ++ ['\n']) ++ rs.flatten) = (text ++ ['\n'], rs.flatten) := by
      rw [List.append_assoc]
      exact fgets_line htext hlength
    rw [List.flatten_cons]
    cases hcs : (text ++ ['\n']) ++ rs.flatten with
    | nil => simp at hcs
    | cons c cs => rw [reads_cons hroom, ← hcs, hcall, ih hrs]

end MceTest.Library.Fgets

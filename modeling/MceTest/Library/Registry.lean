import MceTest.Library.Slots
import Mathlib.Data.List.Infix
import Mathlib.Data.List.Perm.Basic
import Mathlib.Data.List.ReduceOption

/-! Registries that are kept in slots: what is entered goes into the first free slot, and a slot
is added only when none is free. -/

namespace MceTest.Library.Registry

variable {α : Type}

def entries (slots : List (Option α)) : List α := slots.reduceOption

@[simp] theorem entries_nil : entries ([] : List (Option α)) = [] := rfl

@[simp] theorem entries_none (slots : List (Option α)) :
    entries (none :: slots) = entries slots := rfl

@[simp] theorem entries_some (slots : List (Option α)) (x : α) :
    entries (some x :: slots) = x :: entries slots := rfl

theorem length_entries_le (slots : List (Option α)) : (entries slots).length ≤ slots.length :=
  List.reduceOption_length_le slots

def enter : List (Option α) → α → List (Option α)
  | [], x => [some x]
  | none :: slots, x => some x :: slots
  | some y :: slots, x => some y :: enter slots x

/-- Frees the first slot with an entry of the kind, if there is one. -/
def remove (p : α → Bool) : List (Option α) → Option (List (Option α))
  | [] => none
  | none :: slots => (remove p slots).map (none :: ·)
  | some y :: slots => if p y then some (none :: slots) else (remove p slots).map (some y :: ·)

theorem entries_enter (slots : List (Option α)) (x : α) :
    (entries (enter slots x)).Perm (x :: entries slots) := by
  induction slots with
  | nil => exact .refl _
  | cons slot slots ih =>
    cases slot with
    | none => exact .refl _
    | some y => exact (ih.cons y).trans (.swap x y _)

theorem length_enter (slots : List (Option α)) (x : α) :
    (enter slots x).length = max slots.length ((entries slots).length + 1) := by
  induction slots with
  | nil => rfl
  | cons slot slots ih =>
    cases slot with
    | none =>
      have hle := length_entries_le slots
      rw [enter, entries_none, List.length_cons, List.length_cons]
      omega
    | some y =>
      rw [enter, entries_some, List.length_cons, List.length_cons,
        List.length_cons, ih]
      omega

theorem remove_eq_none_iff {p : α → Bool} {slots : List (Option α)} :
    remove p slots = none ↔ ∀ y ∈ entries slots, p y = false := by
  induction slots with
  | nil => simp [remove]
  | cons slot slots ih =>
    cases slot with
    | none => rw [remove, Option.map_eq_none_iff, ih, entries_none]
    | some y =>
      rw [remove, entries_some, List.forall_mem_cons]
      split
      · rename_i hy
        simp [hy]
      · rename_i hy
        rw [Option.map_eq_none_iff, ih]
        simp [hy]

theorem remove_spec {p : α → Bool} {slots slots' : List (Option α)}
    (h : remove p slots = some slots') :
    slots'.length = slots.length ∧
      ∃ y, p y = true ∧ (entries slots).Perm (y :: entries slots') := by
  induction slots generalizing slots' with
  | nil => cases h
  | cons slot slots ih =>
    cases slot with
    | none =>
      obtain ⟨rest, hrest, rfl⟩ := Option.map_eq_some_iff.mp h
      obtain ⟨hlength, y, hy, hperm⟩ := ih hrest
      exact ⟨congrArg (· + 1) hlength, y, hy, hperm⟩
    | some z =>
      rw [remove] at h
      split at h
      · rename_i hz
        cases h
        exact ⟨rfl, z, hz, .refl _⟩
      · obtain ⟨rest, hrest, rfl⟩ := Option.map_eq_some_iff.mp h
        obtain ⟨hlength, y, hy, hperm⟩ := ih hrest
        exact ⟨congrArg (· + 1) hlength, y, hy, (hperm.cons z).trans (.swap y z _)⟩

theorem entries_set_free {slots : List (Option α)} {i : Nat}
    (h : Slots.firstEmpty slots = some i) (x : α) :
    (entries (slots.set i (some x))).Perm (x :: entries slots) := by
  induction slots generalizing i with
  | nil => cases h
  | cons slot slots ih =>
    cases slot with
    | none =>
      cases h
      exact .refl _
    | some y =>
      obtain ⟨j, hj, rfl⟩ := Option.map_eq_some_iff.mp h
      exact ((ih hj).cons y).trans (.swap x y _)

theorem firstEmpty_eq_none_iff {slots : List (Option α)} :
    Slots.firstEmpty slots = none ↔ slots.length = (entries slots).length := by
  induction slots with
  | nil => simp [Slots.firstEmpty]
  | cons slot slots ih =>
    cases slot with
    | none =>
      have hle := length_entries_le slots
      refine iff_of_false nofun ?_
      rw [entries_none, List.length_cons]
      omega
    | some y =>
      rw [Slots.firstEmpty, Option.map_eq_none_iff, ih, entries_some, List.length_cons,
        List.length_cons, Nat.add_right_cancel_iff]

theorem entries_set_none {slots : List (Option α)} {i : Nat} {x : α}
    (h : slots[i]? = some (some x)) :
    (entries slots).Perm (x :: entries (slots.set i none)) := by
  induction slots generalizing i with
  | nil => cases h
  | cons slot slots ih =>
    cases i with
    | zero =>
      cases h
      exact .refl _
    | succ i =>
      have hrest : (entries slots).Perm (x :: entries (slots.set i none)) := ih h
      cases slot with
      | none => exact hrest
      | some y => exact (hrest.cons y).trans (.swap x y _)

theorem mem_entries {slots : List (Option α)} {x : α} : x ∈ entries slots ↔ some x ∈ slots :=
  List.reduceOption_mem_iff

theorem entries_map {β : Type} (f : α → β) (slots : List (Option α)) :
    entries (slots.map (Option.map f)) = (entries slots).map f :=
  List.reduceOption_map

section Runs

variable {β : Type} (apply : List (Option α) → β → List (Option α))

/-- An operation that adds a slot only for an entry that finds none free. -/
def Frugal : Prop :=
  ∀ slots op, (apply slots op).length = max slots.length (entries (apply slots op)).length

variable {apply}

/-- There are as many slots as there have ever been entries at a time. -/
theorem Frugal.length_le_iff (h : Frugal apply) (slots : List (Option α)) (ops : List β) (n : Nat) :
    (ops.foldl apply slots).length ≤ n ↔
      slots.length ≤ n ∧ ∀ pre, pre <+: ops → (entries (pre.foldl apply slots)).length ≤ n := by
  induction ops using List.reverseRecOn with
  | nil =>
    refine ⟨fun hle => ⟨hle, ?_⟩, And.left⟩
    rintro pre hpre
    rw [List.prefix_nil.mp hpre]
    exact (length_entries_le slots).trans hle
  | append_singleton ops op ih =>
    have hlast := h (ops.foldl apply slots) op
    rw [List.foldl_append, List.foldl_cons, List.foldl_nil, hlast, Nat.max_le, ih, and_assoc]
    refine and_congr_right fun _ => ⟨fun ⟨hpres, hend⟩ pre hpre => ?_, fun hall => ⟨?_, ?_⟩⟩
    · rcases List.prefix_concat_iff.mp hpre with rfl | hpre
      · rwa [List.foldl_append]
      · exact hpres pre hpre
    · exact fun pre hpre => hall pre (hpre.trans (List.prefix_append ..))
    · have hwhole := hall _ (List.prefix_refl _)
      rwa [List.foldl_append] at hwhole

end Runs

end MceTest.Library.Registry

import Mathlib.Data.List.Induction
import Mathlib.Data.List.Infix
import Mathlib.Algebra.Order.BigOperators.Group.List
import Mathlib.Algebra.Order.Ring.Nat

/-! Words in texts, and the number of lines that contain one. -/

namespace MceTest.Library.Grep

variable {α : Type}

theorem infix_split {w : List α} (hne : w ≠ []) {b : α} (hmem : b ∉ w) (text rest : List α) :
    w <:+: text ++ b :: rest ↔ w <:+: text ∨ w <:+: rest := by
  have hstart (t : List α) (h : w <+: t ++ b :: rest) : w <+: t := by
    by_cases hlen : w.length ≤ t.length
    · exact List.prefix_of_prefix_length_le h (List.prefix_append ..) hlen
    · have hover : t ++ [b] <+: w := by
        apply List.prefix_of_prefix_length_le _ h (by simp; omega)
        exact ⟨rest, by simp⟩
      exact absurd (hover.mem (by simp)) hmem
  induction text with
  | nil =>
    rw [List.nil_append, List.infix_cons_iff, List.infix_nil]
    refine or_congr_left ⟨fun h => ?_, fun h => absurd h hne⟩
    exact List.prefix_nil.mp (hstart [] h)
  | cons c text ih =>
    rw [List.cons_append, List.infix_cons_iff, List.infix_cons_iff, or_assoc]
    refine or_congr ⟨hstart (c :: text), fun h => ?_⟩ ih
    exact h.trans (List.prefix_append (c :: text) (b :: rest))

theorem infix_replicate {w : List α} (hne : w ≠ []) {b : α} (hmem : b ∉ w) (text : List α)
    (n : Nat) : w <:+: text ++ List.replicate n b ↔ w <:+: text := by
  induction n with
  | zero => rw [List.replicate_zero, List.append_nil]
  | succ n ih =>
    rw [List.replicate_succ', ← List.append_assoc, infix_split hne hmem, ih, List.infix_nil,
      or_iff_left hne]

theorem infix_run {w ds : List α} (hne : w ≠ []) (hds : ds ≠ []) (h : ∀ d ∈ ds, d ∉ w)
    (text rest : List α) : w <:+: text ++ (ds ++ rest) ↔ w <:+: text ∨ w <:+: rest := by
  have hrun : ∀ ds : List α, (∀ d ∈ ds, d ∉ w) → (w <:+: ds ++ rest ↔ w <:+: rest) := by
    intro ds h
    induction ds with
    | nil => exact Iff.rfl
    | cons d ds ih =>
      have hsplit := infix_split hne (h d List.mem_cons_self) [] (ds ++ rest)
      rw [List.nil_append, List.infix_nil] at hsplit
      rw [List.cons_append, hsplit, ih fun e he => h e (List.mem_cons_of_mem d he)]
      exact or_iff_right hne
  obtain ⟨d, ds, rfl⟩ := List.exists_cons_of_ne_nil hds
  rw [List.cons_append, infix_split hne (h d List.mem_cons_self)]
  exact or_congr_right (hrun ds fun e he => h e (List.mem_cons_of_mem d he))

/-- `grep -c` -/
def count (w : List Char) (text : List Char) : Nat :=
  ((text.splitOn '\n').filter fun line => w <:+: line).length

def Complete (text : List Char) : Prop := text = [] ∨ ∃ t, text = t ++ ['\n']

theorem Complete.append {a b : List Char} (ha : Complete a) (hb : Complete b) :
    Complete (a ++ b) := by
  rcases hb with rfl | ⟨t, rfl⟩
  · rwa [List.append_nil]
  · exact Or.inr ⟨a ++ t, (List.append_assoc ..).symm⟩

theorem Complete.flatten {texts : List (List Char)} (h : ∀ t ∈ texts, Complete t) :
    Complete texts.flatten := by
  induction texts with
  | nil => exact Or.inl rfl
  | cons t texts ih =>
    exact (h t (.head _)).append (ih fun t ht => h t (.tail _ ht))

variable {w : List Char}

theorem count_nil (hne : w ≠ []) : count w [] = 0 := by
  have hnot : ¬ w <:+: [] := fun h => hne (List.infix_nil.mp h)
  simp [count, hnot]

theorem count_newline (a b : List Char) : count w (a ++ '\n' :: b) = count w a + count w b := by
  rw [count, List.splitOn_append_cons_self, List.filter_append, List.length_append, count, count]

theorem count_append (hne : w ≠ []) {a : List Char} (ha : Complete a) (b : List Char) :
    count w (a ++ b) = count w a + count w b := by
  rcases ha with rfl | ⟨t, rfl⟩
  · rw [List.nil_append, count_nil hne, Nat.zero_add]
  · rw [List.append_assoc, List.singleton_append, count_newline, count_newline, count_nil hne,
      Nat.add_zero]

theorem count_flatten (hne : w ≠ []) {texts : List (List Char)} (h : ∀ t ∈ texts, Complete t) :
    count w texts.flatten = (texts.map (count w)).sum := by
  induction texts with
  | nil => exact count_nil hne
  | cons t texts ih =>
    rw [List.flatten_cons, count_append hne (h t (.head _)), List.map_cons, List.sum_cons,
      ih fun t ht => h t (.tail _ ht)]

theorem mem_of_mem_splitOn {text line : List Char} {c : Char} (hline : line ∈ text.splitOn '\n')
    (hc : c ∈ line) : c ∈ text := by
  induction text generalizing line with
  | nil =>
    rw [List.splitOn_nil, List.mem_singleton] at hline
    rwa [← hline]
  | cons d text ih =>
    rw [List.splitOn_cons_eq_if_modifyHead] at hline
    split at hline
    · rcases List.mem_cons.mp hline with rfl | hline
      · cases hc
      · exact List.mem_cons_of_mem d (ih hline hc)
    · obtain ⟨l, ls, hls⟩ := List.exists_cons_of_ne_nil (List.splitOn_ne_nil '\n' text)
      rw [hls, List.modifyHead_cons] at hline
      rw [hls] at ih
      rcases List.mem_cons.mp hline with rfl | hline
      · rcases List.mem_cons.mp hc with rfl | hc
        · exact List.mem_cons_self
        · exact List.mem_cons_of_mem d (ih (.head _) hc)
      · exact List.mem_cons_of_mem d (ih (.tail _ hline) hc)

theorem count_eq_zero {c : Char} (hc : c ∈ w) {text : List Char} (h : c ∉ text) :
    count w text = 0 := by
  rw [count, List.length_eq_zero_iff, List.filter_eq_nil_iff]
  intro line hline hin
  exact h (mem_of_mem_splitOn hline ((of_decide_eq_true hin).subset hc))

theorem exists_splitOn_append (text : List Char) : ∃ ls l, ∀ tail : List Char, '\n' ∉ tail →
    (text ++ tail).splitOn '\n' = ls ++ [l ++ tail] := by
  induction text using List.reverseRecOn with
  | nil => exact ⟨[], [], fun tail htail => List.splitOn_eq_singleton htail⟩
  | append_singleton text c ih =>
    by_cases hc : c = '\n'
    · refine ⟨text.splitOn '\n', [], fun tail htail => ?_⟩
      rw [hc, List.append_assoc, List.singleton_append, List.splitOn_append_cons_self,
        List.splitOn_eq_singleton htail]
      rfl
    · obtain ⟨ls, l, h⟩ := ih
      refine ⟨ls, l ++ [c], fun tail htail => ?_⟩
      rw [List.append_assoc, List.append_assoc, List.singleton_append]
      exact h (c :: tail) (List.not_mem_cons_of_ne_of_not_mem (Ne.symm hc) htail)

theorem length_filter_eq_sum (p : α → Bool) (xs : List α) :
    (xs.filter p).length = (xs.map fun x => if p x then 1 else 0).sum := by
  induction xs with
  | nil => rfl
  | cons x xs ih =>
    rw [List.map_cons, List.sum_cons, ← ih, List.filter_cons]
    split
    · rw [List.length_cons, Nat.add_comm]
    · rw [Nat.zero_add]

theorem sum_eq_sum_iff {f g : α → Nat} {xs : List α} (h : ∀ x ∈ xs, g x ≤ f x) :
    (xs.map f).sum = (xs.map g).sum ↔ ∀ x ∈ xs, f x = g x := by
  induction xs with
  | nil => simp
  | cons x xs ih =>
    have hx := h x (.head _)
    have hxs : (xs.map g).sum ≤ (xs.map f).sum :=
      List.sum_le_sum fun y hy => h y (.tail _ hy)
    rw [List.forall_mem_cons, ← ih fun y hy => h y (.tail _ hy), List.map_cons, List.map_cons,
      List.sum_cons, List.sum_cons]
    omega

end MceTest.Library.Grep

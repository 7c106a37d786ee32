import Mathlib.Data.List.Basic

/-! The pieces of a text between separators, where runs of separators count as one and those at
the ends do not matter. -/

namespace MceTest.Library.Tokens

variable {α : Type} (sep : α → Bool)

def tokensFrom (word : List α) : List α → List (List α)
  | [] => if word.isEmpty then [] else [word]
  | c :: cs =>
    if sep c then
      if word.isEmpty then tokensFrom [] cs else word :: tokensFrom [] cs
    else tokensFrom (word ++ [c]) cs

def tokens (text : List α) : List (List α) := tokensFrom sep [] text

def IsToken (w : List α) : Prop := w ≠ [] ∧ ∀ c ∈ w, sep c = false

variable {sep}

theorem tokens_gap {gap : List α} (hgap : ∀ c ∈ gap, sep c = true) (text : List α) :
    tokens sep (gap ++ text) = tokens sep text := by
  induction gap with
  | nil => rfl
  | cons c gap ih =>
    obtain ⟨hc, hgap⟩ := List.forall_mem_cons.mp hgap
    rw [List.cons_append, tokens, tokensFrom, if_pos hc]
    exact ih hgap

theorem tokensFrom_word {w : List α} (hw : ∀ c ∈ w, sep c = false) (word rest : List α) :
    tokensFrom sep word (w ++ rest) = tokensFrom sep (word ++ w) rest := by
  induction w generalizing word with
  | nil => rw [List.append_nil, List.nil_append]
  | cons c w ih =>
    obtain ⟨hc, hw⟩ := List.forall_mem_cons.mp hw
    rw [List.cons_append, tokensFrom, if_neg (by simp [hc]), ih hw, List.append_assoc]
    rfl

theorem tokens_word {gap w rest : List α} (hgap : ∀ c ∈ gap, sep c = true) (hw : IsToken sep w)
    (hrest : ∀ c ∈ rest.head?, sep c = true) :
    tokens sep (gap ++ (w ++ rest)) = w :: tokens sep rest := by
  have hne : w.isEmpty = false := by
    rw [List.isEmpty_eq_false_iff]
    exact hw.1
  rw [tokens_gap hgap, tokens, tokensFrom_word hw.2, List.nil_append]
  cases rest with
  | nil => simp [tokensFrom, tokens, hne]
  | cons c rest =>
    have hc : sep c = true := hrest c rfl
    rw [tokens, tokensFrom, tokensFrom, if_pos hc, if_pos hc, hne]
    rfl

end MceTest.Library.Tokens

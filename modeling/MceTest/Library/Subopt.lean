import Mathlib.Data.List.Basic
import Mathlib.Data.List.TakeWhile

/-! `getsubopt`: options of the form `name=value` that are separated by commas. -/

namespace MceTest.Library.Subopt

abbrev Word := List Char

def name (item : Word) : Word := item.takeWhile (· ≠ '=')

/-- What is behind the first `=` of an item. -/
def value (item : Word) : Option Word :=
  if '=' ∈ item then some ((item.dropWhile (· ≠ '=')).drop 1) else none

def item (p : List Char) : Word := p.takeWhile (· ≠ ',')

def next (p : List Char) : List Char := (p.dropWhile (· ≠ ',')).drop 1

structure Result where
  index : Option Nat
  value : Option Word
  rest : List Char

/-- `-1` is the index `none`; the value is the whole item then. -/
def getsubopt (tokens : List Word) (p : List Char) : Result :=
  match tokens.idxOf? (name (item p)) with
  | none => ⟨none, some (item p), next p⟩
  | some index => ⟨some index, value (item p), next p⟩

def items (p : List Char) : List Word :=
  if (p.splitOn ',').getLast? = some [] then (p.splitOn ',').dropLast else p.splitOn ','

theorem items_nil : items [] = [] := rfl

theorem items_single {p : List Char} (hp : ',' ∉ p) (hne : p ≠ []) : items p = [p] := by
  rw [items, List.splitOn_eq_singleton hp, List.getLast?_singleton, if_neg (by simpa using hne)]

theorem items_cons {a : Word} (ha : ',' ∉ a) (rest : List Char) :
    items (a ++ ',' :: rest) = a :: items rest := by
  obtain ⟨b, parts, hparts⟩ := List.exists_cons_of_ne_nil (List.splitOn_ne_nil ',' rest)
  rw [items, items, List.splitOn_append_cons_self_of_not_mem ha, hparts, List.getLast?_cons_cons,
    List.dropLast_cons_of_ne_nil (List.cons_ne_nil b parts)]
  split <;> rfl

theorem split_item (p : List Char) :
    ',' ∉ item p ∧ (p = item p ∧ next p = [] ∨ p = item p ++ ',' :: next p) := by
  have hplain : ',' ∉ item p := fun h => by
    simpa using List.mem_takeWhile_imp h
  refine ⟨hplain, ?_⟩
  have hsplit : item p ++ p.dropWhile (· ≠ ',') = p := List.takeWhile_append_dropWhile
  cases hdrop : p.dropWhile (· ≠ ',') with
  | nil =>
    rw [hdrop, List.append_nil] at hsplit
    exact Or.inl ⟨hsplit.symm, by rw [next, hdrop]; rfl⟩
  | cons c rest =>
    have hc : c = ',' := by
      have hhead := List.head_dropWhile_not (fun c => decide (c ≠ ','))
        (hdrop ▸ List.cons_ne_nil c rest)
      simp only [hdrop, List.head_cons, decide_eq_false_iff_not, ne_eq, not_not] at hhead
      exact hhead
    rw [hdrop, hc] at hsplit
    exact Or.inr (by rw [next, hdrop]; exact hsplit.symm)

theorem items_next {p : List Char} (hne : p ≠ []) : items p = item p :: items (next p) := by
  obtain ⟨hplain, ⟨hp, hnext⟩ | hp⟩ := split_item p
  · rw [hnext, items_nil, ← hp]
    exact items_single (hp ▸ hplain) hne
  · rw [← items_cons hplain, ← hp]

theorem length_next_lt {p : List Char} (hne : p ≠ []) : (next p).length < p.length := by
  have hpos := List.length_pos_of_ne_nil hne
  obtain ⟨-, ⟨-, hnext⟩ | hp⟩ := split_item p
  · rw [hnext]
    exact hpos
  · have hlength := congrArg List.length hp
    rw [List.length_append, List.length_cons] at hlength
    omega

def lastValue (token : Word) (items : List Word) : Option Word :=
  (items.filterMap fun a => if name a = token then value a else none).getLast?

theorem lastValue_cons (token a : Word) (items : List Word) :
    lastValue token (a :: items) =
      (lastValue token items).or (if name a = token then value a else none) := by
  rw [lastValue, lastValue, List.filterMap_cons]
  cases h : (if name a = token then value a else none) with
  | none => exact (Option.or_none).symm
  | some v =>
    rw [List.getLast?_cons]
    cases (items.filterMap fun a => if name a = token then value a else none).getLast? <;> rfl

end MceTest.Library.Subopt

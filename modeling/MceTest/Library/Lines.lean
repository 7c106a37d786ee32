import Mathlib.Data.List.Forall2
import Mathlib.Data.List.Infix

/-! Texts as lines, each with the newline at its end. -/

namespace MceTest.Library.Lines

def lines : List Char → List (List Char)
  | [] => []
  | c :: cs =>
    if c = '\n' then [c] :: lines cs
    else match lines cs with
      | [] => [[c]]
      | l :: ls => (c :: l) :: ls

/-- Lines of one text: only the last may be without a newline. -/
inductive Lined : List (List Char) → Prop
  | nil : Lined []
  | last {l : List Char} (hne : l ≠ []) (hl : '\n' ∉ l) : Lined [l]
  | cons {b : List Char} {ls : List (List Char)} (hb : '\n' ∉ b) (hls : Lined ls) :
    Lined ((b ++ ['\n']) :: ls)

theorem lines_lined (t : List Char) : Lined (lines t) := by
  induction t with
  | nil => exact .nil
  | cons c cs ih =>
    rw [lines]
    split
    · rename_i hc
      rw [hc]
      exact .cons (b := []) List.not_mem_nil ih
    · rename_i hc
      cases hls : lines cs with
      | nil => exact .last (List.cons_ne_nil c []) fun h => hc (List.mem_singleton.mp h).symm
      | cons l ls =>
        rw [hls] at ih
        cases ih with
        | last hne hl =>
          exact .last (List.cons_ne_nil c l) (List.not_mem_cons_of_ne_of_not_mem (Ne.symm hc) hl)
        | cons hb hls => exact .cons (List.not_mem_cons_of_ne_of_not_mem (Ne.symm hc) hb) hls

theorem lines_flatten (t : List Char) : (lines t).flatten = t := by
  induction t with
  | nil => rfl
  | cons c cs ih =>
    rw [lines]
    split
    · exact congrArg (c :: ·) ih
    · split
      · rename_i hls
        rw [hls] at ih
        exact congrArg (c :: ·) ih
      · rename_i l ls hls
        rw [hls] at ih
        exact congrArg (c :: ·) ih

theorem lines_append_newline {b : List Char} (hb : '\n' ∉ b) (t : List Char) :
    lines (b ++ '\n' :: t) = (b ++ ['\n']) :: lines t := by
  induction b with
  | nil => exact if_pos rfl
  | cons c b ih =>
    obtain ⟨hc, hb⟩ := not_or.mp (mt List.mem_cons.mpr hb)
    rw [List.cons_append, lines, if_neg (Ne.symm hc), ih hb]
    rfl

theorem lines_single {l : List Char} (hne : l ≠ []) (hl : '\n' ∉ l) : lines l = [l] := by
  induction l with
  | nil => exact absurd rfl hne
  | cons c l ih =>
    obtain ⟨hc, hl⟩ := not_or.mp (mt List.mem_cons.mpr hl)
    rw [lines, if_neg (Ne.symm hc)]
    cases l with
    | nil => rfl
    | cons d l => rw [ih (List.cons_ne_nil d l) hl]

theorem Lined.lines {ls : List (List Char)} (h : Lined ls) : lines ls.flatten = ls := by
  induction h with
  | nil => rfl
  | last hne hl => rw [List.flatten_singleton, lines_single hne hl]
  | cons hb _ ih =>
    rw [List.flatten_cons, List.append_assoc, List.singleton_append, lines_append_newline hb, ih]

def Restarted (l l' : List Char) : Prop :=
  ∃ a a' r, l = a ++ r ∧ l' = a' ++ r ∧ '\n' ∉ a' ∧ r ≠ []

theorem Lined.restarted {ls ls' : List (List Char)} (h : Lined ls)
    (hnew : List.Forall₂ Restarted ls ls') : Lined ls' := by
  induction h generalizing ls' with
  | nil =>
    cases hnew
    exact .nil
  | last hne hl =>
    cases hnew with
    | cons hline hrest =>
      obtain ⟨a, a', r, rfl, rfl, ha', hr⟩ := hline
      cases hrest
      refine .last (List.append_ne_nil_of_right_ne_nil a' hr) fun h => ?_
      rcases List.mem_append.mp h with h | h
      · exact ha' h
      · exact hl (List.mem_append_right a h)
  | cons hb hls ih =>
    cases hnew with
    | cons hline hrest =>
      obtain ⟨a, a', r, heq, rfl, ha', hr⟩ := hline
      obtain ⟨r, c, rfl⟩ := List.eq_nil_or_concat r |>.resolve_left hr
      rw [List.concat_eq_append, ← List.append_assoc] at heq
      obtain ⟨rfl, hc⟩ := List.append_inj' heq rfl
      obtain rfl := List.singleton_inj.mp hc
      rw [List.concat_eq_append, ← List.append_assoc]
      refine .cons (fun h => ?_) (ih hrest)
      rcases List.mem_append.mp h with h | h
      · exact ha' h
      · exact hb (List.mem_append_right a h)

def chomp (l : List Char) : List Char := l.takeWhile (· ≠ '\n')

def unlines (ls : List (List Char)) : List Char := ls.flatMap (· ++ ['\n'])

theorem chomp_newline {l : List Char} (h : '\n' ∉ l) : chomp (l ++ ['\n']) = l := by
  rw [chomp, List.takeWhile_append_of_pos, List.takeWhile_cons_of_neg (by decide), List.append_nil]
  intro c hc
  exact decide_eq_true fun heq => h (heq ▸ hc)

theorem lines_unlines {ls : List (List Char)} (h : ∀ l ∈ ls, '\n' ∉ l) :
    lines (unlines ls) = ls.map (· ++ ['\n']) := by
  induction ls with
  | nil => rfl
  | cons l ls ih =>
    rw [unlines, List.flatMap_cons, List.append_assoc, List.singleton_append,
      lines_append_newline (h l List.mem_cons_self), List.map_cons]
    exact congrArg (_ :: ·) (ih fun l' hl' => h l' (.tail _ hl'))

theorem chomps_unlines {ls : List (List Char)} (h : ∀ l ∈ ls, '\n' ∉ l) :
    (lines (unlines ls)).map chomp = ls := by
  rw [lines_unlines h, List.map_map]
  conv_rhs => rw [← List.map_id ls]
  exact List.map_congr_left fun l hl => chomp_newline (h l hl)

/-- `sed /p/d` -/
def sedDelete (p : List Char → Bool) (t : List Char) : List Char :=
  ((lines t).filter fun l => !p (chomp l)).flatten

/-- `grep -v` for a fixed text. -/
def grepOut (w : List Char) (t : List Char) : List Char :=
  unlines (((lines t).map chomp).filter fun l => !decide (w <:+: l))

theorem sedDelete_unlines (p : List Char → Bool) {ls : List (List Char)}
    (h : ∀ l ∈ ls, '\n' ∉ l) :
    sedDelete p (unlines ls) = unlines (ls.filter fun l => !p l) := by
  rw [sedDelete, lines_unlines h, List.filter_map, ← List.flatMap_def]
  refine congrArg (List.flatMap _) (List.filter_congr fun l hl => ?_)
  rw [Function.comp_apply, chomp_newline (h l hl)]

theorem grepOut_unlines (w : List Char) {ls : List (List Char)} (h : ∀ l ∈ ls, '\n' ∉ l) :
    grepOut w (unlines ls) = unlines (ls.filter fun l => !decide (w <:+: l)) := by
  rw [grepOut, chomps_unlines h]

/-- The order in which `sort` prints lines: no two lines are equal in it. -/
structure Collation where
  le : List Char → List Char → Bool
  trans : ∀ a b c, le a b → le b c → le a c
  total : ∀ a b, le a b || le b a
  antisymm : ∀ a b, le a b → le b a → a = b

namespace Collation

def sort (sh : Collation) (t : List Char) : List Char :=
  unlines (((lines t).map chomp).mergeSort sh.le)

theorem mergeSort_eq_iff (sh : Collation) (ls ls' : List (List Char)) :
    ls.mergeSort sh.le = ls'.mergeSort sh.le ↔ ls.Perm ls' := by
  constructor
  · intro h
    exact (List.mergeSort_perm ls sh.le).symm.trans (h ▸ List.mergeSort_perm ls' sh.le)
  · intro h
    refine List.Perm.eq_of_pairwise (fun a b _ _ => sh.antisymm a b)
      (List.pairwise_mergeSort sh.trans sh.total ls) (List.pairwise_mergeSort sh.trans sh.total ls')
      ?_
    exact ((List.mergeSort_perm ls sh.le).trans h).trans (List.mergeSort_perm ls' sh.le).symm

/-- Two sorted texts are equal if they have the same lines equally often. -/
theorem sort_unlines_eq_iff (sh : Collation) {ls ls' : List (List Char)}
    (h : ∀ l ∈ ls, '\n' ∉ l) (h' : ∀ l ∈ ls', '\n' ∉ l) :
    sh.sort (unlines ls) = sh.sort (unlines ls') ↔ ls.Perm ls' := by
  rw [sort, sort, chomps_unlines h, chomps_unlines h', ← sh.mergeSort_eq_iff]
  constructor
  · intro heq
    rw [← chomps_unlines fun l hl => h l (List.mem_mergeSort.mp hl), heq,
      chomps_unlines fun l hl => h' l (List.mem_mergeSort.mp hl)]
  · exact congrArg unlines

end Collation

end MceTest.Library.Lines

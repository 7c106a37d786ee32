import MceTest.Library.Grep
import MceTest.Library.Numeral
import Mathlib.Data.List.Infix

/-! Text files, fields and the `[` command of the shell. -/

namespace MceTest.Library.Shell

abbrev Word := List Char

/-- A text file: its complete lines, and what follows the last newline. -/
structure TextFile where
  lines : List Word
  rest : Word := []
  deriving DecidableEq

def TextFile.all (f : TextFile) : List Word := f.lines ++ if f.rest = [] then [] else [f.rest]

/-- `wc -l` counts newlines. -/
def TextFile.wc (f : TextFile) : Nat := f.lines.length

def grep (pattern : String) (f : TextFile) : List Word :=
  f.all.filter fun line => pattern.toList <:+: line

theorem grep_eq_nil_iff {pattern : String} {f : TextFile} :
    grep pattern f = [] ↔ ∀ line ∈ f.all, ¬ pattern.toList <:+: line := by
  rw [grep, List.filter_eq_nil_iff]
  exact forall₂_congr fun line _ => not_congr decide_eq_true_iff

/-- The field `awk -F :` calls `$NF`. -/
def lastField (line : Word) : Word := (line.reverse.takeWhile (· ≠ ':')).reverse

/-- Joined lines, without the newlines at their end: what `$(...)` makes of an output. -/
def substitution (lines : List Word) : List Char :=
  ((lines.flatMap fun line => line ++ ['\n']).reverse.dropWhile (· = '\n')).reverse

def isBlank (c : Char) : Bool := c = ' ' ∨ c = '\t' ∨ c = '\n'

def splitWordsFrom (word : Word) : List Char → List Word
  | [] => if word = [] then [] else [word]
  | c :: cs =>
    if isBlank c then
      if word = [] then splitWordsFrom [] cs else word :: splitWordsFrom [] cs
    else splitWordsFrom (word ++ [c]) cs

def splitWords (text : List Char) : List Word := splitWordsFrom [] text

def BlankEnd (text : List Char) : Prop := text = [] ∨ ∃ t b, text = t ++ [b] ∧ isBlank b = true

def BlankStart (text : List Char) : Prop := text = [] ∨ ∃ b t, text = b :: t ∧ isBlank b = true

def IsWord (w : Word) : Prop := w ≠ [] ∧ ∀ c ∈ w, isBlank c = false

-- not by all characters, of which a `decide` would try each
instance (w : Word) : Decidable (IsWord w) :=
  @instDecidableAnd _ _ inferInstance (List.decidableBAll _ w)

theorem splitWordsFrom_blank (word text rest : List Char) {b : Char} (hb : isBlank b = true) :
    splitWordsFrom word (text ++ b :: rest) = splitWordsFrom word text ++ splitWords rest := by
  induction text generalizing word with
  | nil =>
    simp only [List.nil_append, splitWordsFrom, hb, if_true]
    split <;> rfl
  | cons c cs ih =>
    rw [List.cons_append, splitWordsFrom, splitWordsFrom]
    split
    · split
      · exact ih []
      · rw [ih [], List.cons_append]
    · exact ih (word ++ [c])

theorem splitWordsFrom_word (word : Word) {w : List Char} (hw : ∀ c ∈ w, isBlank c = false)
    (rest : List Char) : splitWordsFrom word (w ++ rest) = splitWordsFrom (word ++ w) rest := by
  induction w generalizing word with
  | nil => rw [List.nil_append, List.append_nil]
  | cons c w ih =>
    have hc : ¬ isBlank c = true := by rw [hw c (.head _)]; exact Bool.false_ne_true
    rw [List.cons_append, splitWordsFrom, if_neg hc, ih (word ++ [c]) fun d hd => hw d (.tail _ hd),
      List.append_assoc, List.singleton_append]

theorem splitWords_word {w rest : List Char} (hw : IsWord w) (hrest : BlankStart rest) :
    splitWords (w ++ rest) = w :: splitWords rest := by
  rw [splitWords, splitWordsFrom_word [] hw.2, List.nil_append]
  rcases hrest with rfl | ⟨b, rest, rfl, hb⟩
  · rw [splitWordsFrom, if_neg hw.1]
    rfl
  · rw [splitWordsFrom, if_pos hb, if_neg hw.1, splitWords, splitWordsFrom, if_pos hb, if_pos rfl]

theorem splitWords_around {text w rest : List Char} (htext : BlankEnd text) (hw : IsWord w)
    (hrest : BlankStart rest) :
    splitWords (text ++ w ++ rest) = splitWords text ++ w :: splitWords rest := by
  rw [← splitWords_word hw hrest]
  rcases htext with rfl | ⟨text, b, rfl, hb⟩
  · rfl
  · have hblank : splitWords (text ++ [b]) = splitWords text := by
      rw [splitWords, splitWordsFrom_blank [] text [] hb]
      exact List.append_nil _
    rw [hblank, List.append_assoc, List.append_assoc, List.singleton_append, splitWords,
      splitWordsFrom_blank [] text _ hb]
    rfl

theorem splitWords_blanks {text : List Char} (h : ∀ c ∈ text, isBlank c = true) :
    splitWords text = [] := by
  induction text with
  | nil => rfl
  | cons c text ih =>
    rw [splitWords, splitWordsFrom, if_pos (h c List.mem_cons_self), if_pos rfl]
    exact ih fun d hd => h d (List.mem_cons_of_mem c hd)

/-- `echo $text` -/
def echo (text : List Char) : Word := [' '].intercalate (splitWords text)

theorem splitWords_self {w : Word} (hw : IsWord w) : splitWords w = [w] := by
  have h := splitWords_word hw (.inl rfl)
  rwa [List.append_nil] at h

theorem infix_blank {w : Word} (hw : IsWord w) {b : Char} (hb : isBlank b = true)
    (text rest : List Char) : w <:+: text ++ b :: rest ↔ w <:+: text ∨ w <:+: rest := by
  have hmem : b ∉ w := fun h => by
    rw [hw.2 b h] at hb
    cases hb
  exact Grep.infix_split hw.1 hmem text rest

theorem exists_wordEnd (text : List Char) :
    ∃ t w, text = t ++ w ∧ BlankEnd t ∧ ∀ c ∈ w, isBlank c = false := by
  induction text using List.reverseRecOn with
  | nil => exact ⟨[], [], rfl, .inl rfl, by simp⟩
  | append_singleton text c ih =>
    cases hc : isBlank c with
    | true => exact ⟨text ++ [c], [], by rw [List.append_nil], .inr ⟨text, c, rfl, hc⟩, by simp⟩
    | false =>
      obtain ⟨t, w, rfl, ht, hw⟩ := ih
      refine ⟨t, w ++ [c], by rw [List.append_assoc], ht, fun d hd => ?_⟩
      rcases List.mem_append.mp hd with hd | hd
      · exact hw d hd
      · rw [List.mem_singleton.mp hd, hc]

theorem exists_wordStart (text : List Char) :
    ∃ w t, text = w ++ t ∧ BlankStart t ∧ ∀ c ∈ w, isBlank c = false := by
  induction text with
  | nil => exact ⟨[], [], rfl, .inl rfl, by simp⟩
  | cons c text ih =>
    cases hc : isBlank c with
    | true => exact ⟨[], c :: text, rfl, .inr ⟨c, text, rfl, hc⟩, by simp⟩
    | false =>
      obtain ⟨w, t, rfl, ht, hw⟩ := ih
      refine ⟨c :: w, t, rfl, ht, fun d hd => ?_⟩
      rcases List.mem_cons.mp hd with rfl | hd
      · exact hc
      · exact hw d hd

def isDigit (c : Char) : Bool := 48 ≤ c.toNat ∧ c.toNat ≤ 57

def natWord? (w : Word) : Option Nat :=
  if w ≠ [] ∧ w.all isDigit then some (Numeral.value 10 w) else none

/-- A decimal integer of 64 bits, as `[` wants one. -/
def intWord? (w : Word) : Option Int :=
  let n := match w with
    | '-' :: w => (natWord? w).map fun n => -(n : Int)
    | '+' :: w => (natWord? w).map fun n => (n : Int)
    | w => (natWord? w).map fun n => (n : Int)
  n.filter fun n => -2 ^ 63 ≤ n ∧ n < 2 ^ 63

/-- What POSIX leaves to the shell or to the directory: `[` with more than three
operands, and file names that match a pattern. -/
structure Behaviour where
  testMany : List Word → Bool
  glob : Word → List Word
  glob_plain : ∀ w, (∀ c ∈ w, c ∉ ['*', '?', '[', '\\']) → glob w = [w]

inductive IntOp
  | eq | ne

def IntOp.text : IntOp → Word
  | .eq => ['-', 'e', 'q']
  | .ne => ['-', 'n', 'e']

def IntOp.holds : IntOp → Int → Bool
  | .eq, n => n = 0
  | .ne, n => n ≠ 0

/-- `[ $x -eq 0 ]` for an unquoted variable.  An operand that is missing or no integer
is an error, which is no success. -/
def testZero (sh : Behaviour) (op : IntOp) (text : List Char) : Bool :=
  match (splitWords text).flatMap sh.glob with
  | [] => false
  | [w] => match intWord? w with
    | none => false
    | some n => op.holds n
  | ws => sh.testMany (ws ++ [op.text, ['0']])

/-- A behaviour as bash has it where no file name matches: several operands that are no
expression are an error. -/
def strict : Behaviour where
  testMany := fun _ => false
  glob := fun w => [w]
  glob_plain := fun _ _ => rfl

end MceTest.Library.Shell

import MceTest.Library.Sed
import MceTest.Library.Shell

/-! The selection of test cases in `mcemenu`: the scenario file, its two `sed` passes in
`ras_scenarios` and the `awk` filter of `execute_test`. -/

namespace MceTest.Mcemenu

open MceTest.Library.Shell MceTest.Library.Sed

def isNameChar (c : Char) : Bool := c.isAlphanum ∨ c = '-'

/-- A line `NAME path on` or `NAME path off`. -/
structure Entry where
  name : Word
  path : Word
  on : Bool
  name_ne : name ≠ []
  name_chars : ∀ c ∈ name, isNameChar c = true
  path_word : IsWord path

/-- A comment is given by its text behind the `#`. -/
inductive Line
  | comment (text : List Char)
  | entry (e : Entry)

def onText : Word := ['o', 'n']
def offText : Word := ['o', 'f', 'f']

def Entry.text (e : Entry) : List Char :=
  e.name ++ ' ' :: e.path ++ ' ' :: if e.on then onText else offText

def Line.text : Line → List Char
  | .comment text => '#' :: text
  | .entry e => e.text

def Line.entry? : Line → Option Entry
  | .comment _ => none
  | .entry e => some e

/-- A line that `dialog` prints for a ticked name. -/
structure Answer where
  tag : Word
  quoted : Bool

def Answer.line (a : Answer) : Word := if a.quoted then '"' :: a.tag ++ ['"'] else a.tag

/-- The quotes are ripped that some output has even with `--separate-output`. -/
def ripQuotes (line : Word) : Word :=
  if line.take 1 = ['"'] ∧ line.drop (line.length - 1) = ['"'] then
    (line.drop 1).take (line.length - 2)
  else line

def tmpmode (sel : List Word) : List Char :=
  (sel.flatMap fun line => '\\' :: '|' :: ripQuotes line).drop 2

/-- `s/\(^[^#].*\)on$/\1off/g` -/
def sedOff : Script where
  anchored := true
  body := .seq (.notChar '#') .dots
  tail := onText
  new := offText

/-- `s/\(\(${TMPMODE}\).*\)off/\1on/g` -/
def sedOn (names : List Word) : Script := alternation names offText onText

/-- The file after a dialog that was cancelled or confirmed. -/
def rasScenarios (lines : List (List Char)) : Option (List Word) → List (List Char)
  | none => lines
  | some sel =>
    let lines := lines.map sedOff.run
    if tmpmode sel ≠ [] then lines.map (sedOn (sel.map ripQuotes)).run else lines

/-- What the `awk` filter of `execute_test` prints for a line. -/
def pick (line : List Char) : Option (List Char) :=
  let fields := splitWords line
  if fields[2]? = some onText then some (fields.getD 0 [] ++ ' ' :: fields.getD 1 []) else none

def caseList (lines : List (List Char)) : List (List Char) := lines.filterMap pick

def columns (line : List Char) : List Word := (splitWords line).take 2

def Entry.case (e : Entry) : List Char := e.name ++ ' ' :: e.path

def chosen (names : List Word) (file : List Line) : List (List Char) :=
  ((file.filterMap Line.entry?).filter fun e => names.contains e.name).map Entry.case

/-- The file picks what is ticked, and keeps its names and paths. -/
def Exact (ticked : List Answer) (file : List Line) : Prop :=
  let after := rasScenarios (file.map Line.text) (some (ticked.map Answer.line))
  caseList after = chosen (ticked.map Answer.tag) file ∧
    after.map columns = (file.map Line.text).map columns

/-- The last `off` of a line, with what stands around it in its field and in the others. -/
structure Spot (line : List Char) where
  before : List Char
  left : List Char
  right : List Char
  after : List Char
  last : Last offText line (before ++ left) (right ++ after)
  before_end : BlankEnd before
  after_start : BlankStart after
  left_word : ∀ c ∈ left, isBlank c = false
  right_word : ∀ c ∈ right, isBlank c = false

def Spot.field {line : List Char} (s : Spot line) : Nat := (splitWords s.before).length

/-- Nothing but the ticked entries is switched on: no ticked name occurs in the name or the
path of another entry; a comment has no `on` as its third field, and if a ticked name occurs
before its last `off`, that is in the third field or behind, and not the whole third field. -/
def Line.Separate (names : List Word) : Line → Prop
  | .entry e => e.name ∈ names ∨ ∀ n ∈ names, ¬ n <:+: e.name ∧ ¬ n <:+: e.path
  | .comment text =>
    (splitWords ('#' :: text))[2]? ≠ some onText ∧
      ∀ s : Spot ('#' :: text), (∃ n ∈ names, n <:+: s.before ++ s.left) →
        2 ≤ s.field ∧ ¬ (s.field = 2 ∧ s.left = [] ∧ s.right = [])

def edit (names : List Word) (line : List Char) : List Char := (sedOn names).run (sedOff.run line)

theorem isBlank_of_isNameChar {c : Char} (h : isNameChar c = true) : isBlank c = false := by
  cases hblank : isBlank c with
  | false => rfl
  | true =>
    have hcases : c = ' ' ∨ c = '\t' ∨ c = '\n' := by simpa [isBlank] using hblank
    rcases hcases with rfl | rfl | rfl
    all_goals exact absurd h (by decide)

theorem Entry.name_word (e : Entry) : IsWord e.name :=
  ⟨e.name_ne, fun c hc => isBlank_of_isNameChar (e.name_chars c hc)⟩

theorem offText_ne : offText ≠ [] := by decide

theorem onText_word : IsWord onText := by decide
theorem offText_word : IsWord offText := by decide

def Entry.front (e : Entry) : List Char := e.name ++ ' ' :: e.path ++ [' ']

theorem Entry.text_eq (e : Entry) :
    e.text = e.front ++ if e.on then onText else offText := by
  simp [Entry.text, Entry.front]

theorem Entry.fields (e : Entry) {mode : Word} (hmode : IsWord mode) :
    splitWords (e.front ++ mode) = [e.name, e.path, mode] := by
  have hblank : isBlank ' ' = true := by decide
  have hfront : BlankEnd (e.name ++ [' ']) := .inr ⟨e.name, ' ', rfl, hblank⟩
  have hrest : BlankStart (' ' :: mode) := .inr ⟨' ', mode, rfl, hblank⟩
  have htext : e.front ++ mode = (e.name ++ [' ']) ++ e.path ++ ' ' :: mode := by
    simp [Entry.front]
  have hspace : splitWords (e.name ++ [' ']) = [e.name] := by
    have h := splitWordsFrom_blank [] e.name [] hblank
    rwa [← splitWords, ← splitWords, splitWords_self e.name_word] at h
  have hlast : splitWords (' ' :: mode) = [mode] := by
    have h := splitWordsFrom_blank [] [] mode hblank
    rwa [splitWords_self hmode] at h
  rw [htext, splitWords_around hfront e.path_word hrest, hspace, hlast]
  rfl

theorem sedOff_entry (e : Entry) : sedOff.run e.text = e.front ++ offText := by
  obtain ⟨c, name, hname⟩ := List.exists_cons_of_ne_nil e.name_ne
  rw [Entry.text_eq]
  cases e.on with
  | true =>
    have hbody : sedOff.body.matches e.front = true := by
      refine matches_seq.mpr ⟨[c], name ++ ' ' :: e.path ++ [' '], ?_, ?_, rfl⟩
      · rw [Entry.front, hname]
        rfl
      · refine matches_notChar.mpr ⟨c, ?_, rfl⟩
        rintro rfl
        have hc := e.name_chars '#' (hname ▸ .head _)
        exact absurd hc (by decide)
    exact run_anchored rfl hbody
  | false =>
    refine run_anchored_none rfl fun u hu _ => ?_
    have hlast := congrArg List.getLast? hu
    simp [sedOff, onText, offText] at hlast

theorem sedOff_comment (text : List Char) : sedOff.run ('#' :: text) = '#' :: text := by
  refine run_anchored_none rfl fun u hu hbody => ?_
  obtain ⟨v, w, rfl, hv, -⟩ := matches_seq.mp hbody
  obtain ⟨d, hd, rfl⟩ := matches_notChar.mp hv
  rw [List.append_assoc, List.singleton_append, List.cons.injEq] at hu
  exact hd hu.1.symm

theorem last_entry (e : Entry) : Last offText (e.front ++ offText) e.front [] where
  eq := (List.append_nil _).symm
  last := fun u v huv => by
    have hlen := congrArg List.length huv
    simp only [List.length_append] at hlen
    omega

section

variable {names : List Word}

theorem edit_touched (hne : ∀ n ∈ names, n ≠ []) {line pre post : List Char}
    (h : Last offText line pre post) (htouched : ∃ n ∈ names, n <:+: pre) :
    (sedOn names).run line = pre ++ onText ++ post :=
  every_alternation_some offText_ne htouched hne le_rfl h

theorem edit_untouched {line pre post : List Char} (h : Last offText line pre post)
    (htouched : ¬ ∃ n ∈ names, n <:+: pre) : (sedOn names).run line = line :=
  every_alternation_none (fun n hn hin => htouched ⟨n, hn, hin⟩) h

theorem infix_front {n : Word} (hn : IsWord n) (e : Entry) :
    n <:+: e.front ↔ n <:+: e.name ∨ n <:+: e.path := by
  have hblank : isBlank ' ' = true := by decide
  have hpath : n <:+: e.path ++ ' ' :: [] ↔ n <:+: e.path := by
    rw [infix_blank hn hblank, List.infix_nil]
    exact or_iff_left hn.1
  rw [Entry.front, List.append_assoc, List.cons_append, infix_blank hn hblank, hpath]

theorem edit_entry_touched (hnames : ∀ n ∈ names, IsWord n) (e : Entry)
    (htouched : ∃ n ∈ names, n <:+: e.name ∨ n <:+: e.path) :
    edit names e.text = e.front ++ onText := by
  obtain ⟨n, hn, hin⟩ := htouched
  have hfront := (infix_front (hnames n hn) e).mpr hin
  rw [edit, sedOff_entry, edit_touched (fun n hn => (hnames n hn).1) (last_entry e) ⟨n, hn, hfront⟩,
    List.append_nil]

theorem edit_entry_untouched (hnames : ∀ n ∈ names, IsWord n) (e : Entry)
    (htouched : ¬ ∃ n ∈ names, n <:+: e.name ∨ n <:+: e.path) :
    edit names e.text = e.front ++ offText := by
  rw [edit, sedOff_entry, edit_untouched (last_entry e)]
  rintro ⟨n, hn, hin⟩
  exact htouched ⟨n, hn, (infix_front (hnames n hn) e).mp hin⟩

theorem pick_front (e : Entry) {mode : Word} (hmode : IsWord mode) :
    pick (e.front ++ mode) = if mode = onText then some e.case else none := by
  unfold pick
  rw [e.fields hmode]
  simp only [List.getElem?_cons_succ, List.getElem?_cons_zero, Option.some.injEq]
  rfl

theorem columns_front (e : Entry) {mode : Word} (hmode : IsWord mode) :
    columns (e.front ++ mode) = [e.name, e.path] := by
  rw [columns, e.fields hmode]
  rfl

theorem columns_entry (hnames : ∀ n ∈ names, IsWord n) (e : Entry) :
    columns (edit names e.text) = columns e.text := by
  have hcolumns : columns e.text = [e.name, e.path] := by
    rw [e.text_eq]
    split
    · exact columns_front e onText_word
    · exact columns_front e offText_word
  rw [hcolumns]
  by_cases htouched : ∃ n ∈ names, n <:+: e.name ∨ n <:+: e.path
  · rw [edit_entry_touched hnames e htouched, columns_front e onText_word]
  · rw [edit_entry_untouched hnames e htouched, columns_front e offText_word]

theorem pick_entry (hnames : ∀ n ∈ names, IsWord n) (e : Entry) :
    (pick (edit names e.text) = if e.name ∈ names then some e.case else none) ↔
      (Line.entry e).Separate names := by
  rw [Line.Separate]
  by_cases htouched : ∃ n ∈ names, n <:+: e.name ∨ n <:+: e.path
  · rw [edit_entry_touched hnames e htouched, pick_front e onText_word, if_pos rfl]
    obtain ⟨n, hn, hin⟩ := htouched
    constructor
    · intro hpick
      split at hpick
      · exact .inl ‹_›
      · cases hpick
    · rintro (hmem | hnone)
      · rw [if_pos hmem]
      · exact (hin.elim (hnone n hn).1 (hnone n hn).2).elim
  · have hmem : e.name ∉ names := fun h => htouched ⟨e.name, h, .inl List.infix_rfl⟩
    rw [edit_entry_untouched hnames e htouched, pick_front e offText_word, if_neg (by decide),
      if_neg hmem]
    refine iff_of_true rfl (.inr fun n hn => ?_)
    exact ⟨fun h => htouched ⟨n, hn, .inl h⟩, fun h => htouched ⟨n, hn, .inr h⟩⟩

theorem Spot.fields {line : List Char} (s : Spot line) {mode : Word} (hmode : IsWord mode) :
    splitWords (s.before ++ s.left ++ mode ++ (s.right ++ s.after)) =
      splitWords s.before ++ (s.left ++ mode ++ s.right) :: splitWords s.after := by
  have hword : IsWord (s.left ++ mode ++ s.right) := by
    refine ⟨by simp [hmode.1], fun c hc => ?_⟩
    rcases List.mem_append.mp hc with hc | hc
    · rcases List.mem_append.mp hc with hc | hc
      · exact s.left_word c hc
      · exact hmode.2 c hc
    · exact s.right_word c hc
  rw [← splitWords_around s.before_end hword s.after_start]
  simp only [List.append_assoc]

theorem exists_spot {line : List Char} (h : offText <:+: line) : Nonempty (Spot line) := by
  obtain ⟨pre, post, hlast⟩ := exists_last h
  obtain ⟨before, left, rfl, hbefore, hleft⟩ := exists_wordEnd pre
  obtain ⟨right, after, rfl, hafter, hright⟩ := exists_wordStart post
  exact ⟨⟨before, left, right, after, hlast, hbefore, hafter, hleft, hright⟩⟩

theorem pick_eq_none {line : List Char} :
    pick line = none ↔ (splitWords line)[2]? ≠ some onText := by
  unfold pick
  dsimp only
  split
  · rename_i h
    exact iff_of_false (by simp) (not_not.mpr h)
  · rename_i h
    exact iff_of_true rfl h

/-- A change of one field shows in the columns if it is one of theirs, and in the third
field if it is that. -/
theorem replaced_field {before after : List Word} {old new : Word} (hne : old ≠ new)
    (hold : old ≠ onText) :
    ((before ++ new :: after)[2]? ≠ some onText ∧
        (before ++ new :: after).take 2 = (before ++ old :: after).take 2) ↔
      (before ++ old :: after)[2]? ≠ some onText ∧ 2 ≤ before.length ∧
        ¬ (before.length = 2 ∧ new = onText) := by
  match before with
  | [] => simp [hne.symm]
  | [a] => simp [hne.symm]
  | [a, b] => simp [hold]
  | a :: b :: c :: before => simp

theorem Spot.replaced {line : List Char} (s : Spot line) :
    (pick (s.before ++ s.left ++ onText ++ (s.right ++ s.after)) = none ∧
        columns (s.before ++ s.left ++ onText ++ (s.right ++ s.after)) = columns line) ↔
      (splitWords line)[2]? ≠ some onText ∧ 2 ≤ s.field ∧
        ¬ (s.field = 2 ∧ s.left = [] ∧ s.right = []) := by
  have hne : s.left ++ offText ++ s.right ≠ s.left ++ onText ++ s.right := fun h => by
    have hlen := congrArg List.length h
    simp [offText, onText] at hlen
  have hold : s.left ++ offText ++ s.right ≠ onText := fun h => by
    have hlen := congrArg List.length h
    simp [offText, onText] at hlen
    omega
  have hnew : s.left ++ onText ++ s.right = onText ↔ s.left = [] ∧ s.right = [] := by
    constructor
    · intro h
      have hlen := congrArg List.length h
      simp only [List.length_append] at hlen
      exact ⟨List.eq_nil_of_length_eq_zero (by omega), List.eq_nil_of_length_eq_zero (by omega)⟩
    · rintro ⟨hleft, hright⟩
      rw [hleft, hright]
      rfl
  have hline : splitWords line = splitWords s.before ++
      (s.left ++ offText ++ s.right) :: splitWords s.after := by
    rw [← s.fields offText_word, ← s.last.eq]
  rw [pick_eq_none, columns, columns, s.fields onText_word, hline, replaced_field hne hold, hnew]
  rfl

theorem comment_quiet (hnames : ∀ n ∈ names, IsWord n) (text : List Char) :
    (pick (edit names ('#' :: text)) = none ∧
        columns (edit names ('#' :: text)) = columns ('#' :: text)) ↔
      (Line.comment text).Separate names := by
  rw [Line.Separate, edit, sedOff_comment]
  have hsame (h : (sedOn names).run ('#' :: text) = '#' :: text) :
      (pick ((sedOn names).run ('#' :: text)) = none ∧
        columns ((sedOn names).run ('#' :: text)) = columns ('#' :: text)) ↔
      (splitWords ('#' :: text))[2]? ≠ some onText := by
    rw [h, pick_eq_none]
    exact and_iff_left rfl
  by_cases htouched : ∃ s : Spot ('#' :: text), ∃ n ∈ names, n <:+: s.before ++ s.left
  · obtain ⟨s, hs⟩ := htouched
    have hne : ∀ n ∈ names, n ≠ [] := fun n hn => (hnames n hn).1
    constructor
    · intro h
      refine ⟨?_, fun s' hs' => ?_⟩
      · rw [edit_touched hne s.last hs, s.replaced] at h
        exact h.1
      · rw [edit_touched hne s'.last hs', s'.replaced] at h
        exact h.2
    · rintro ⟨hthird, hall⟩
      rw [edit_touched hne s.last hs, s.replaced]
      exact ⟨hthird, hall s hs⟩
  · rw [hsame ?_]
    · exact (and_iff_left fun s hs => absurd ⟨s, hs⟩ htouched).symm
    · by_cases hoff : offText <:+: '#' :: text
      · obtain ⟨s⟩ := exists_spot hoff
        exact edit_untouched s.last fun hs => htouched ⟨s, hs⟩
      · exact every_of_absent _ hoff

end

theorem ripQuotes_line {a : Answer} (h : ∀ c ∈ a.tag, isNameChar c = true) :
    ripQuotes a.line = a.tag := by
  unfold ripQuotes Answer.line
  cases a.quoted with
  | true => simp
  | false =>
    cases htag : a.tag with
    | nil => rfl
    | cons c tag =>
      have hc : c ≠ '"' := by
        rintro rfl
        exact absurd (h '"' (htag ▸ .head _)) (by decide)
      simp [hc]

theorem sedOn_nil (line : List Char) : (sedOn []).run line = line := by
  by_cases hoff : offText <:+: line
  · obtain ⟨pre, post, hlast⟩ := exists_last hoff
    exact edit_untouched hlast (by simp)
  · exact every_of_absent _ hoff

def Ticks (ticked : List Answer) (file : List Line) : Prop :=
  ∀ a ∈ ticked, ∃ e, Line.entry e ∈ file ∧ e.name = a.tag

theorem rasScenarios_eq {ticked : List Answer} {file : List Line} (h : Ticks ticked file)
    (lines : List (List Char)) :
    rasScenarios lines (some (ticked.map Answer.line)) =
      lines.map (edit (ticked.map Answer.tag)) := by
  have hrip : (ticked.map Answer.line).map ripQuotes = ticked.map Answer.tag := by
    rw [List.map_map]
    apply List.map_congr_left
    intro a ha
    obtain ⟨e, -, he⟩ := h a ha
    exact ripQuotes_line (he ▸ e.name_chars)
  cases ticked with
  | nil =>
    rw [rasScenarios, if_neg (by simp [tmpmode])]
    exact List.map_congr_left fun line _ => (sedOn_nil (sedOff.run line)).symm
  | cons a ticked =>
    have hsome : tmpmode ((a :: ticked).map Answer.line) ≠ [] := by
      obtain ⟨e, -, he⟩ := h a (.head _)
      have hne : ripQuotes a.line ≠ [] := by
        rw [ripQuotes_line (he ▸ e.name_chars), ← he]
        exact e.name_ne
      rw [tmpmode, List.map_cons, List.flatMap_cons]
      exact List.append_ne_nil_of_left_ne_nil hne _
    rw [rasScenarios, if_pos hsome, hrip, List.map_map]
    rfl

theorem filterMap_length_le {α β : Type} {f g : α → Option β} {l : List α}
    (h : ∀ a ∈ l, ∀ b, g a = some b → f a = some b) :
    (l.filterMap g).length ≤ (l.filterMap f).length := by
  induction l with
  | nil => exact le_rfl
  | cons a l ih =>
    have hrest := ih fun a ha => h a (.tail _ ha)
    cases hg : g a with
    | none =>
      rw [List.filterMap_cons_none hg]
      cases hf : f a with
      | none => rwa [List.filterMap_cons_none hf]
      | some b =>
        rw [List.filterMap_cons_some hf, List.length_cons]
        exact hrest.trans (Nat.le_succ _)
    | some b =>
      rw [List.filterMap_cons_some hg, List.filterMap_cons_some (h a (.head _) b hg),
        List.length_cons, List.length_cons]
      exact Nat.succ_le_succ hrest

/-- Two selections of which one keeps all that the other does are equal only item by item. -/
theorem filterMap_eq_iff {α β : Type} {f g : α → Option β} {l : List α}
    (h : ∀ a ∈ l, ∀ b, g a = some b → f a = some b) :
    l.filterMap f = l.filterMap g ↔ ∀ a ∈ l, f a = g a := by
  refine ⟨fun heq => ?_, List.filterMap_congr⟩
  induction l with
  | nil => simp
  | cons a l ih =>
    have hrest : ∀ a ∈ l, ∀ b, g a = some b → f a = some b := fun a ha => h a (.tail _ ha)
    have hsame : f a = g a ∧ l.filterMap f = l.filterMap g := by
      cases hg : g a with
      | some b =>
        have hf := h a (.head _) b hg
        rw [List.filterMap_cons_some hg, List.filterMap_cons_some hf, List.cons.injEq] at heq
        exact ⟨hf, heq.2⟩
      | none =>
        rw [List.filterMap_cons_none hg] at heq
        cases hf : f a with
        | none =>
          rw [List.filterMap_cons_none hf] at heq
          exact ⟨rfl, heq⟩
        | some b =>
          have hlen := filterMap_length_le hrest
          rw [List.filterMap_cons_some hf] at heq
          rw [← heq, List.length_cons] at hlen
          omega
    intro b hb
    rcases List.mem_cons.mp hb with rfl | hb
    · exact hsame.1
    · exact ih hrest hsame.2 b hb

def Line.chosen? (names : List Word) : Line → Option (List Char)
  | .comment _ => none
  | .entry e => if names.contains e.name then some e.case else none

theorem chosen?_entry (names : List Word) (e : Entry) :
    (Line.entry e).chosen? names = if e.name ∈ names then some e.case else none := by
  simp only [Line.chosen?, List.contains_iff_mem]

theorem chosen_eq (names : List Word) (file : List Line) :
    chosen names file = file.filterMap (Line.chosen? names) := by
  rw [chosen, ← List.filterMap_eq_filter, ← List.filterMap_eq_map, List.filterMap_filterMap,
    List.filterMap_filterMap]
  congr 1
  funext l
  cases l with
  | comment text => rfl
  | entry e =>
    rw [chosen?_entry]
    by_cases he : e.name ∈ names <;> simp [Line.entry?, he, Option.guard]

/-- Exactly the ticked cases are picked, for every file and every selection, if and only if
no ticked name touches another line. -/
theorem selection_exact {ticked : List Answer} {file : List Line} (h : Ticks ticked file) :
    Exact ticked file ↔ ∀ l ∈ file, l.Separate (ticked.map Answer.tag) := by
  have hnames : ∀ n ∈ ticked.map Answer.tag, IsWord n := by
    intro n hn
    obtain ⟨a, ha, rfl⟩ := List.mem_map.mp hn
    obtain ⟨e, -, he⟩ := h a ha
    exact he ▸ e.name_word
  have hpicks : ∀ l ∈ file, ∀ b, l.chosen? (ticked.map Answer.tag) = some b →
      pick (edit (ticked.map Answer.tag) l.text) = some b := by
    intro l _ b hb
    cases l with
    | comment text => cases hb
    | entry e =>
      rw [chosen?_entry] at hb
      split at hb
      · rename_i hmem
        rw [Line.text, edit_entry_touched hnames e ⟨e.name, hmem, .inl List.infix_rfl⟩,
          pick_front e onText_word, if_pos rfl, hb]
      · cases hb
  have hcases : caseList ((file.map Line.text).map (edit (ticked.map Answer.tag))) =
      file.filterMap fun l => pick (edit (ticked.map Answer.tag) l.text) := by
    rw [caseList, List.filterMap_map, List.filterMap_map]
    rfl
  rw [Exact, rasScenarios_eq h, hcases, chosen_eq, filterMap_eq_iff hpicks, List.map_map,
    List.map_map, List.map_map, List.map_inj_left, ← forall₂_and]
  refine forall₂_congr fun l _ => ?_
  cases l with
  | comment text => exact comment_quiet hnames text
  | entry e =>
    rw [← pick_entry hnames e, ← chosen?_entry]
    exact and_iff_left (columns_entry hnames e)

/-- Two entries of the scenario file of the function tests. -/
def hugepage (on : Bool) : Entry where
  name := "HWPOISON-HUGEPAGE".toList
  path := "cases/function/hwpoison/run_hugepage.sh".toList
  on := on
  name_ne := by decide
  name_chars := List.all_eq_true.mp (by decide)
  path_word := by decide

def hugepageOvercommit (on : Bool) : Entry where
  name := "HWPOISON-HUGEPAGE-OVERCOMMIT".toList
  path := "cases/function/hwpoison/run_hugepage_overcommit.sh".toList
  on := on
  name_ne := by decide
  name_chars := List.all_eq_true.mp (by decide)
  path_word := by decide

theorem selection_exact_overcommit :
    Exact [⟨"HWPOISON-HUGEPAGE-OVERCOMMIT".toList, true⟩]
      [.entry (hugepage true), .entry (hugepageOvercommit false)] := by
  have hticks : Ticks [⟨"HWPOISON-HUGEPAGE-OVERCOMMIT".toList, true⟩]
      [.entry (hugepage true), .entry (hugepageOvercommit false)] := by
    intro a ha
    rw [List.mem_singleton.mp ha]
    exact ⟨hugepageOvercommit false, .tail _ (.head _), rfl⟩
  refine (selection_exact hticks).mpr fun l hl => ?_
  rcases List.mem_cons.mp hl with rfl | hl
  · refine .inr fun n hn => ?_
    rw [List.mem_singleton.mp hn]
    decide +kernel
  · rw [List.mem_singleton.mp hl]
    exact .inl (.head _)

/-- The name of the first entry is found in that of the second, which is switched on with it. -/
theorem overcommit_selected :
    Ticks [⟨"HWPOISON-HUGEPAGE".toList, false⟩]
      [.entry (hugepage true), .entry (hugepageOvercommit false)] ∧
    ¬ Exact [⟨"HWPOISON-HUGEPAGE".toList, false⟩]
      [.entry (hugepage true), .entry (hugepageOvercommit false)] := by
  have hticks : Ticks [⟨"HWPOISON-HUGEPAGE".toList, false⟩]
      [.entry (hugepage true), .entry (hugepageOvercommit false)] := by
    intro a ha
    rw [List.mem_singleton.mp ha]
    exact ⟨hugepage true, .head _, rfl⟩
  have hnames : ∀ n ∈ ["HWPOISON-HUGEPAGE".toList], IsWord n := by
    intro n hn
    rw [List.mem_singleton.mp hn]
    exact (hugepage true).name_word
  have hon : edit ["HWPOISON-HUGEPAGE".toList] (hugepageOvercommit false).text =
      (hugepageOvercommit false).front ++ onText :=
    edit_entry_touched hnames _ ⟨_, .head _, .inl (by decide +kernel)⟩
  refine ⟨hticks, fun hexact => ?_⟩
  have hcases := hexact.1
  rw [rasScenarios_eq hticks] at hcases
  have hmem : (hugepageOvercommit false).case ∈
      chosen ["HWPOISON-HUGEPAGE".toList]
        [.entry (hugepage true), .entry (hugepageOvercommit false)] := by
    change caseList [_, _] = chosen ["HWPOISON-HUGEPAGE".toList] _ at hcases
    rw [← hcases]
    refine List.mem_filterMap.mpr ⟨(hugepageOvercommit false).front ++ onText, ?_, ?_⟩
    · exact .tail _ (hon ▸ .head _)
    · rw [pick_front _ onText_word, if_pos rfl]
  exact absurd hmem (by decide +kernel)

end MceTest.Mcemenu

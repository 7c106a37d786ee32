import MceTest.Library.Shell
import MceTest.Library.Tokens
import Mathlib.Data.List.TakeWhile
import Mathlib.Algebra.Order.Group.Nat

/-! `splitstr`, and the arguments a child of `ltp-pan` is executed with. -/

namespace MceTest.Pan

open MceTest.Library MceTest.Library.Tokens

inductive Cell
  | uninit
  | null
  | tok (text : List Char)
  deriving DecidableEq

/-- A write to the array, which has no result beyond its end. -/
def store (arr : List Cell) (i : Nat) (cell : Cell) : Option (List Cell) :=
  if i < arr.length then some (arr.set i cell) else none

def isSep (separator : List Char) (c : Char) : Bool := c ∈ separator

/-- The next token, and what is behind the separator after it. -/
def strtok (separator rest : List Char) : Option (List Char × List Char) :=
  match rest.dropWhile (isSep separator ·) with
  | [] => none
  | c :: cs =>
    some ((c :: cs).takeWhile (!isSep separator ·),
      ((c :: cs).dropWhile (!isSep separator ·)).tail)

/-- The loop over the tokens, with `realloc` once the array is full. -/
def tokenLoop (separator : List Char) :
    Nat → List Char → List Cell → Nat → Option (List Cell × Nat)
  | 0, _, _, _ => none
  | fuel + 1, rest, arr, numToks =>
    match strtok separator rest with
    | none => some (arr, numToks)
    | some (tok, rest) => do
      let arr ← store arr numToks (.tok tok)
      let arr := if numToks + 1 = arr.length then arr ++ List.replicate 20 .uninit else arr
      tokenLoop separator fuel rest arr (numToks + 1)

/-- The array, and what `argcount` is set to. -/
def splitstr (str separator : List Char) : Option (List Cell × Nat) := do
  let (arr, numToks) ←
    tokenLoop separator (str.length + 1) str (List.replicate 20 .uninit) 0
  let arr ← store arr numToks .null
  let arr ← (List.range' (numToks + 1) (arr.length - (numToks + 1))).foldlM
    (fun arr i => store arr i .null) arr
  return (arr, numToks)

/-- What `execvp` takes the array for: the texts up to the null pointer. -/
def argv : List Cell → Option (List (List Char))
  | [] | .uninit :: _ => none
  | .null :: _ => some []
  | .tok text :: arr => (argv arr).map (text :: ·)

/-- The arguments of the child: a shell for a command line with its characters, else the parts
of the command line. -/
def execArgs (cCmdline : List Char) : Option (List (List Char)) :=
  if cCmdline.any ("\"';|<>$\\".toList.contains ·) then
    some ["sh".toList, "-c".toList, cCmdline]
  else (splitstr cCmdline " \t".toList).bind fun r => argv r.1

variable {separator : List Char}

theorem strtok_spec (rest : List Char) :
    strtok separator rest = none ∧ tokens (isSep separator ·) rest = [] ∨
      ∃ tok rest', strtok separator rest = some (tok, rest') ∧
        tokens (isSep separator ·) rest = tok :: tokens (isSep separator ·) rest' ∧
        rest'.length < rest.length := by
  have hsplit := List.takeWhile_append_dropWhile (p := (isSep separator ·)) (l := rest)
  have hgap : ∀ c ∈ rest.takeWhile (isSep separator ·), isSep separator c = true :=
    fun c hc => List.mem_takeWhile_imp hc
  cases hdrop : rest.dropWhile (isSep separator ·) with
  | nil =>
    refine .inl ⟨by rw [strtok, hdrop], ?_⟩
    have hnil := tokens_gap hgap []
    rw [hdrop] at hsplit
    rwa [hsplit] at hnil
  | cons c cs =>
    have hc : isSep separator c = false := by
      have := List.head?_dropWhile_not (isSep separator ·) rest
      rw [hdrop] at this
      exact this
    refine .inr ⟨_, _, by rw [strtok, hdrop], ?_, ?_⟩
    · have hword : IsToken (isSep separator ·) ((c :: cs).takeWhile (!isSep separator ·)) := by
        refine ⟨by simp [hc], fun d hd => ?_⟩
        simpa using List.mem_takeWhile_imp hd
      have hend : ∀ d ∈ ((c :: cs).dropWhile (!isSep separator ·)).head?,
          isSep separator d = true := by
        intro d hd
        have := List.head?_dropWhile_not (!isSep separator ·) (c :: cs)
        rw [Option.mem_def.mp hd] at this
        simpa using this
      have htext := tokens_word hgap hword hend
      rw [List.takeWhile_append_dropWhile, ← hdrop, hsplit] at htext
      rw [htext, hdrop]
      cases hbehind : (c :: cs).dropWhile (!isSep separator ·) with
      | nil => rfl
      | cons d ds =>
        have hd : isSep separator d = true := hend d (by rw [hbehind]; rfl)
        rw [List.tail_cons, show d :: ds = [d] ++ ds from rfl,
          tokens_gap (List.forall_mem_singleton.mpr hd)]
    · have hlength := congrArg List.length hsplit
      have hle := ((c :: cs).dropWhile_suffix (!isSep separator ·)).length_le
      rw [hdrop, List.length_append] at hlength
      rw [List.dropWhile_cons_of_pos (by simp [hc])] at hle ⊢
      rw [List.length_tail]
      rw [List.length_cons] at hlength hle
      omega

def partly (ts : List (List Char)) (free : Nat) (cell : Cell) : List Cell :=
  ts.map .tok ++ List.replicate free cell

theorem length_partly (ts : List (List Char)) (free : Nat) (cell : Cell) :
    (partly ts free cell).length = ts.length + free := by
  rw [partly, List.length_append, List.length_map, List.length_replicate]

theorem store_behind (pre post : List Cell) (old cell : Cell) :
    store (pre ++ old :: post) pre.length cell = some (pre ++ cell :: post) := by
  rw [store, if_pos (by simp), List.set_append_right _ _ le_rfl, Nat.sub_self]
  rfl

theorem store_partly (ts : List (List Char)) (free : Nat) (tok : List Char) :
    store (partly ts (free + 1) .uninit) ts.length (.tok tok) =
      some (partly (ts ++ [tok]) free .uninit) := by
  have hstore := store_behind (ts.map .tok) (List.replicate free .uninit) .uninit (.tok tok)
  rw [List.length_map] at hstore
  rw [partly, List.replicate_succ, hstore]
  simp [partly]

theorem tokenLoop_spec {fuel : Nat} {rest : List Char} (hfuel : rest.length < fuel)
    (ts : List (List Char)) (free : Nat) :
    ∃ free', tokenLoop separator fuel rest (partly ts (free + 1) .uninit) ts.length =
      some (partly (ts ++ tokens (isSep separator ·) rest) (free' + 1) .uninit,
        (ts ++ tokens (isSep separator ·) rest).length) := by
  induction fuel generalizing rest ts free with
  | zero => cases hfuel
  | succ fuel ih =>
    rw [tokenLoop]
    obtain ⟨hnone, hnil⟩ | ⟨tok, rest', hsome, hcons, hlt⟩ := strtok_spec rest
    · rw [hnone, hnil, List.append_nil]
      exact ⟨free, rfl⟩
    · have hlength : (ts ++ [tok]).length = ts.length + 1 := List.length_append
      rw [hsome, hcons, List.append_cons]
      simp only [store_partly, Option.bind_eq_bind, Option.bind_some, length_partly, hlength]
      rw [← hlength]
      cases free with
      | zero =>
        have hgrow : partly (ts ++ [tok]) 0 .uninit ++ List.replicate 20 .uninit =
            partly (ts ++ [tok]) (19 + 1) .uninit := by simp [partly]
        rw [Nat.add_zero, if_pos rfl, hgrow]
        exact ih (by omega) (ts ++ [tok]) 19
      | succ free =>
        rw [if_neg (by omega)]
        exact ih (by omega) (ts ++ [tok]) free

theorem nulls_spec (pre : List Cell) (free : Nat) :
    (List.range' pre.length free).foldlM (fun arr i => store arr i .null)
      (pre ++ List.replicate free .uninit) = some (pre ++ List.replicate free .null) := by
  induction free generalizing pre with
  | zero => rfl
  | succ free ih =>
    have hnext := ih (pre ++ [.null])
    rw [List.length_append, List.length_singleton, List.append_assoc, List.append_assoc] at hnext
    rw [List.range'_succ, List.foldlM_cons, List.replicate_succ, store_behind]
    exact hnext

/-- No write goes beyond the array; in it are the pieces of the string between the separators,
and behind them at least one null pointer. -/
theorem splitstr_eq (str separator : List Char) :
    ∃ free, splitstr str separator =
      some (partly (tokens (isSep separator ·) str) (free + 1) .null,
        (tokens (isSep separator ·) str).length) := by
  obtain ⟨free, hloop⟩ := tokenLoop_spec
    (Nat.lt_succ_self str.length) [] 19
  rw [List.nil_append] at hloop
  refine ⟨free, ?_⟩
  have hstart : List.replicate 20 Cell.uninit = partly [] (19 + 1) .uninit := rfl
  generalize tokens (isSep separator ·) str = ts at hloop ⊢
  have hnull : store (partly ts (free + 1) .uninit) ts.length .null =
      some ((ts.map .tok ++ [.null]) ++ List.replicate free .uninit) := by
    have hstore := store_behind (ts.map .tok) (List.replicate free .uninit) .uninit .null
    rw [List.length_map] at hstore
    rw [partly, List.replicate_succ, hstore, List.append_cons]
  have hrest := nulls_spec (ts.map .tok ++ [.null]) free
  rw [List.length_append, List.length_map, List.length_singleton] at hrest
  have hcount : ((ts.map Cell.tok ++ [Cell.null]) ++ List.replicate free Cell.uninit).length -
      (ts.length + 1) = free := by
    simp only [List.length_append, List.length_map, List.length_singleton, List.length_replicate]
    omega
  have hfull : partly ts (free + 1) .null =
      (ts.map .tok ++ [.null]) ++ List.replicate free .null := by
    rw [partly, List.replicate_succ, List.append_cons]
  rw [splitstr, hstart, hfull]
  rw [List.length_nil] at hloop
  simp only [hloop, hnull, hcount, hrest, Option.bind_eq_bind, Option.bind_some]
  rfl

theorem argv_partly (ts : List (List Char)) (free : Nat) :
    argv (partly ts (free + 1) .null) = some ts := by
  induction ts with
  | nil => rfl
  | cons t ts ih =>
    change (argv (partly ts (free + 1) .null)).map (t :: ·) = _
    rw [ih]
    rfl

/-- Whatever the string is, the array holds just its pieces, counted right, with a null pointer
behind them. -/
theorem splitstr_argv (str separator : List Char) :
    ∃ arr, splitstr str separator = some (arr, (tokens (isSep separator ·) str).length) ∧
      (tokens (isSep separator ·) str).length < arr.length ∧
      argv arr = some (tokens (isSep separator ·) str) := by
  obtain ⟨free, hsplit⟩ := splitstr_eq str separator
  refine ⟨_, hsplit, ?_, argv_partly _ _⟩
  rw [length_partly]
  omega

theorem tokensFrom_congr {sep sep' : Char → Bool} {text : List Char}
    (h : ∀ c ∈ text, sep c = sep' c) (word : List Char) :
    tokensFrom sep word text = tokensFrom sep' word text := by
  induction text generalizing word with
  | nil => rfl
  | cons c text ih =>
    obtain ⟨hc, htext⟩ := List.forall_mem_cons.mp h
    rw [tokensFrom, tokensFrom, hc, ih htext, ih htext]

theorem splitWordsFrom_eq (word text : List Char) :
    Shell.splitWordsFrom word text = tokensFrom Shell.isBlank word text := by
  induction text generalizing word with
  | nil => simp [Shell.splitWordsFrom, tokensFrom]
  | cons c text ih => simp [Shell.splitWordsFrom, tokensFrom, ih]

/-- A command line without the characters that take a shell is executed with its words between
blanks. -/
theorem execArgs_eq {cCmdline : List Char} (hline : '\n' ∉ cCmdline)
    (hplain : ∀ c ∈ cCmdline, c ∉ "\"';|<>$\\".toList) :
    execArgs cCmdline = some (Shell.splitWords cCmdline) := by
  have hany : (cCmdline.any ("\"';|<>$\\".toList.contains ·)) = false := by
    rw [List.any_eq_false]
    intro c hc
    simpa using hplain c hc
  have hsep : ∀ c ∈ cCmdline, isSep " \t".toList c = Shell.isBlank c := by
    intro c hc
    have hne : c ≠ '\n' := fun h => hline (h ▸ hc)
    simp [isSep, Shell.isBlank, hne]
  obtain ⟨free, hsplit⟩ := splitstr_eq cCmdline " \t".toList
  rw [execArgs, hany, if_neg Bool.false_ne_true, hsplit, Option.bind_some, argv_partly,
    Shell.splitWords, splitWordsFrom_eq, tokens, tokensFrom_congr hsep]

theorem execArgs_words : execArgs "runltp  -d tmp".toList =
    some ["runltp".toList, "-d".toList, "tmp".toList] :=
  (execArgs_eq (by decide) (by simp)).trans (by decide)

end MceTest.Pan

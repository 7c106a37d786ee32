import MceTest.Library.CInt
import MceTest.Library.Lines
import MceTest.Library.Numeral
import MceTest.Pan.Zoo

/-! The commands `ltp-pan` can start: those of a file, one on a line, and the one of its own
command line. -/

namespace MceTest.Pan

open MceTest.Library

/-- A command with its tag, and whether a `%f` has been found for it. -/
structure CollEntry where
  name : Text
  cmdline : Text
  pcntF : Bool
  deriving DecidableEq

/-- The text with its first `%f` written as `%s`, if it has one. -/
def markPcntF : Text → Option Text
  | '%' :: 'f' :: cs => some ('%' :: 's' :: cs)
  | c :: cs => (markPcntF cs).map (c :: ·)
  | [] => none

def isDelim (c : Char) : Bool := c = ' ' ∨ c = '\t'

/-- A line of the file: it may be no entry.  Without a delimiter there is no command line, and
`strdup` is given a null pointer. -/
def collLine (a : Text) : Option (Option CollEntry) :=
  match a with
  | [] | '#' :: _ | ' ' :: _ => some none
  | _ =>
    let line := (markPcntF a).getD a
    match line.dropWhile (!isDelim ·) with
    | [] => none
    | _ :: cmdline =>
      some (some ⟨line.takeWhile (!isDelim ·), cmdline, (markPcntF a).isSome⟩)

/-- `strncat(workstr, src, n)`, which has no result when the buffer is too small. -/
def strncat (workstr src : Text) (n : Int) : Option Text :=
  let out := workstr ++ src.take (CInt.toULong n)
  if out.length + 1 ≤ 1024 then some out else none

def fillArgs : List Text → Text → Int → Option Text
  | [], workstr, _ => some workstr
  | arg :: args, workstr, left => do
    let workstr ← strncat workstr arg left
    let left := CInt.toInt (left - arg.length)
    let workstr ← strncat workstr [' '] left
    fillArgs args workstr (left - 1)

def cmdlnEntry (argv : List Text) : Option CollEntry := do
  let workstr ← fillArgs argv [] 1023
  return ⟨"cmdln".toList, (markPcntF workstr).getD workstr, (markPcntF workstr).isSome⟩

/-- The entries of the file, and behind them the arguments that `getopt` has left. -/
def getCollection (buf : Text) (argv : List Text) : Option (List CollEntry) := do
  let entries ← (buf.splitOn '\n').mapM collLine
  if argv = [] then return entries.reduceOption
  else return entries.reduceOption ++ [← cmdlnEntry argv]

/-- `snprintf(pid_and_counter, 20, "%d_%d", getpid(), counter++)` -/
def pidAndCounter (pid : Pid) (counter : Nat) : Text :=
  (Nat.toDigits 10 pid ++ '_' :: Nat.toDigits 10 counter).take 19

def expand (arg : Option Text) : Text → Option Text
  | [] => some []
  | '%' :: 's' :: cs => arg.bind fun text => (expand none cs).map (text ++ ·)
  | '%' :: '%' :: cs => (expand arg cs).map ('%' :: ·)
  | '%' :: _ => none
  | c :: cs => (expand arg cs).map (c :: ·)

def substPcntF (colle : CollEntry) (pid : Pid) (counter : Nat) : Option Text :=
  if colle.pcntF then (expand (some (pidAndCounter pid counter)) colle.cmdline).map (·.take 1023)
  else some colle.cmdline

/-- What the arguments take up, with a blank behind each. -/
def argsSize (argv : List Text) : Nat := (argv.map (·.length + 1)).sum

theorem argsSize_cons (arg : Text) (argv : List Text) :
    argsSize (arg :: argv) = arg.length + 1 + argsSize argv := by
  rw [argsSize, List.map_cons, List.sum_cons]
  rfl

theorem strncat_fits {workstr src : Text} {left : Int} (hleft : 0 ≤ left) (hmax : left ≤ 1023)
    (hlength : (workstr.length : Int) = 1023 - left) :
    strncat workstr src left = some ((workstr ++ src).take 1023) := by
  have hn : (CInt.toULong left : Int) = left := CInt.toULong_nonneg hleft (by omega)
  have htake : (workstr ++ src).take 1023 = workstr ++ src.take (CInt.toULong left) := by
    rw [List.take_append, List.take_of_length_le (by omega)]
    congr 2
    omega
  rw [strncat, ← htake, if_pos]
  rw [List.length_take]
  omega

theorem strncat_over {workstr src : Text} {left : Int} (hleft : left < 0) (hmin : -2 ^ 31 ≤ left)
    (hsrc : src.length < 2 ^ 31) (hover : 1023 < workstr.length + src.length) :
    strncat workstr src left = none := by
  have hn : (CInt.toULong left : Int) = 2 ^ 64 + left := CInt.toULong_neg hleft (by omega)
  rw [strncat, List.take_of_length_le (by omega), if_neg]
  rw [List.length_append]
  omega

theorem toInt_sub {left : Int} {n : Nat} (hmin : -1 ≤ left) (hmax : left ≤ 1023) (hn : n < 2 ^ 31) :
    CInt.toInt (left - n) = left - n := by
  by_cases h : 0 ≤ left - n
  · rw [CInt.toInt_of_small] <;> omega
  · rw [CInt.toInt_of_large] <;> omega

theorem fillArgs_full {argv : List Text} (hne : argv ≠ []) (h : ∀ arg ∈ argv, arg.length < 2 ^ 31)
    {workstr : Text} (hlength : workstr.length = 1023) : fillArgs argv workstr (-1) = none := by
  obtain ⟨arg, argv, rfl⟩ := List.exists_cons_of_ne_nil hne
  have harg := h arg List.mem_cons_self
  rw [fillArgs, toInt_sub (by omega) (by omega) harg]
  by_cases hempty : arg = []
  · have hkeep : strncat workstr [] (-1) = some workstr := by
      rw [strncat, List.take_nil, List.append_nil, if_pos (by omega)]
    have hblank : strncat workstr [' '] (-1) = none :=
      strncat_over (by decide) (by decide) (by decide) (by rw [hlength]; decide)
    rw [hempty, hkeep]
    simp [hblank]
  · have hpos := List.length_pos_iff.mpr hempty
    rw [strncat_over (by decide) (by decide) harg (by omega)]
    rfl

theorem fillArgs_eq {argv : List Text} (h : ∀ arg ∈ argv, arg.length < 2 ^ 31)
    {workstr : Text} {left : Int} (hleft : 0 ≤ left) (hmax : left ≤ 1023)
    (hlength : (workstr.length : Int) = 1023 - left) :
    fillArgs argv workstr left =
      if workstr.length + argsSize argv ≤ 1024
      then some ((workstr ++ argv.flatMap (· ++ [' '])).take 1023) else none := by
  induction argv generalizing workstr left with
  | nil =>
    rw [fillArgs, if_pos (by simp [argsSize]; omega), List.flatMap_nil, List.append_nil,
      List.take_of_length_le (by omega)]
  | cons arg argv ih =>
    obtain ⟨harg, hargv⟩ := List.forall_mem_cons.mp h
    rw [fillArgs, strncat_fits hleft hmax hlength, argsSize_cons, List.flatMap_cons,
      toInt_sub (by omega) hmax harg]
    simp only [Option.bind_eq_bind, Option.bind_some]
    by_cases hover : left < arg.length
    · have hfull : ((workstr ++ arg).take 1023).length = 1023 := by
        rw [List.length_take, List.length_append]
        omega
      rw [strncat_over (by omega) (by omega) (by decide) (by rw [hfull]; decide), if_neg (by omega)]
      rfl
    · have hwhole : (workstr ++ arg).take 1023 = workstr ++ arg :=
        List.take_of_length_le (by rw [List.length_append]; omega)
      have hlength' : ((workstr ++ arg).length : Int) = 1023 - (left - arg.length) := by
        rw [List.length_append]
        omega
      rw [hwhole, strncat_fits (by omega) (by omega) hlength', Option.bind_some]
      by_cases hlast : left = arg.length
      · have hkeep : (workstr ++ arg ++ [' ']).take 1023 = workstr ++ arg := by
          rw [List.take_append_of_le_length (by omega), List.take_of_length_le (by omega)]
        rw [hkeep, show left - (arg.length : Int) - 1 = -1 by omega]
        by_cases hnil : argv = []
        · rw [hnil, fillArgs, if_pos (by simp [argsSize]; omega), List.flatMap_nil,
            List.append_nil, ← List.append_assoc, hkeep]
        · have hsize : 0 < argsSize argv := by
            obtain ⟨arg', argv', rfl⟩ := List.exists_cons_of_ne_nil hnil
            rw [argsSize_cons]
            omega
          rw [fillArgs_full hnil hargv (by omega), if_neg (by omega)]
      · have hblank : (workstr ++ arg ++ [' ']).take 1023 = workstr ++ arg ++ [' '] := by
          refine List.take_of_length_le ?_
          rw [List.length_append, List.length_singleton]
          omega
        rw [hblank, ih hargv (by omega) (by omega) (by
          rw [List.length_append, List.length_singleton]
          omega)]
        simp only [List.length_append, List.length_singleton, List.append_assoc]
        congr 1
        rw [eq_iff_iff]
        omega

/-- The arguments are taken over, with a blank behind each; those that with their blanks are more
than 1024 characters go beyond the buffer. -/
theorem cmdlnEntry_eq {argv : List Text} (h : ∀ arg ∈ argv, arg.length < 2 ^ 31) :
    cmdlnEntry argv =
      if argsSize argv ≤ 1024 then
        let workstr := (argv.flatMap (· ++ [' '])).take 1023
        some ⟨"cmdln".toList, (markPcntF workstr).getD workstr, (markPcntF workstr).isSome⟩
      else none := by
  rw [cmdlnEntry, fillArgs_eq h (by decide) (by decide) rfl, List.length_nil, Nat.zero_add,
    List.nil_append]
  split <;> rfl

theorem cmdlnEntry_two : cmdlnEntry ["sleep".toList, "5".toList] =
    some ⟨"cmdln".toList, "sleep 5 ".toList, false⟩ :=
  (cmdlnEntry_eq (by decide)).trans (by decide)

/-- A line as those who write such files mean it. -/
inductive Row
  | blank
  | comment (text : Text)
  | test (name cmdline : Text)

def Row.text : Row → Text
  | .blank => []
  | .comment text => '#' :: text
  | .test name cmdline => name ++ ' ' :: cmdline

def Row.entry : Row → Option CollEntry
  | .test name cmdline =>
    some ⟨name, (markPcntF cmdline).getD cmdline, (markPcntF cmdline).isSome⟩
  | _ => none

def Row.Plain : Row → Prop
  | .blank => True
  | .comment text => '\n' ∉ text
  | .test name cmdline =>
    (∃ c cs, name = c :: cs ∧ c ≠ '#') ∧ (∀ c ∈ name, c ≠ '\n' ∧ c ≠ '%' ∧ isDelim c = false) ∧
      '\n' ∉ cmdline

theorem markPcntF_append {pre : Text} (hpre : '%' ∉ pre) (cs : Text) :
    markPcntF (pre ++ cs) = (markPcntF cs).map (pre ++ ·) := by
  induction pre with
  | nil =>
    cases hmark : markPcntF cs <;> simp [hmark]
  | cons c pre ih =>
    obtain ⟨hc, hpre⟩ := not_or.mp (mt List.mem_cons.mpr hpre)
    have hstep : markPcntF (c :: (pre ++ cs)) = (markPcntF (pre ++ cs)).map (c :: ·) := by
      rw [markPcntF]
      rintro _ heq _
      exact hc heq.symm
    rw [List.cons_append, hstep, ih hpre, Option.map_map]
    rfl

theorem collLine_text {r : Row} (h : r.Plain) : collLine r.text = some r.entry := by
  cases r with
  | blank | comment text => rfl
  | test name cmdline =>
    obtain ⟨⟨c, cs, rfl, hhead⟩, hname, -⟩ := h
    have hblank : c ≠ ' ' := by
      rintro rfl
      exact absurd (hname _ List.mem_cons_self).2.2 (by decide)
    have hpct : '%' ∉ c :: cs := fun hmem => (hname _ hmem).2.1 rfl
    have hdelim : ∀ d ∈ c :: cs, (!isDelim d) = true := fun d hd => by simp [(hname d hd).2.2]
    have hmark : markPcntF ((c :: cs) ++ ' ' :: cmdline) =
        (markPcntF cmdline).map ((c :: cs) ++ ' ' :: ·) := by
      have hblank : markPcntF ([' '] ++ cmdline) = (markPcntF cmdline).map ([' '] ++ ·) :=
        markPcntF_append (by decide) cmdline
      rw [markPcntF_append hpct, show ' ' :: cmdline = [' '] ++ cmdline from rfl, hblank,
        Option.map_map]
      rfl
    have hline (cmd : Text) : ((c :: cs) ++ ' ' :: cmd).dropWhile (!isDelim ·) = ' ' :: cmd ∧
        ((c :: cs) ++ ' ' :: cmd).takeWhile (!isDelim ·) = c :: cs := by
      constructor
      · rw [List.dropWhile_append_of_pos hdelim, List.dropWhile_cons_of_neg (by decide)]
      · rw [List.takeWhile_append_of_pos hdelim, List.takeWhile_cons_of_neg (by decide),
          List.append_nil]
    have hget :
        ((markPcntF cmdline).map ((c :: cs) ++ ' ' :: ·)).getD ((c :: cs) ++ ' ' :: cmdline) =
          (c :: cs) ++ ' ' :: (markPcntF cmdline).getD cmdline := by
      cases markPcntF cmdline <;> rfl
    rw [Row.text, collLine]
    · rw [hmark, hget, (hline _).1, (hline _).2, Option.isSome_map]
      rfl
    · exact nofun
    · rintro _ heq
      exact hhead (List.cons.inj heq).1
    · rintro _ heq
      exact hblank (List.cons.inj heq).1

theorem splitOn_unlines {ls : List Text} (h : ∀ l ∈ ls, '\n' ∉ l) :
    (Lines.unlines ls).splitOn '\n' = ls ++ [[]] := by
  have hjoin : Lines.unlines ls = ['\n'].intercalate (ls ++ [[]]) := by
    clear h
    induction ls with
    | nil => rfl
    | cons l ls ih =>
      rw [Lines.unlines, List.flatMap_cons]
      change l ++ ['\n'] ++ Lines.unlines ls = _
      rw [ih]
      cases ls <;> simp [List.intercalate]
  rw [hjoin, List.splitOn_intercalate]
  · intro l hl
    rcases List.mem_append.mp hl with hl | hl
    · exact h l hl
    · rw [List.mem_singleton.mp hl]
      exact List.not_mem_nil
  · simp

theorem Row.Plain.line {r : Row} (h : r.Plain) : '\n' ∉ r.text := by
  cases r with
  | blank => exact List.not_mem_nil
  | comment text =>
    rw [Row.text, List.mem_cons, not_or]
    exact ⟨by decide, h⟩
  | test name cmdline =>
    rw [Row.text, List.mem_append, List.mem_cons, not_or, not_or]
    exact ⟨fun hmem => (h.2.1 _ hmem).1 rfl, by decide, h.2.2⟩

/-- A file of tests, comments and blank lines is read as its tests, in their order. -/
theorem getCollection_rows {rows : List Row} (h : ∀ r ∈ rows, r.Plain) :
    getCollection (Lines.unlines (rows.map Row.text)) [] = some (rows.filterMap Row.entry) := by
  have hlines : ∀ l ∈ rows.map Row.text, '\n' ∉ l := by
    intro l hl
    obtain ⟨r, hr, rfl⟩ := List.mem_map.mp hl
    exact (h r hr).line
  have hread : (rows.map Row.text ++ [[]]).mapM collLine = some (rows.map Row.entry ++ [none]) := by
    clear hlines
    induction rows with
    | nil => rfl
    | cons r rows ih =>
      obtain ⟨hr, hrows⟩ := List.forall_mem_cons.mp h
      rw [List.map_cons, List.cons_append, List.mapM_cons, collLine_text hr]
      simp only [Option.bind_eq_bind, Option.bind_some, ih hrows]
      rfl
  have hlast : (rows.map Row.entry ++ [none]).reduceOption = rows.filterMap Row.entry := by
    rw [List.reduceOption_append, List.reduceOption, List.filterMap_map]
    exact List.append_nil _
  rw [getCollection, splitOn_unlines hlines, hread]
  simp only [Option.bind_eq_bind, Option.bind_some, if_pos, hlast]
  rfl

theorem getCollection_rows_sample :
    getCollection (Lines.unlines ([.comment " io".toList, .blank,
      .test "mem".toList "memtoy -f %f".toList].map Row.text)) [] =
      some ([.comment " io".toList, .blank,
        .test "mem".toList "memtoy -f %f".toList].filterMap Row.entry) := by
  refine getCollection_rows ?_
  simp only [List.forall_mem_cons]
  refine ⟨by rw [Row.Plain]; decide, trivial, ⟨⟨'m', "em".toList, rfl, by decide⟩, ?_, ?_⟩, nofun⟩
  · simp [isDelim]
  · decide

theorem underscore_not_mem (n : Nat) : '_' ∉ Nat.toDigits 10 n := fun h =>
  absurd (Numeral.digits_toDigits (by decide) (by decide) n _ h) (by decide)

theorem pidAndCounter_eq {p : Pid} {m : Nat} (hp : (p : Nat) < 10 ^ 8) (hm : m < 2 ^ 31) :
    pidAndCounter p m = Nat.toDigits 10 p ++ '_' :: Nat.toDigits 10 m := by
  have hpid := (Nat.length_toDigits_le_iff (b := 10) (k := 8) (by decide) (by decide)).mpr hp
  have hcounter := (Nat.length_toDigits_le_iff (b := 10) (k := 10) (by decide) (by decide)).mpr
    (hm.trans (by decide))
  refine List.take_of_length_le ?_
  rw [List.length_append, List.length_cons]
  omega

theorem pidAndCounter_inj {p q : Pid} {m n : Nat} (hp : (p : Nat) < 10 ^ 8)
    (hq : (q : Nat) < 10 ^ 8) (hm : m < 2 ^ 31) (hn : n < 2 ^ 31) :
    pidAndCounter p m = pidAndCounter q n ↔ p = q ∧ m = n := by
  have hinj : (Nat.toDigits 10).Injective := Numeral.toDigits_injective (by decide) (by decide)
  rw [pidAndCounter_eq hp hm, pidAndCounter_eq hq hn,
    List.append_cons_inj_of_notMem (underscore_not_mem _) (underscore_not_mem _),
    hinj.eq_iff, hinj.eq_iff, Fin.val_inj]
  exact ⟨fun h => ⟨h.1, h.2.2⟩, fun h => ⟨h.1, rfl, h.2⟩⟩

theorem expand_plain {arg : Option Text} {text : Text} (h : '%' ∉ text) (cs : Text) :
    expand arg (text ++ cs) = (expand arg cs).map (text ++ ·) := by
  induction text with
  | nil =>
    cases hcs : expand arg cs <;> simp [hcs]
  | cons c text ih =>
    obtain ⟨hc, htext⟩ := not_or.mp (mt List.mem_cons.mpr h)
    have hstep : expand arg (c :: (text ++ cs)) = (expand arg (text ++ cs)).map (c :: ·) := by
      rw [expand]
      all_goals
        intros
        exact hc (Eq.symm ‹c = '%'›)
    rw [List.cons_append, hstep, ih htext, Option.map_map]
    rfl

section Unique

variable {name pre post : Text} {colle : CollEntry}

theorem cmdline_of_read (hrow : (Row.test name (pre ++ '%' :: 'f' :: post)).Plain)
    (hpre : '%' ∉ pre)
    (hread : collLine (Row.test name (pre ++ '%' :: 'f' :: post)).text = some (some colle)) :
    colle = ⟨name, pre ++ '%' :: 's' :: post, true⟩ := by
  have hmark : markPcntF (pre ++ '%' :: 'f' :: post) = some (pre ++ '%' :: 's' :: post) :=
    markPcntF_append hpre _
  rw [collLine_text hrow, Row.entry, hmark] at hread
  exact (Option.some.inj (Option.some.inj hread)).symm

theorem substPcntF_row (hrow : (Row.test name (pre ++ '%' :: 'f' :: post)).Plain)
    (hpct : '%' ∉ pre ∧ '%' ∉ post)
    (hread : collLine (Row.test name (pre ++ '%' :: 'f' :: post)).text = some (some colle))
    (hlength : pre.length + post.length ≤ 1004) (p : Pid) (m : Nat) :
    substPcntF colle p m = some (pre ++ (pidAndCounter p m ++ post)) := by
  have hpost : expand none post = some post := by
    have hend : expand none (post ++ []) = (expand none []).map (post ++ ·) :=
      expand_plain hpct.2 []
    rwa [List.append_nil, expand, Option.map_some, List.append_nil] at hend
  have hcut : (pre ++ (pidAndCounter p m ++ post)).length ≤ 1023 := by
    have hle : (pidAndCounter p m).length ≤ 19 := List.length_take_le ..
    rw [List.length_append, List.length_append]
    omega
  rw [substPcntF, cmdline_of_read hrow hpct.1 hread, if_pos rfl, expand_plain hpct.1, expand,
    hpost, Option.bind_some, Option.map_some, Option.map_some, Option.map_some,
    List.take_of_length_le hcut]

theorem substPcntF_inj (hrow : (Row.test name (pre ++ '%' :: 'f' :: post)).Plain)
    (hpct : '%' ∉ pre ∧ '%' ∉ post)
    (hread : collLine (Row.test name (pre ++ '%' :: 'f' :: post)).text = some (some colle))
    (hlength : pre.length + post.length ≤ 1004) {p q : Pid} {m n : Nat}
    (hp : (p : Nat) < 10 ^ 8) (hq : (q : Nat) < 10 ^ 8) (hm : m < 2 ^ 31) (hn : n < 2 ^ 31) :
    substPcntF colle p m = substPcntF colle q n ↔ p = q ∧ m = n := by
  rw [substPcntF_row hrow hpct hread hlength, substPcntF_row hrow hpct hread hlength,
    Option.some_inj, List.append_cancel_left_eq, List.append_cancel_right_eq,
    pidAndCounter_inj hp hq hm hn]

/-- A test with a `%f` gets the process and the counter in its place, so that no two runs of it
are given the same command line. -/
theorem substPcntF_eq_iff (hrow : (Row.test name (pre ++ '%' :: 'f' :: post)).Plain)
    (hpct : '%' ∉ pre ∧ '%' ∉ post)
    (hread : collLine (Row.test name (pre ++ '%' :: 'f' :: post)).text = some (some colle))
    (hlength : pre.length + post.length ≤ 1004) {p q : Pid} {m n : Nat}
    (hp : (p : Nat) < 10 ^ 8) (hq : (q : Nat) < 10 ^ 8) (hm : m < 2 ^ 31) (hn : n < 2 ^ 31) :
    substPcntF colle p m =
        some (pre ++ ((Nat.toDigits 10 p ++ '_' :: Nat.toDigits 10 m) ++ post)) ∧
      (substPcntF colle p m = substPcntF colle q n ↔ p = q ∧ m = n) := by
  refine ⟨?_, substPcntF_inj hrow hpct hread hlength hp hq hm hn⟩
  rw [substPcntF_row hrow hpct hread hlength, pidAndCounter_eq hp hm]

end Unique

theorem substPcntF_eq_iff_sample :
    substPcntF ⟨"mem".toList, "memtoy -f /tmp/%s.out".toList, true⟩ 4711 1 =
        some ("memtoy -f /tmp/".toList ++
          ((Nat.toDigits 10 (4711 : Pid) ++ '_' :: Nat.toDigits 10 1) ++ ".out".toList)) ∧
      (substPcntF ⟨"mem".toList, "memtoy -f /tmp/%s.out".toList, true⟩ 4711 1 =
          substPcntF ⟨"mem".toList, "memtoy -f /tmp/%s.out".toList, true⟩ 4711 2 ↔
        (4711 : Pid) = 4711 ∧ 1 = 2) :=
  @substPcntF_eq_iff "mem".toList "memtoy -f /tmp/".toList ".out".toList _
    ⟨⟨'m', "em".toList, rfl, by decide⟩, by simp [isDelim], by decide⟩ (by decide) rfl (by decide)
    4711 4711 1 2 (by decide) (by decide) (by decide) (by decide)

end MceTest.Pan

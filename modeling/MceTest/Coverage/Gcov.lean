import MceTest.Coverage.Merge

/-! `gcov_merge.py`: when the merged coverage is that of the files together. -/

namespace MceTest.Coverage

open MceTest.Library.Lines MceTest.Library.Python MceTest.Library.Numeral

structure GCovLine where
  sep : Nat
  count : Int
  remain : List Char

def GCovLine.parse (l : List Char) : Option GCovLine :=
  match find ':' l with
  | none => none
  | some sep =>
    if sep = 0 then none
    else
      let remain := l.drop sep
      let scnt := l.take sep
      let count :=
        if scnt.getLast? = some '-' then some (-1)
        else if scnt.getLast? = some '#' then some 0
        else int? scnt
      count.map fun count => { sep, count, remain }

def GCovLine.merge (self gcl : GCovLine) : GCovLine := { self with count := self.count + gcl.count }

def GCovLine.write (self : GCovLine) : List Char :=
  (if self.count < 0 then rjust self.sep ['-']
  else if self.count = 0 then rjust self.sep "#####".toList
  else rjust self.sep (Nat.toDigits 10 self.count.toNat)) ++ self.remain

def gcov : Script GCovLine where
  parse := GCovLine.parse
  merge := GCovLine.merge
  write := GCovLine.write

def gcovMerge (fns : List (List Char)) : Option (List Char) := gcov.run fns

/-- What the count of a line says: that the line has no code, or how often it has run. -/
inductive Mark : List Char → Option Nat → Prop
  | noCode {pad : List Char} (hpad : ∀ c ∈ pad, isSpace c = true) : Mark (pad ++ ['-']) none
  | never {pad : List Char} (hpad : ∀ c ∈ pad, isSpace c = true) (k : Nat) :
    Mark (pad ++ List.replicate (k + 1) '#') (some 0)
  | times {pad ds : List Char} (hpad : ∀ c ∈ pad, isSpace c = true) (hne : ds ≠ [])
    (hds : Digits 10 ds) : Mark (pad ++ ds) (some (value 10 ds))

def Marks (f : List Char) (ms : List (Option Nat)) : Prop :=
  List.Forall₂ (fun l m => ∃ text rest, l = text ++ ':' :: rest ∧ Mark text m) (lines f) ms

def markText : Option Nat → List Char
  | none => ['-']
  | some 0 => "#####".toList
  | some (n + 1) => Nat.toDigits 10 (n + 1)

def Written (f : List Char) (ms : List (Option Nat)) : Prop :=
  List.Forall₂ (fun l m => ∃ width rest, l = rjust width (markText m) ++ ':' :: rest) (lines f) ms

def code : Option Nat → Int
  | none => -1
  | some n => n

def together (column : List (Option Nat)) : Option Nat :=
  if column.all (· = none) then none else some (column.map (·.getD 0)).sum

def decode (z : Int) : Option Nat := if z < 0 then none else some z.toNat

theorem decode_code (m : Option Nat) : decode (code m) = m := by
  cases m with
  | none => rfl
  | some n => exact if_neg (Int.not_lt.mpr (Int.natCast_nonneg n))

theorem write_eq (g : GCovLine) :
    g.write = rjust g.sep (markText (decode g.count)) ++ g.remain := by
  rw [GCovLine.write, decode]
  split
  · rfl
  · rename_i hneg
    split
    · rename_i hzero
      rw [hzero]
      rfl
    · rename_i hne
      obtain ⟨n, hn⟩ : ∃ n, g.count.toNat = n + 1 := ⟨g.count.toNat - 1, by omega⟩
      rw [hn]
      rfl

theorem not_mem_padded {pad : List Char} (hpad : ∀ c ∈ pad, isSpace c = true) {t : List Char}
    (ht : ':' ∉ t) : ':' ∉ pad ++ t := by
  intro h
  rcases List.mem_append.mp h with h | h
  · exact absurd (hpad ':' h) (by decide)
  · exact ht h

theorem Mark.parse {text : List Char} {m : Option Nat} (h : Mark text m) (rest : List Char) :
    GCovLine.parse (text ++ ':' :: rest) = some ⟨text.length, code m, ':' :: rest⟩ := by
  have hread (hcolon : ':' ∉ text) (hne : text ≠ []) : GCovLine.parse (text ++ ':' :: rest) =
      (if text.getLast? = some '-' then some (-1)
        else if text.getLast? = some '#' then some 0
        else int? text).map fun count => ⟨text.length, count, ':' :: rest⟩ := by
    rw [GCovLine.parse, find_append hcolon]
    dsimp only
    rw [if_neg (mt List.length_eq_zero_iff.mp hne), List.take_left, List.drop_left]
  cases h with
  | noCode hpad =>
    rw [hread (not_mem_padded hpad (by decide)) (List.append_ne_nil_of_right_ne_nil _ (by decide)),
      List.getLast?_concat]
    rfl
  | never hpad k =>
    have hcolon : ':' ∉ List.replicate (k + 1) '#' := fun h =>
      absurd (List.eq_of_mem_replicate h) (by decide)
    rw [hread (not_mem_padded hpad hcolon) (List.append_ne_nil_of_right_ne_nil _ (by simp)),
      List.replicate_succ', ← List.append_assoc, List.getLast?_concat]
    rfl
  | @times pad ds hpad hne hds =>
    have hcolon : ':' ∉ ds := fun h => absurd (hds ':' h) (by decide)
    have hlast (c : Char) (hc : 10 ≤ digitVal c) : (pad ++ ds).getLast? ≠ some c := by
      rw [List.getLast?_append_of_ne_nil _ hne]
      intro h
      exact absurd (hds c (List.mem_of_getLast? h)) (Nat.not_lt.mpr hc)
    rw [hread (not_mem_padded hpad hcolon) (List.append_ne_nil_of_right_ne_nil _ hne),
      if_neg (hlast '-' (by decide)), if_neg (hlast '#' (by decide)), int?_padded hpad hne hds]
    rfl

theorem Mark.written (m : Option Nat) (width : Nat) : Mark (rjust width (markText m)) m := by
  obtain ⟨pad, heq, hpad⟩ := rjust_eq width (markText m)
  have hspace : ∀ c ∈ pad, isSpace c = true := fun c hc => by
    rw [hpad c hc]
    rfl
  rw [heq]
  match m with
  | none => exact .noCode hspace
  | some 0 => exact .never hspace 4
  | some (n + 1) =>
    have htimes := Mark.times hspace Nat.toDigits_ne_nil
      (digits_toDigits (by decide) (by decide) (n + 1))
    rwa [value_toDigits (by decide) (by decide)] at htimes

theorem Written.marks {f : List Char} {ms : List (Option Nat)} (h : Written f ms) : Marks f ms :=
  h.imp fun _ m ⟨width, rest, heq⟩ => ⟨_, rest, heq, Mark.written m width⟩

theorem Marks.parse {f : List Char} {ms : List (Option Nat)} (h : Marks f ms) :
    ∃ ls, gcov.parseFile f = some ls ∧ ls.map GCovLine.count = ms.map code ∧
      List.Forall₂ (fun l r => ∃ a r', l = a ++ r ∧ r = ':' :: r') (lines f)
        (ls.map GCovLine.remain) := by
  rw [Marks] at h
  rw [Script.parseFile]
  generalize lines f = texts at h
  induction h with
  | nil => exact ⟨[], rfl, rfl, .nil⟩
  | cons hline _ ih =>
    obtain ⟨text, rest, rfl, hmark⟩ := hline
    obtain ⟨ls, hls, hcount, hremain⟩ := ih
    refine ⟨⟨text.length, _, ':' :: rest⟩ :: ls, ?_, congrArg (_ :: ·) hcount,
      .cons ⟨text, rest, rfl, rfl⟩ hremain⟩
    have hparse : gcov.parse (text ++ ':' :: rest) = _ := hmark.parse rest
    rw [List.mapM_cons, hparse, hls]
    rfl

theorem not_newline_written (width : Nat) (m : Option Nat) : '\n' ∉ rjust width (markText m) := by
  obtain ⟨pad, heq, hpad⟩ := rjust_eq width (markText m)
  rw [heq]
  intro h
  rcases List.mem_append.mp h with h | h
  · exact absurd (hpad _ h) (by decide)
  · match m with
    | none => exact absurd h (by decide)
    | some 0 => exact absurd h (by decide)
    | some (n + 1) => exact absurd (digits_toDigits (by decide) (by decide) (n + 1) _ h) (by decide)

theorem gcov_additive :
    gcov.Additive GCovLine.count (fun g => (g.sep, g.remain)) :=
  ⟨fun _ _ => rfl, fun _ _ => rfl⟩

def column (marks : List Char → List (Option Nat)) (fns : List (List Char)) (k : Nat) :
    List (Option Nat) :=
  fns.map fun f => (marks f)[k]?.join

variable {marks : List Char → List (Option Nat)} {fns : List (List Char)} {n : Nat}

theorem columnSum_code (hlen : ∀ f ∈ fns, (marks f).length = n) {k : Nat} (hk : k < n) :
    Script.columnSum (fun f => (marks f).map code) fns k = ((column marks fns k).map code).sum := by
  rw [Script.columnSum, column, List.map_map]
  refine congrArg List.sum (List.map_congr_left fun f hf => ?_)
  have hkf : k < (marks f).length := by
    rw [hlen f hf]
    exact hk
  simp [List.getElem?_eq_getElem hkf]

theorem gcovMerge_written (hne : fns ≠ []) (hmarks : ∀ f ∈ fns, Marks f (marks f))
    (hlen : ∀ f ∈ fns, (marks f).length = n) :
    ∃ out, gcovMerge fns = some out ∧ Written out
      ((List.range n).map fun k => decode ((column marks fns k).map code).sum) := by
  cases fns with
  | nil => exact absurd rfl hne
  | cons fn fns =>
    have hparse : ∀ f ∈ fn :: fns, ∃ ls, gcov.parseFile f = some ls ∧
        ls.map GCovLine.count = (marks f).map code := fun f hf => by
      obtain ⟨ls, hls, hcount, -⟩ := (hmarks f hf).parse
      exact ⟨ls, hls, hcount⟩
    obtain ⟨ls, ms, hls, hrun, hframe, hcount⟩ := Script.run_sum gcov_additive hparse
      (fun f hf => (List.length_map ..).trans (hlen f hf))
    refine ⟨_, hrun, ?_⟩
    obtain ⟨ls', hls', -, hremain⟩ := (hmarks fn List.mem_cons_self).parse
    obtain rfl : ls = ls' := Option.some.inj (hls.symm.trans hls')
    have hkept : ms.map GCovLine.remain = ls.map GCovLine.remain := by
      have := congrArg (List.map Prod.snd) hframe
      rwa [List.map_map, List.map_map] at this
    rw [← hkept] at hremain
    have hlines : lines (ms.flatMap gcov.write) = ms.map gcov.write := by
      refine Script.lines_written (hremain.imp fun l r hl => ?_) write_eq
        (fun g => not_newline_written g.sep (decode g.count))
      obtain ⟨a, r', rfl, rfl⟩ := hl
      exact ⟨a, rfl, List.cons_ne_nil ':' r'⟩
    have hsums : (List.range n).map (fun k => decode ((column marks (fn :: fns) k).map code).sum) =
        ms.map fun g => decode g.count := by
      have hdecode := congrArg (List.map decode) hcount
      rw [List.map_map, List.map_map] at hdecode
      refine Eq.trans (List.map_congr_left fun k hk => ?_) hdecode.symm
      exact congrArg decode (columnSum_code hlen (List.mem_range.mp hk)).symm
    rw [Written, hlines, hsums,
      List.forall₂_map_left_iff, List.forall₂_map_right_iff, List.forall₂_same]
    intro g hg
    obtain ⟨l, a, r, -, hr⟩ := related (List.forall₂_map_right_iff.mp hremain) g hg
    refine ⟨g.sep, r, (write_eq g).trans ?_⟩
    rw [hr]

theorem sum_code (ms : List (Option Nat)) :
    (ms.map code).sum + ms.count none = ((ms.map (·.getD 0)).sum : Nat) := by
  induction ms with
  | nil => rfl
  | cons m ms ih =>
    rw [List.map_cons, List.map_cons, List.sum_cons, List.sum_cons]
    cases m with
    | none =>
      rw [List.count_cons_self]
      simp only [code, Option.getD_none]
      omega
    | some n =>
      rw [List.count_cons_of_ne (Option.some_ne_none n)]
      simp only [code, Option.getD_some]
      omega

theorem together_eq_none {ms : List (Option Nat)} :
    together ms = none ↔ ∀ m ∈ ms, m = none := by
  rw [together]
  split
  · rename_i hall
    exact iff_of_true rfl (by simpa using hall)
  · rename_i hsome
    exact iff_of_false (Option.some_ne_none _) (by simpa using hsome)

/-- The sum of the codes tells the marks together if there is code in all files or in none. -/
theorem decode_sum_iff {ms : List (Option Nat)} (hne : ms ≠ []) :
    decode (ms.map code).sum = together ms ↔ (∀ m ∈ ms, m = none) ∨ ∀ m ∈ ms, m ≠ none := by
  have hsum := sum_code ms
  by_cases hall : ∀ m ∈ ms, m = none
  · have hcount : ms.count none = ms.length := List.count_eq_length.mpr fun m hm => (hall m hm).symm
    have hzero : (ms.map (·.getD 0)).sum = 0 := by
      refine List.sum_eq_zero fun n hn => ?_
      obtain ⟨m, hm, rfl⟩ := List.mem_map.mp hn
      rw [hall m hm]
      rfl
    have hpos : 0 < ms.length := List.length_pos_iff.mpr hne
    rw [together_eq_none.mpr hall, decode, if_pos (by omega)]
    exact iff_of_true rfl (.inl hall)
  · have htogether : together ms = some (ms.map (·.getD 0)).sum := by
      rw [together, if_neg]
      simpa using hall
    rw [htogether, or_iff_right hall]
    have hcount : (∀ m ∈ ms, m ≠ none) ↔ ms.count none = 0 := by
      rw [List.count_eq_zero]
      exact ⟨fun h hmem => h none hmem rfl, fun h m hm hnone => h (hnone ▸ hm)⟩
    rw [hcount, decode]
    split
    · rename_i hneg
      refine iff_of_false (Option.some_ne_none _).symm ?_
      omega
    · rw [Option.some_inj]
      omega

theorem code_injective : Function.Injective code := by
  intro m m' h
  rw [← decode_code m, h, decode_code]

/-- The merged file says what the files say together, and is read so. -/
def Faithful (marks : List Char → List (Option Nat)) (fns : List (List Char)) (n : Nat) : Prop :=
  ∃ out, gcovMerge fns = some out ∧
    Written out ((List.range n).map fun k => together (column marks fns k)) ∧
    ∃ ls, gcov.parseFile out = some ls ∧
      ls.map GCovLine.count = (List.range n).map fun k => code (together (column marks fns k))

/-- `gcov_merge` is faithful exactly if each line has code in all files or in none. -/
theorem gcovMerge_faithful_iff (hne : fns ≠ []) (hmarks : ∀ f ∈ fns, Marks f (marks f))
    (hlen : ∀ f ∈ fns, (marks f).length = n) :
    Faithful marks fns n ↔
      ∀ k < n, (∀ f ∈ fns, (marks f)[k]? = some none) ∨ ∀ f ∈ fns, (marks f)[k]? ≠ some none := by
  have huniform (k : Nat) (hk : k < n) :
      decode ((column marks fns k).map code).sum = together (column marks fns k) ↔
        (∀ f ∈ fns, (marks f)[k]? = some none) ∨ ∀ f ∈ fns, (marks f)[k]? ≠ some none := by
    have hmark (f : List Char) (hf : f ∈ fns) :
        (marks f)[k]?.join = none ↔ (marks f)[k]? = some none := by
      have hkf : k < (marks f).length := by
        rw [hlen f hf]
        exact hk
      rw [List.getElem?_eq_getElem hkf, Option.join_some, Option.some_inj]
    rw [decode_sum_iff (by simpa [column] using hne), column, List.forall_mem_map,
      List.forall_mem_map]
    exact or_congr (forall₂_congr hmark) (forall₂_congr fun f hf => not_congr (hmark f hf))
  obtain ⟨out, hout, hwritten⟩ := gcovMerge_written hne hmarks hlen
  obtain ⟨ls, hls, hcount, -⟩ := hwritten.marks.parse
  constructor
  · rintro ⟨out', hout', -, ls', hls', hcount'⟩ k hk
    obtain rfl := Option.some.inj (hout.symm.trans hout')
    obtain rfl := Option.some.inj (hls.symm.trans hls')
    rw [← huniform k hk]
    have heq := hcount.symm.trans hcount'
    rw [List.map_map] at heq
    exact code_injective (List.map_inj_left.mp heq k (List.mem_range.mpr hk))
  · intro h
    have heq : ((List.range n).map fun k => decode ((column marks fns k).map code).sum) =
        (List.range n).map fun k => together (column marks fns k) :=
      List.map_congr_left fun k hk =>
        (huniform k (List.mem_range.mp hk)).mpr (h k (List.mem_range.mp hk))
    rw [heq] at hwritten hcount
    rw [List.map_map] at hcount
    exact ⟨out, hout, hwritten, ls, hls, hcount⟩

/-- A declaration that never has code, and a call that the second test runs three times. -/
def firstTest : List Char := "    -:1:int i;\n#####:2:f();\n".toList

def secondTest : List Char := "    -:1:int i;\n    3:2:f();\n".toList

def testMarks (f : List Char) : List (Option Nat) := [none, some (if f = firstTest then 0 else 3)]

theorem gcovMerge_faithful_tests :
    ([firstTest, secondTest] ≠ [] ∧
      (∀ f ∈ [firstTest, secondTest], Marks f (testMarks f)) ∧
      ∀ f ∈ [firstTest, secondTest], (testMarks f).length = 2) ∧
    Faithful testMarks [firstTest, secondTest] 2 := by
  have hpad (c : Char) (hc : c ∈ List.replicate 4 ' ') : isSpace c = true := by
    rw [List.eq_of_mem_replicate hc]
    rfl
  have hnil (c : Char) (hc : c ∈ []) : isSpace c = true := absurd hc List.not_mem_nil
  have hfirst : Marks firstTest (testMarks firstTest) := by
    have hlines : lines firstTest = ["    -:1:int i;\n".toList, "#####:2:f();\n".toList] := by
      decide +kernel
    rw [Marks, hlines]
    exact .cons ⟨_, "1:int i;\n".toList, by decide, .noCode hpad⟩
      (.cons ⟨_, "2:f();\n".toList, by decide, .never hnil 4⟩ .nil)
  have hsecond : Marks secondTest (testMarks secondTest) := by
    have hlines : lines secondTest = ["    -:1:int i;\n".toList, "    3:2:f();\n".toList] := by
      decide +kernel
    have hthree : Mark (List.replicate 4 ' ' ++ ['3']) (some 3) :=
      .times hpad (List.cons_ne_nil _ _) (by decide)
    rw [Marks, hlines]
    exact .cons ⟨_, "1:int i;\n".toList, by decide, .noCode hpad⟩
      (.cons ⟨_, "2:f();\n".toList, by decide, hthree⟩ .nil)
  have hmarks : ∀ f ∈ [firstTest, secondTest], Marks f (testMarks f) :=
    List.forall_mem_cons.mpr ⟨hfirst, List.forall_mem_singleton.mpr hsecond⟩
  have hlen : ∀ f ∈ [firstTest, secondTest], (testMarks f).length = 2 := fun _ _ => rfl
  refine ⟨⟨List.cons_ne_nil _ _, hmarks, hlen⟩,
    (gcovMerge_faithful_iff (List.cons_ne_nil _ _) hmarks hlen).mpr fun k hk => ?_⟩
  obtain rfl | rfl : k = 0 ∨ k = 1 := by omega
  · exact .inl fun _ _ => rfl
  · exact .inr fun _ _ h => absurd h (by simp [testMarks])

/-- Five runs in one file, and no code in the other: the merged file tells of four runs. -/
theorem gcovMerge_loses_run :
    Marks "-:1:x\n".toList [none] ∧ Marks "5:1:x\n".toList [some 5] ∧
      gcovMerge ["-:1:x\n".toList, "5:1:x\n".toList] = some "4:1:x\n".toList ∧
      ¬ Faithful (fun f => if f = "-:1:x\n".toList then [none] else [some 5])
        ["-:1:x\n".toList, "5:1:x\n".toList] 1 := by
  have hnil (c : Char) (hc : c ∈ []) : isSpace c = true := absurd hc List.not_mem_nil
  have hfive : Mark ([] ++ ['5']) (some 5) := .times hnil (List.cons_ne_nil _ _) (by decide)
  have hmerge : gcovMerge ["-:1:x\n".toList, "5:1:x\n".toList] = some "4:1:x\n".toList := by
    decide +kernel
  refine ⟨?_, ?_, hmerge, ?_⟩
  · have hlines : lines "-:1:x\n".toList = ["-:1:x\n".toList] := by decide +kernel
    rw [Marks, hlines]
    exact .cons ⟨_, "1:x\n".toList, by decide, .noCode hnil⟩ .nil
  · have hlines : lines "5:1:x\n".toList = ["5:1:x\n".toList] := by decide +kernel
    rw [Marks, hlines]
    exact .cons ⟨_, "1:x\n".toList, by decide, hfive⟩ .nil
  · rintro ⟨out, hout, -, ls, hls, hcount⟩
    obtain rfl := Option.some.inj (hmerge.symm.trans hout)
    have hfour : (gcov.parseFile "4:1:x\n".toList).map (·.map GCovLine.count) = some [4] := by
      decide +kernel
    rw [hls, Option.map_some, hcount] at hfour
    exact absurd hfour (by decide +kernel)

end MceTest.Coverage

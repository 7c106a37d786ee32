import MceTest.Runmcetest.Model

/-! The totals of the summary against the scripts that have been run. -/

namespace MceTest.Runmcetest

open MceTest.Library MceTest.Library.Shell

def State.passes (s : State) : Nat := (s.ran.filter Run.passed).length

def State.failures (s : State) : Nat := (s.ran.filter fun run => !run.passed).length

/-- The totals are those of the scripts that have been run. -/
structure Exact (s : State) (summary : Summary) : Prop where
  tests : summary.totalTests = s.ran.length
  passes : summary.totalPasses = s.passes
  failures : summary.totalFailures = s.failures
  sum : summary.totalPasses + summary.totalFailures = summary.totalTests

def runs (sh : Behaviour) (caselist : List Char) (runallTimes : Nat) : List Word :=
  (List.replicate runallTimes ((expand sh caselist).filter (isCase sh))).flatten

def nameWords (sh : Behaviour) (caseid : Word) : List Word := expand sh (caseName sh caseid)

/-- What `printf` puts in front of the sign. -/
def front : List Word → List Char
  | [] => []
  | [a] => pad 36 a
  | a :: b :: args => pad 36 a ++ pad 10 b ++ '\n' :: front args

def sign (ok : Bool) : Word := if ok then passSign else failSign

/-- The name has no sign in it that would be counted for an outcome: not the other one, and not
the same on a line of its own. -/
def Plain (words : List Word) (ok : Bool) : Prop :=
  (∀ line ∈ (front words).splitOn '\n', ¬ sign (!ok) <:+: line) ∧
    ∀ line ∈ ((front words).splitOn '\n').dropLast, ¬ sign ok <:+: line

instance (words : List Word) (ok : Bool) : Decidable (Plain words ok) :=
  inferInstanceAs (Decidable (_ ∧ _))

theorem sign_ne_nil (ok : Bool) : sign ok ≠ [] := by
  cases ok <;> decide

theorem blank_not_mem_sign (ok : Bool) : ' ' ∉ sign ok := by
  cases ok <;> decide

/-- A name that the shell takes as it is must not contain the other sign. -/
theorem plain_name {name : Word} (hname : '\n' ∉ name) (ok : Bool) :
    Plain [name] ok ↔ ¬ sign (!ok) <:+: name := by
  have hline : (front [name]).splitOn '\n' = [pad 36 name] := by
    refine List.splitOn_eq_singleton fun h => ?_
    rcases List.mem_append.mp h with h | h
    · exact hname h
    · exact absurd (List.eq_of_mem_replicate h) (by decide)
  rw [Plain, hline, pad, List.forall_mem_singleton,
    Grep.infix_replicate (sign_ne_nil _) (blank_not_mem_sign _)]
  exact and_iff_left nofun

theorem printf_concat (words : List Word) (w : Word) :
    ∃ n, printf (words ++ [w]) = front words ++ w ++ List.replicate n ' ' ++ ['\n'] := by
  induction words using front.induct with
  | case1 => exact ⟨36 - w.length + 10, by simp [printf, front, pad, List.replicate_add]⟩
  | case2 a =>
    exact ⟨10 - w.length, by simp [printf, front, pad]⟩
  | case3 a b args ih =>
    obtain ⟨n, h⟩ := ih
    refine ⟨n, ?_⟩
    rw [List.cons_append, List.cons_append, printf, h]
    simp [front]

theorem infix_row (ok : Bool) (l : Word) (n : Nat) :
    sign (!ok) <:+: l ++ (sign ok ++ List.replicate n ' ') ↔ sign (!ok) <:+: l := by
  rw [← List.append_assoc, Grep.infix_replicate (sign_ne_nil _) (blank_not_mem_sign _)]
  cases ok with
  | true =>
    change failSign <:+: l ++ 'P' :: "ASS".toList ↔ _
    rw [Grep.infix_split (by decide) (by decide)]
    exact or_iff_left (by decide)
  | false =>
    change passSign <:+: l ++ 'F' :: "AIL".toList ↔ _
    rw [Grep.infix_split (by decide) (by decide)]
    exact or_iff_left (by decide)

theorem row_counts (words : List Word) (ok : Bool) :
    1 ≤ Grep.count (sign ok) (printf (words ++ [sign ok])) ∧
      (Plain words ok ↔ Grep.count (sign ok) (printf (words ++ [sign ok])) = 1 ∧
        Grep.count (sign (!ok)) (printf (words ++ [sign ok])) = 0) := by
  obtain ⟨n, hrow⟩ := printf_concat words (sign ok)
  obtain ⟨ls, l, hsplit⟩ := Grep.exists_splitOn_append (front words)
  have htail : '\n' ∉ sign ok ++ List.replicate n ' ' := by
    rw [List.mem_append, not_or]
    exact ⟨by cases ok <;> decide, fun h => absurd (List.eq_of_mem_replicate h) (by decide)⟩
  have hfront := hsplit [] List.not_mem_nil
  rw [List.append_nil, List.append_nil] at hfront
  have hcount (w : Word) (hw : w ≠ []) : Grep.count w (printf (words ++ [sign ok])) =
      (ls.filter fun line => w <:+: line).length +
        if w <:+: l ++ (sign ok ++ List.replicate n ' ') then 1 else 0 := by
    rw [hrow, List.append_assoc (front words), Grep.count_newline, Grep.count_nil hw,
      Nat.add_zero, Grep.count, hsplit _ htail, List.filter_append, List.length_append,
      List.filter_singleton]
    split <;> simp_all
  have hsign : sign ok <:+: l ++ (sign ok ++ List.replicate n ' ') :=
    ⟨l, List.replicate n ' ', List.append_assoc ..⟩
  rw [hcount _ (sign_ne_nil ok), hcount _ (sign_ne_nil (!ok)), if_pos hsign, Plain, hfront,
    List.dropLast_concat]
  refine ⟨Nat.le_add_left .., ?_⟩
  simp only [infix_row, List.forall_mem_append, List.forall_mem_singleton]
  rw [Nat.add_eq_right, Nat.add_eq_zero_iff, List.length_eq_zero_iff, List.length_eq_zero_iff,
    List.filter_eq_nil_iff, List.filter_eq_nil_iff]
  simp only [decide_eq_true_eq, ite_eq_right_iff, one_ne_zero, imp_false]
  exact and_comm

variable {sh : Behaviour} {passed : Nat → Bool} {caselist : List Char}

def row (sh : Behaviour) (passed : Nat → Bool) (p : Word × Nat) : List Char :=
  printf (nameWords sh p.1 ++ [sign (passed p.2)])

theorem foldl_runCase (cases : List Word) (s : State) :
    cases.foldl (runCase sh passed) s =
      { sumFile := s.sumFile ++ ((cases.zipIdx s.totalCount).map (row sh passed)).flatten
        totalCount := s.totalCount + cases.length
        ran := s.ran ++ (cases.zipIdx s.totalCount).map fun p =>
          ⟨caseScript sh p.1, passed p.2⟩ } := by
  induction cases generalizing s with
  | nil => simp
  | cons caseid cases ih =>
    rw [List.foldl_cons, ih]
    simp only [runCase, List.zipIdx_cons, List.map_cons, List.flatten_cons, List.length_cons,
      List.append_assoc, List.singleton_append]
    rw [Nat.add_assoc, Nat.add_comm 1]
    rfl

theorem foldl_runTest (runallTimes : Nat) (s : State) :
    (List.range runallTimes).foldl (fun s _ => runTest sh passed caselist s) s =
      (runs sh caselist runallTimes).foldl (runCase sh passed) s := by
  rw [runs, List.foldl_flatten]
  have hreplicate : List.replicate runallTimes ((expand sh caselist).filter (isCase sh)) =
      (List.range runallTimes).map fun _ => (expand sh caselist).filter (isCase sh) := by
    rw [List.map_const', List.length_range]
  rw [hreplicate, List.foldl_map]
  simp only [List.foldl_filter]
  rfl

theorem header_complete (date : Date) : Grep.Complete (header date) := by
  refine Grep.Complete.flatten fun t ht => ?_
  obtain ⟨line, -, rfl⟩ := List.mem_map.mp ht
  exact Or.inr ⟨line, rfl⟩

theorem not_mem_headerLines (date : Date) : ∀ line ∈ headerLines date, 'A' ∉ line := by
  have hdate : 'A' ∉ date.val := fun h => by
    have := List.all_eq_true.mp date.property 'A' h
    exact absurd this (by decide)
  simp only [headerLines, List.forall_mem_cons]
  refine ⟨fun h => ?_, by decide, by decide, by decide, nofun⟩
  exact (List.mem_append.mp h).elim (absurd · (by decide)) hdate

theorem count_header (date : Date) (ok : Bool) : Grep.count (sign ok) (header date) = 0 := by
  have hsign : 'A' ∈ sign ok := by cases ok <;> decide
  refine Grep.count_eq_zero hsign fun h => ?_
  obtain ⟨t, ht, hA⟩ := List.mem_flatten.mp h
  obtain ⟨line, hline, rfl⟩ := List.mem_map.mp ht
  rcases List.mem_append.mp hA with hA | hA
  · exact not_mem_headerLines date line hline hA
  · exact absurd hA (by decide)

theorem row_complete (p : Word × Nat) : Grep.Complete (row sh passed p) := by
  obtain ⟨n, h⟩ := printf_concat (nameWords sh p.1) (sign (passed p.2))
  exact Or.inr ⟨_, h⟩

theorem count_sumFile (date : Date) (cases : List (Word × Nat)) (ok : Bool) :
    Grep.count (sign ok) (header date ++ (cases.map (row sh passed)).flatten) =
      ((cases.map (row sh passed)).map (Grep.count (sign ok))).sum := by
  have hrows : ∀ t ∈ cases.map (row sh passed), Grep.Complete t := by
    intro t ht
    obtain ⟨p, -, rfl⟩ := List.mem_map.mp ht
    exact row_complete p
  have hflatten := Grep.count_flatten (sign_ne_nil ok) hrows
  rw [Grep.count_append (sign_ne_nil ok) (header_complete date), count_header]
  exact (Nat.zero_add _).trans hflatten

theorem total_iff (sh : Behaviour) (passed : Nat → Bool) (date : Date)
    (cases : List (Word × Nat)) (ok : Bool) :
    Grep.count (sign ok) (header date ++ (cases.map (row sh passed)).flatten) =
        (cases.filter fun p => passed p.2 == ok).length ↔
      ∀ p ∈ cases, Grep.count (sign ok) (row sh passed p) = if passed p.2 == ok then 1 else 0 := by
  have hle (p : Word × Nat) : (if passed p.2 == ok then 1 else 0) ≤
      Grep.count (sign ok) (row sh passed p) := by
    split
    · rename_i hok
      rw [row, beq_iff_eq.mp hok]
      exact (row_counts _ ok).1
    · exact Nat.zero_le _
  rw [count_sumFile, Grep.length_filter_eq_sum]
  simp only [List.map_map, Function.comp_def]
  exact Grep.sum_eq_sum_iff fun p _ => hle p

theorem row_iff (p : Word × Nat) :
    (∀ ok, Grep.count (sign ok) (row sh passed p) = if passed p.2 == ok then 1 else 0) ↔
      Plain (nameWords sh p.1) (passed p.2) := by
  rw [(row_counts (nameWords sh p.1) (passed p.2)).2]
  constructor
  · intro h
    have hsame := h (passed p.2)
    have hother := h (!passed p.2)
    rw [if_pos (beq_self_eq_true _)] at hsame
    rw [if_neg (by simp)] at hother
    exact ⟨hsame, hother⟩
  · rintro ⟨hsame, hother⟩ ok
    by_cases hok : passed p.2 = ok
    · rw [← hok, if_pos (beq_self_eq_true _)]
      exact hsame
    · rw [if_neg (by simpa using hok), ← Bool.eq_not.mpr (Ne.symm hok)] at *
      exact hother

theorem executeTest_eq (sh : Behaviour) (passed : Nat → Bool) (date : Date)
    (caselist : List Char) {runallTimes : Nat} (h : runallTimes ≠ 0) :
    ∃ s, executeTest sh passed date caselist runallTimes =
        some (s, ⟨s.totalCount, Grep.count passSign s.sumFile, Grep.count failSign s.sumFile⟩) ∧
      s.sumFile = header date ++
        ((runs sh caselist runallTimes).zipIdx.map (row sh passed)).flatten ∧
      s.totalCount = (runs sh caselist runallTimes).length ∧
      s.ran = (runs sh caselist runallTimes).zipIdx.map fun p =>
        ⟨caseScript sh p.1, passed p.2⟩ := by
  refine ⟨(runs sh caselist runallTimes).foldl (runCase sh passed) ⟨header date, 0, []⟩, ?_⟩
  rw [executeTest, if_neg h, foldl_runTest, foldl_runCase]
  exact ⟨rfl, rfl, Nat.zero_add _, List.nil_append _⟩

/-- For every case list, number of rounds and sequence of outcomes the totals are right iff the
names, as the shell expands them, are plain. -/
theorem exact_iff (sh : Behaviour) (passed : Nat → Bool) (date : Date) (caselist : List Char)
    {runallTimes : Nat} (h : runallTimes ≠ 0) :
    (∃ s summary, executeTest sh passed date caselist runallTimes = some (s, summary) ∧
        Exact s summary) ↔
      ∀ p ∈ (runs sh caselist runallTimes).zipIdx, Plain (nameWords sh p.1) (passed p.2) := by
  obtain ⟨s, hs, hfile, hcount, hran⟩ := executeTest_eq sh passed date caselist h
  have htests : s.totalCount = s.ran.length := by
    rw [hran, hcount, List.length_map, List.length_zipIdx]
  have hpasses : s.passes =
      ((runs sh caselist runallTimes).zipIdx.filter fun p => passed p.2 == true).length := by
    rw [State.passes, hran, List.filter_map, List.length_map]
    simp [Function.comp_def]
  have hfailures : s.failures =
      ((runs sh caselist runallTimes).zipIdx.filter fun p => passed p.2 == false).length := by
    rw [State.failures, hran, List.filter_map, List.length_map]
    simp [Function.comp_def]
  have hsplit : s.passes + s.failures = s.ran.length :=
    (List.length_eq_length_filter_add Run.passed).symm
  have htotal (ok : Bool) :=
    total_iff sh passed date (runs sh caselist runallTimes).zipIdx ok
  simp only [← row_iff]
  constructor
  · rintro ⟨s', summary, hs', hexact⟩ p hp ok
    rw [hs] at hs'
    cases hs'
    cases ok with
    | true =>
      refine (htotal true).mp ?_ p hp
      rw [← hfile, ← hpasses]
      exact hexact.passes
    | false =>
      refine (htotal false).mp ?_ p hp
      rw [← hfile, ← hfailures]
      exact hexact.failures
  · intro hrows
    have hpass : Grep.count passSign s.sumFile = s.passes := by
      rw [hpasses, hfile]
      exact (htotal true).mpr fun p hp => hrows p hp true
    have hfail : Grep.count failSign s.sumFile = s.failures := by
      rw [hfailures, hfile]
      exact (htotal false).mpr fun p hp => hrows p hp false
    refine ⟨s, _, hs, htests, hpass, hfail, ?_⟩
    rw [hpass, hfail, hsplit, htests]

def sampleDate : Date := ⟨"2014-05-06.07.08.09".toList, by decide⟩

def sampleList : List Char :=
  "# injection\nsoft-inject inject.sh -s\n\nhard-inject inject.sh -h\n".toList

theorem exact_sample : ∃ s summary,
    executeTest strict (fun n => n == 1) sampleDate sampleList 2 = some (s, summary) ∧
      Exact s summary :=
  (exact_iff strict (fun n => n == 1) sampleDate sampleList (by decide)).mpr (by decide +kernel)

/-- A case that fails and has a sign in its name is counted as passed, too. -/
theorem totals_mislead : ¬ ∃ s summary,
    executeTest strict (fun _ => false) sampleDate "BYPASS run.sh\n".toList 1 =
      some (s, summary) ∧ Exact s summary := by
  rintro ⟨s, summary, hs, hexact⟩
  have hpasses : (executeTest strict (fun _ => false) sampleDate "BYPASS run.sh\n".toList 1).map
      (fun r => (r.2.totalPasses, r.1.passes)) = some (1, 0) := by decide +kernel
  rw [hs, Option.map_some, Option.some_inj, Prod.mk.injEq] at hpasses
  exact absurd (hpasses.1.symm.trans (hexact.passes.trans hpasses.2)) (by decide)

end MceTest.Runmcetest

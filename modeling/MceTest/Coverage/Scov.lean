import MceTest.Coverage.Merge
import Mathlib.Data.List.Perm.Basic

/-! `scov_merge.py`: merging severity coverage is a disjunction, in any order and grouping. -/

namespace MceTest.Coverage

open MceTest.Library.Lines MceTest.Library.Python

structure SCovLine where
  count : Int
  remain : List Char

def SCovLine.parse (l : List Char) : Option SCovLine :=
  match find '\t' l with
  | none => none
  | some sep =>
    if sep = 0 then none
    else
      let remain := l.drop sep
      let scnt := l.take sep
      (int? scnt).map fun count => { count, remain }

def SCovLine.merge (self scl : SCovLine) : SCovLine := { self with count := self.count + scl.count }

def SCovLine.write (self : SCovLine) : List Char :=
  (if self.count = 0 then ['0'] else ['1']) ++ self.remain

def scov : Script SCovLine where
  parse := SCovLine.parse
  merge := SCovLine.merge
  write := SCovLine.write

def scovMerge (fns : List (List Char)) : Option (List Char) := scov.run fns

/-- A file of severity coverage: what follows the first tab of each line, and the counts. -/
structure Severity (rests : List (List Char)) (f : List Char) (ns : List Nat) : Prop where
  length : ns.length = rests.length
  counted : List.Forall₂ (fun l (p : List Char × Nat) => ∃ text, l = text ++ '\t' :: p.1 ∧
    '\t' ∉ text ∧ int? text = some (p.2 : Int)) (lines f) (rests.zip ns)

def executed (counts : List Char → List Nat) (fns : List (List Char)) (k : Nat) : Bool :=
  fns.any fun f => (counts f)[k]?.getD 0 ≠ 0

def bitText (bit : Bool) : List Char := if bit then ['1'] else ['0']

def report (rests : List (List Char)) (bits : List Bool) : List (List Char) :=
  List.zipWith (fun rest bit => bitText bit ++ '\t' :: rest) rests bits

theorem scov_write (g : SCovLine) : scov.write g = bitText (g.count ≠ 0) ++ g.remain := by
  have htext : (if g.count = 0 then ['0'] else ['1']) = bitText (g.count ≠ 0) := by
    by_cases h : g.count = 0 <;> simp [bitText, h]
  exact congrArg (· ++ g.remain) htext

theorem parse_severity {text : List Char} {n : Int} (htab : '\t' ∉ text) (hint : int? text = some n)
    (rest : List Char) : SCovLine.parse (text ++ '\t' :: rest) = some ⟨n, '\t' :: rest⟩ := by
  have hne : text.length ≠ 0 := by
    rintro h
    rw [List.eq_nil_of_length_eq_zero h] at hint
    cases hint
  rw [SCovLine.parse, find_append htab]
  dsimp only
  rw [if_neg hne, List.take_left, List.drop_left, hint]
  rfl

variable {rests : List (List Char)} {counts : List Char → List Nat} {fns : List (List Char)}

theorem Severity.parse {f : List Char} {ns : List Nat} (h : Severity rests f ns) :
    ∃ ls, scov.parseFile f = some ls ∧ ls.map SCovLine.count = ns.map Int.ofNat ∧
      ls.map SCovLine.remain = rests.map ('\t' :: ·) := by
  have hpairs {texts : List (List Char)} {ps : List (List Char × Nat)}
      (hlines : List.Forall₂ (fun l (p : List Char × Nat) => ∃ text, l = text ++ '\t' :: p.1 ∧
        '\t' ∉ text ∧ int? text = some (p.2 : Int)) texts ps) :
      ∃ ls, texts.mapM scov.parse = some ls ∧
        ls.map SCovLine.count = ps.map (fun p => Int.ofNat p.2) ∧
        ls.map SCovLine.remain = ps.map ('\t' :: ·.1) := by
    induction hlines with
    | nil => exact ⟨[], rfl, rfl, rfl⟩
    | @cons _ p _ _ hline _ ih =>
      obtain ⟨text, rfl, htab, hint⟩ := hline
      obtain ⟨ls, hls, hcount, hremain⟩ := ih
      refine ⟨⟨p.2, '\t' :: p.1⟩ :: ls, ?_, congrArg (_ :: ·) hcount, congrArg (_ :: ·) hremain⟩
      have hparse : scov.parse (text ++ '\t' :: p.1) = _ := parse_severity htab hint p.1
      rw [List.mapM_cons, hparse, hls]
      rfl
  obtain ⟨ls, hls, hcount, hremain⟩ := hpairs h.counted
  refine ⟨ls, hls, hcount.trans ?_, hremain.trans ?_⟩
  · have hsnd := congrArg (List.map Int.ofNat) (List.map_snd_zip (Nat.le_of_eq h.length))
    rwa [List.map_map] at hsnd
  · have hfst := congrArg (List.map ('\t' :: ·)) (List.map_fst_zip (Nat.le_of_eq h.length.symm))
    rwa [List.map_map] at hfst

theorem not_newline_bit (bit : Bool) : '\n' ∉ bitText bit := by
  cases bit <;> decide

theorem Severity.restarts {f : List Char} {ns : List Nat} (h : Severity rests f ns) :
    List.Forall₂ (fun l r => ∃ a, l = a ++ r ∧ r ≠ []) (lines f) (rests.map ('\t' :: ·)) := by
  have hfst := List.map_fst_zip (Nat.le_of_eq h.length.symm)
  rw [← hfst, List.map_map, List.forall₂_map_right_iff]
  refine h.counted.imp fun l p hl => ?_
  obtain ⟨text, rfl, -⟩ := hl
  exact ⟨text, rfl, List.cons_ne_nil '\t' p.1⟩

theorem scov_additive : scov.Additive SCovLine.count SCovLine.remain :=
  ⟨fun _ _ => rfl, fun _ _ => rfl⟩

theorem columnSum_executed (counts : List Char → List Nat) (fns : List (List Char)) (k : Nat) :
    decide (Script.columnSum (fun f => (counts f).map Int.ofNat) fns k ≠ 0) =
      executed counts fns k := by
  have hsum : Script.columnSum (fun f => (counts f).map Int.ofNat) fns k =
      ((fns.map fun f => (counts f)[k]?.getD 0).sum : Nat) := by
    rw [Script.columnSum]
    induction fns with
    | nil => rfl
    | cons f fns ih =>
      rw [List.map_cons, List.sum_cons, ih, List.map_cons, List.sum_cons, List.getElem?_map]
      cases (counts f)[k]? <;> rfl
  rw [hsum, executed]
  clear hsum
  induction fns with
  | nil => rfl
  | cons f fns ih =>
    rw [List.any_cons, ← ih, List.map_cons, List.sum_cons]
    generalize (fns.map fun f => (counts f)[k]?.getD 0).sum = m
    grind

def mergedBits (counts : List Char → List Nat) (fns : List (List Char)) (n : Nat) : List Bool :=
  (List.range n).map (executed counts fns)

theorem scovMerge_report (hne : fns ≠ []) (hfns : ∀ f ∈ fns, Severity rests f (counts f)) :
    ∃ out, scovMerge fns = some out ∧
      lines out = report rests (mergedBits counts fns rests.length) := by
  cases fns with
  | nil => exact absurd rfl hne
  | cons fn fns =>
    have hparse : ∀ f ∈ fn :: fns, ∃ ls, scov.parseFile f = some ls ∧
        ls.map SCovLine.count = (counts f).map Int.ofNat := fun f hf => by
      obtain ⟨ls, hls, hcount, -⟩ := (hfns f hf).parse
      exact ⟨ls, hls, hcount⟩
    obtain ⟨ls, ms, hls, hrun, hframe, hcount⟩ := Script.run_sum scov_additive hparse
      (fun f hf => (List.length_map ..).trans (hfns f hf).length)
    obtain ⟨ls', hls', -, hremain⟩ := (hfns fn List.mem_cons_self).parse
    obtain rfl : ls = ls' := Option.some.inj (hls.symm.trans hls')
    have hrests : ms.map SCovLine.remain = rests.map ('\t' :: ·) := hframe.trans hremain
    have hlines : lines (ms.flatMap scov.write) = ms.map scov.write := by
      have hrestarts := (hfns fn List.mem_cons_self).restarts
      rw [← hrests] at hrestarts
      exact Script.lines_written hrestarts scov_write fun g => not_newline_bit _
    refine ⟨_, hrun, hlines.trans ?_⟩
    calc
      ms.map scov.write = List.zipWith (fun r c => bitText (c ≠ 0) ++ r)
          (ms.map SCovLine.remain) (ms.map SCovLine.count) := by
        rw [List.zipWith_map, List.zipWith_self]
        exact List.map_congr_left fun g _ => scov_write g
      _ = report rests (mergedBits counts (fn :: fns) rests.length) := by
        rw [hrests, hcount, report, mergedBits, List.zipWith_map, List.zipWith_map_right]
        refine congrArg (List.zipWith · _ _) (funext fun r => funext fun k => ?_)
        refine congrArg (bitText · ++ _) ?_
        exact columnSum_executed counts (fn :: fns) k

theorem mergedBits_length (n : Nat) : (mergedBits counts fns n).length = n := by
  rw [mergedBits, List.length_map, List.length_range]

theorem int?_bit (bit : Bool) : int? (bitText bit) = some (bit.toNat : Int) := by
  cases bit <;> decide

theorem severity_report {out : List Char} {bits : List Bool} (hlen : bits.length = rests.length)
    (hout : lines out = report rests bits) : Severity rests out (bits.map Bool.toNat) := by
  constructor
  · rw [List.length_map, hlen]
  · have hreport : report rests bits =
        (rests.zip bits).map fun p => bitText p.2 ++ '\t' :: p.1 := by
      rw [report, List.map_zip_eq_zipWith]
      rfl
    rw [hout, hreport, List.zip_map_right, List.forall₂_map_left_iff, List.forall₂_map_right_iff,
      List.forall₂_same]
    intro p _
    refine ⟨bitText p.2, rfl, ?_, int?_bit p.2⟩
    cases p.2 <;> decide

def readCounts (f : List Char) : List Nat :=
  ((scov.parseFile f).getD []).map fun l => l.count.toNat

theorem Severity.readCounts {f : List Char} {ns : List Nat} (h : Severity rests f ns) :
    readCounts f = ns := by
  obtain ⟨ls, hls, hcount, -⟩ := h.parse
  have hnat := congrArg (List.map Int.toNat) hcount
  rw [List.map_map, List.map_map] at hnat
  rw [Coverage.readCounts, hls]
  exact hnat.trans (List.map_id ns)

theorem scovMerge_perm {fns' : List (List Char)} (hne : fns ≠ [])
    (hfns : ∀ f ∈ fns, Severity rests f (counts f)) (hperm : fns'.Perm fns) :
    scovMerge fns' = scovMerge fns := by
  obtain ⟨out, hout, hlines⟩ := scovMerge_report hne hfns
  have hne' : fns' ≠ [] := fun h => hne (List.perm_nil.mp (h ▸ hperm.symm))
  obtain ⟨out', hout', hlines'⟩ := scovMerge_report hne' fun f hf => hfns f (hperm.mem_iff.mp hf)
  have hbits : mergedBits counts fns' rests.length = mergedBits counts fns rests.length :=
    congrArg (List.map · _) (funext fun k => hperm.any_eq)
  rw [hout, hout', ← lines_flatten out, ← lines_flatten out', hlines, hlines', hbits]

theorem readCounts_report {out : List Char} {k : Nat}
    (hout : lines out = report rests (mergedBits counts fns rests.length)) (hk : k < rests.length) :
    decide ((readCounts out)[k]?.getD 0 ≠ 0) = executed counts fns k := by
  rw [(severity_report (mergedBits_length _) hout).readCounts, mergedBits, List.map_map,
    List.getElem?_map, List.getElem?_range hk, Option.map_some, Function.comp_apply,
    Option.getD_some]
  cases executed counts fns k <;> rfl

theorem groups_reports {groups : List (List (List Char))} (hgroups : ∀ g ∈ groups, g ≠ [])
    (hfns : ∀ f ∈ groups.flatten, Severity rests f (counts f)) :
    ∃ outs, groups.mapM scovMerge = some outs ∧ List.Forall₂ (fun g out =>
      lines out = report rests (mergedBits counts g rests.length)) groups outs := by
  induction groups with
  | nil => exact ⟨[], rfl, .nil⟩
  | cons g groups ih =>
    obtain ⟨outs, houts, hreports⟩ := ih (fun g' hg' => hgroups g' (.tail _ hg'))
      (fun f hf => hfns f (List.mem_append_right _ hf))
    obtain ⟨out, hout, hlines⟩ := scovMerge_report (hgroups g List.mem_cons_self)
      (fun f hf => hfns f (List.mem_append_left _ hf))
    refine ⟨out :: outs, ?_, .cons hlines hreports⟩
    rw [List.mapM_cons, hout, houts]
    rfl

theorem scovMerge_groups {groups : List (List (List Char))} (hne : groups.flatten ≠ [])
    (hgroups : ∀ g ∈ groups, g ≠ [])
    (hfns : ∀ f ∈ groups.flatten, Severity rests f (counts f)) :
    ∃ outs, groups.mapM scovMerge = some outs ∧ scovMerge outs = scovMerge groups.flatten := by
  obtain ⟨outs, houts, hreports⟩ := groups_reports hgroups hfns
  have hexecuted (k : Nat) (hk : k < rests.length) :
      executed readCounts outs k = executed counts groups.flatten k := by
    clear hne hgroups hfns houts
    induction hreports with
    | nil => rfl
    | cons hlines _ ih =>
      rw [executed, List.any_cons, readCounts_report hlines hk, List.flatten_cons, executed,
        executed, List.any_append]
      exact congrArg (_ || ·) ih
  have houtsne : outs ≠ [] := by
    rintro rfl
    cases hreports
    exact hne rfl
  have hsev : ∀ out ∈ outs, Severity rests out (readCounts out) := fun out hout => by
    obtain ⟨g, hlines⟩ := related hreports out hout
    have hsev := severity_report (mergedBits_length _) hlines
    rwa [hsev.readCounts]
  obtain ⟨out, hout, hlines⟩ := scovMerge_report hne hfns
  obtain ⟨out', hout', hlines'⟩ := scovMerge_report houtsne hsev
  have hbits : mergedBits readCounts outs rests.length =
      mergedBits counts groups.flatten rests.length :=
    List.map_congr_left fun k hk => hexecuted k (List.mem_range.mp hk)
  refine ⟨outs, houts, ?_⟩
  rw [hout, hout', ← lines_flatten out, ← lines_flatten out', hlines, hlines', hbits]

/-- The merged report has a 1 exactly at the lines that some file has run, and it is the same for
every order of the files and for every way of merging them in groups first. -/
theorem scovMerge_or (hne : fns ≠ []) (hfns : ∀ f ∈ fns, Severity rests f (counts f)) :
    ∃ out, scovMerge fns = some out ∧
      lines out = report rests ((List.range rests.length).map (executed counts fns)) ∧
      (∀ fns', fns'.Perm fns → scovMerge fns' = some out) ∧
      ∀ groups : List (List (List Char)), (∀ g ∈ groups, g ≠ []) → groups.flatten.Perm fns →
        ∃ outs, groups.mapM scovMerge = some outs ∧ scovMerge outs = some out := by
  obtain ⟨out, hout, hlines⟩ := scovMerge_report hne hfns
  refine ⟨out, hout, hlines, fun fns' hperm => ?_, fun groups hgroups hperm => ?_⟩
  · exact (scovMerge_perm hne hfns hperm).trans hout
  · have hflatten : groups.flatten ≠ [] := fun h => hne (List.perm_nil.mp (h ▸ hperm.symm))
    obtain ⟨outs, houts, hmerged⟩ := scovMerge_groups hflatten hgroups
      fun f hf => hfns f (hperm.mem_iff.mp hf)
    exact ⟨outs, houts, (hmerged.trans (scovMerge_perm hne hfns hperm)).trans hout⟩

def firstCoverage : List Char := "0\tpoll\n2\tpanic\n".toList

def secondCoverage : List Char := " 3\tpoll\n0\tpanic\n".toList

def coverageCounts (f : List Char) : List Nat := if f = firstCoverage then [0, 2] else [3, 0]

theorem scovMerge_or_coverage :
    ([firstCoverage, secondCoverage] ≠ [] ∧ ∀ f ∈ [firstCoverage, secondCoverage],
      Severity ["poll\n".toList, "panic\n".toList] f (coverageCounts f)) ∧
    ∃ out, scovMerge [firstCoverage, secondCoverage] = some out ∧
      lines out = report ["poll\n".toList, "panic\n".toList]
        ((List.range 2).map (executed coverageCounts [firstCoverage, secondCoverage])) ∧
      (∀ fns', fns'.Perm [firstCoverage, secondCoverage] → scovMerge fns' = some out) ∧
      ∀ groups : List (List (List Char)), (∀ g ∈ groups, g ≠ []) →
        groups.flatten.Perm [firstCoverage, secondCoverage] →
        ∃ outs, groups.mapM scovMerge = some outs ∧ scovMerge outs = some out := by
  have hfirst : Severity ["poll\n".toList, "panic\n".toList] firstCoverage [0, 2] := by
    have hlines : lines firstCoverage = ["0\tpoll\n".toList, "2\tpanic\n".toList] := by
      decide +kernel
    refine ⟨rfl, ?_⟩
    rw [hlines]
    exact .cons ⟨['0'], by decide, by decide, by decide⟩
      (.cons ⟨['2'], by decide, by decide, by decide⟩ .nil)
  have hsecond : Severity ["poll\n".toList, "panic\n".toList] secondCoverage [3, 0] := by
    have hlines : lines secondCoverage = [" 3\tpoll\n".toList, "0\tpanic\n".toList] := by
      decide +kernel
    refine ⟨rfl, ?_⟩
    rw [hlines]
    exact .cons ⟨[' ', '3'], by decide, by decide, by decide⟩
      (.cons ⟨['0'], by decide, by decide, by decide⟩ .nil)
  have hfns : ∀ f ∈ [firstCoverage, secondCoverage],
      Severity ["poll\n".toList, "panic\n".toList] f (coverageCounts f) :=
    List.forall_mem_cons.mpr ⟨hfirst, List.forall_mem_singleton.mpr hsecond⟩
  exact ⟨⟨List.cons_ne_nil _ _, hfns⟩, scovMerge_or (List.cons_ne_nil _ _) hfns⟩

end MceTest.Coverage

import MceTest.Library.Lines
import MceTest.Library.Python
import Mathlib.Algebra.BigOperators.Group.List.Basic

/-! Files whose lines have a count, merged by adding the counts: what `gcov_merge.py` and
`scov_merge.py` share. -/

namespace MceTest.Coverage

open MceTest.Library.Lines

variable {Line Frame : Type}

/-- What a script does with its lines. -/
structure Script (Line : Type) where
  parse : List Char → Option Line
  merge : Line → Line → Line
  write : Line → List Char

theorem related {α β : Type} {R : α → β → Prop} {l : List α} {l' : List β}
    (h : List.Forall₂ R l l') : ∀ b ∈ l', ∃ a, R a b := by
  induction h with
  | nil => exact fun b hb => absurd hb List.not_mem_nil
  | cons hab _ ih =>
    intro b hb
    rcases List.mem_cons.mp hb with rfl | hb
    · exact ⟨_, hab⟩
    · exact ih b hb

namespace Script

def parseFile (sc : Script Line) (f : List Char) : Option (List Line) := (lines f).mapM sc.parse

/-- The lines of the first list are changed in place, as far as `zip` pairs them. -/
def mergeLines (sc : Script Line) : List Line → List Line → List Line
  | l :: ls, l' :: ls' => sc.merge l l' :: sc.mergeLines ls ls'
  | ls, _ => ls

def run (sc : Script Line) : List (List Char) → Option (List Char)
  | [] => none
  | fn :: fns => do
    let base ← sc.parseFile fn
    let base ← fns.foldlM (fun base fn => return sc.mergeLines base (← sc.parseFile fn)) base
    return base.flatMap sc.write

/-- Merging adds the counts and keeps the rest of the first line. -/
structure Additive (sc : Script Line) (count : Line → Int) (frame : Line → Frame) : Prop where
  count : ∀ l l', count (sc.merge l l') = count l + count l'
  frame : ∀ l l', frame (sc.merge l l') = frame l

def columnSum (codes : List Char → List Int) (fns : List (List Char)) (k : Nat) : Int :=
  (fns.map fun f => (codes f)[k]?.getD 0).sum

variable {sc : Script Line} {count : Line → Int} {frame : Line → Frame} {n : Nat}

theorem mergeLines_frame (hsc : Additive sc count frame) (ls ls' : List Line) :
    (sc.mergeLines ls ls').map frame = ls.map frame := by
  induction ls generalizing ls' with
  | nil => rfl
  | cons l ls ih =>
    cases ls' with
    | nil => rfl
    | cons l' ls' => rw [mergeLines, List.map_cons, hsc.frame, ih, List.map_cons]

theorem mergeLines_count (hsc : Additive sc count frame) {ls ls' : List Line}
    (hlen : ls'.length = ls.length) :
    (sc.mergeLines ls ls').map count = List.zipWith (· + ·) (ls.map count) (ls'.map count) := by
  induction ls generalizing ls' with
  | nil => rfl
  | cons l ls ih =>
    cases ls' with
    | nil => cases hlen
    | cons l' ls' =>
      rw [mergeLines, List.map_cons, hsc.count, ih (Nat.succ.inj hlen)]
      rfl

theorem mergeLines_sum (hsc : Additive sc count frame) {ls ls' : List Line} {c : Nat → Int}
    (hls : ls.map count = (List.range n).map c) (hlen : ls'.length = n) :
    (sc.mergeLines ls ls').map count =
      (List.range n).map fun k => c k + (ls'.map count)[k]?.getD 0 := by
  have hn : ls.length = n := by
    have := congrArg List.length hls
    rwa [List.length_map, List.length_map, List.length_range] at this
  rw [mergeLines_count hsc (hlen.trans hn.symm), hls]
  apply List.ext_getElem
  · rw [List.length_zipWith, List.length_map, List.length_map, List.length_map, List.length_range,
      hlen, Nat.min_self]
  · intro k hk hk'
    simp at hk hk' ⊢
    rw [List.getElem?_eq_getElem hk.2]
    rfl

theorem foldlM_sum (hsc : Additive sc count frame) {codes : List Char → List Int}
    {fns : List (List Char)}
    (hparse : ∀ f ∈ fns, ∃ ls, sc.parseFile f = some ls ∧ ls.map count = codes f)
    (hlen : ∀ f ∈ fns, (codes f).length = n) {base : List Line} {c : Nat → Int}
    (hbase : base.map count = (List.range n).map c) :
    ∃ ms : List Line,
      fns.foldlM (fun base fn => return sc.mergeLines base (← sc.parseFile fn)) base = some ms ∧
      ms.map frame = base.map frame ∧
      ms.map count = (List.range n).map fun k => c k + columnSum codes fns k := by
  induction fns generalizing base c with
  | nil =>
    refine ⟨base, rfl, rfl, hbase.trans (congrArg (List.map · _) (funext fun k => ?_))⟩
    exact (Int.add_zero _).symm
  | cons f fns ih =>
    obtain ⟨ls, hls, hcodes⟩ := hparse f List.mem_cons_self
    have hn : ls.length = n := by
      rw [← hlen f List.mem_cons_self, ← hcodes, List.length_map]
    have hmerge := mergeLines_sum hsc hbase hn
    obtain ⟨ms, hms, hframe, hcount⟩ := ih (fun g hg => hparse g (.tail _ hg))
      (fun g hg => hlen g (.tail _ hg)) hmerge
    refine ⟨ms, ?_, hframe.trans (mergeLines_frame hsc base ls), hcount.trans ?_⟩
    · rw [List.foldlM_cons, hls]
      exact hms
    · refine congrArg (List.map · _) (funext fun k => ?_)
      rw [hcodes, columnSum, columnSum, List.map_cons, List.sum_cons, Int.add_assoc]

theorem run_sum (hsc : Additive sc count frame) {codes : List Char → List Int}
    {fn : List Char} {fns : List (List Char)}
    (hparse : ∀ f ∈ fn :: fns, ∃ ls, sc.parseFile f = some ls ∧ ls.map count = codes f)
    (hlen : ∀ f ∈ fn :: fns, (codes f).length = n) :
    ∃ ls, ∃ ms : List Line, sc.parseFile fn = some ls ∧
      sc.run (fn :: fns) = some (ms.flatMap sc.write) ∧
      ms.map frame = ls.map frame ∧
      ms.map count = (List.range n).map (columnSum codes (fn :: fns)) := by
  obtain ⟨ls, hls, hcodes⟩ := hparse fn List.mem_cons_self
  have hbase : ls.map count = (List.range n).map fun k => (codes fn)[k]?.getD 0 := by
    rw [hcodes, ← hlen fn List.mem_cons_self]
    apply List.ext_getElem
    · rw [List.length_map, List.length_range]
    · intro k hk hk'
      simp [List.getElem?_eq_getElem hk]
  obtain ⟨ms, hms, hframe, hcount⟩ := foldlM_sum hsc (fun f hf => hparse f (.tail _ hf))
    (fun f hf => hlen f (.tail _ hf)) hbase
  refine ⟨ls, ms, hls, ?_, hframe, hcount⟩
  rw [run, hls]
  exact congrArg (Option.bind · fun base => some (base.flatMap sc.write)) hms

theorem lines_written {f : List Char} {ms : List Line} {start remain : Line → List Char}
    (hremain : List.Forall₂ (fun l r => ∃ a, l = a ++ r ∧ r ≠ []) (lines f) (ms.map remain))
    (hwrite : ∀ g, sc.write g = start g ++ remain g) (hstart : ∀ g, '\n' ∉ start g) :
    lines (ms.flatMap sc.write) = ms.map sc.write := by
  refine ((lines_lined f).restarted (List.forall₂_map_right_iff.mpr ?_)).lines
  refine (List.forall₂_map_right_iff.mp hremain).imp fun l g hl => ?_
  obtain ⟨a, rfl, hne⟩ := hl
  exact ⟨a, start g, remain g, rfl, hwrite g, hstart g, hne⟩

end Script

end MceTest.Coverage

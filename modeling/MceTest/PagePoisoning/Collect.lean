import MceTest.PagePoisoning.Model
import Mathlib.Data.List.Range

/-! The collection loop of `run_test`: the lines it reports and the status it returns. -/

namespace MceTest.PagePoisoning

open MceTest.Library.Transition MceTest.Library.Shell

variable {cfg : Config} {s s' : State} {i : Nat} {fails : Bool}

structure Slot (cfg : Config) (i : Nat) (pc : Pc) (test : Test) : Prop where
  pass : test.pass = pc.stored
  id : test.id = if pc.named then i % cfg.testTypes else 0

def Slots (cfg : Config) (s : State) : Prop := ∀ i, Slot cfg i (s.child i) (s.test i)

theorem Slots.move (hs : Slots cfg s) {pc : Pc} (hstored : pc.stored = (s.child i).stored)
    (hnamed : pc.named = (s.child i).named) (j : Nat) :
    Slot cfg j (Function.update s.child i pc j) (s.test j) :=
  update_all (P := fun j pc => Slot cfg j pc (s.test j)) hs
    ⟨(hs i).pass.trans hstored.symm, by rw [hnamed]; exact (hs i).id⟩ j

theorem Slots.write (hs : Slots cfg s) {pc : Pc} {test : Test} (hi : Slot cfg i pc test)
    (j : Nat) : Slot cfg j (Function.update s.child i pc j) (Function.update s.test i test j) := by
  by_cases hj : j = i
  · subst hj
    rw [Function.update_self, Function.update_self]
    exact hi
  · rw [Function.update_of_ne hj, Function.update_of_ne hj]
    exact hs j

theorem childStep_slots (hs : Slots cfg s) (h : childStep cfg s i fails = some s') :
    Slots cfg s' := by
  have hi := hs i
  cases hpc : s.child i
  all_goals
    rw [hpc] at hi
    simp only [childStep, hpc, reduceCtorEq, Option.ite_none_left_eq_some,
      Option.ite_none_right_eq_some, Option.some.injEq] at h
  case start =>
    subst h
    exact hs.write ⟨hi.pass.trans (by split <;> rfl), by split <;> rfl⟩
  case storeResult =>
    split at h
    · cases h
      exact hs.write ⟨rfl, hi.id⟩
    · cases h
      exact hs.move (by rw [hpc]; rfl) (by rw [hpc]; rfl)
  case checkReady =>
    subst h
    exact hs.move (by rw [hpc]; split <;> rfl) (by rw [hpc]; split <;> rfl)
  case checkDone =>
    split at h
    all_goals
      cases h
      exact hs.move (by rw [hpc]; rfl) (by rw [hpc]; rfl)
  case request1 | request2 | decrement | waitZero =>
    obtain ⟨-, rfl⟩ := h
    exact hs.move (by rw [hpc]; rfl) (by rw [hpc]; rfl)
  all_goals
    subst h
    exact hs.move (by rw [hpc]; rfl) (by rw [hpc]; rfl)

theorem endChild_slots {ended : Bool → Bool → Pc} (hs : Slots cfg s)
    (hstored : ∀ named stored, (ended named stored).stored = stored)
    (hnamed : ∀ named stored, (ended named stored).named = named)
    (h : endChild s i ended = some s') : Slots cfg s' := by
  obtain ⟨rfl, -, -⟩ := endChild_eq h
  exact hs.move (hstored ..) (hnamed ..)

theorem parentStep_slots (hs : Slots cfg s) (hborn : s.child s.instances = .unborn)
    (h : parentStep cfg s = some s') : Slots cfg s' := by
  rcases parentStep_cases h with ⟨-, -, rfl⟩ | ⟨parent, lines, failures, rfl, -, -⟩
  · exact hs.move (by rw [hborn]; rfl) (by rw [hborn]; rfl)
  · exact hs

/-- The line of an instance whose name was looked up under the index `t i`. -/
def lineOf (cfg : Config) (child : Nat → Pc) (t : Nat → Nat) (i : Nat) : Line :=
  .instance i (cfg.pid i) (child i).stored (cfg.caseName (t i))

/-- The first `k` instances are collected, with names found under indices that meet `P`. -/
structure Collected (cfg : Config) (P : Nat → Nat → Prop) (child : Nat → Pc) (lines : List Line)
    (failures k : Nat) : Prop where
  lines : ∃ t : Nat → Nat, (∀ j < k, P j (t j)) ∧ lines = (List.range k).map (lineOf cfg child t)
  terminated : ∀ j < k, (child j).terminated = true
  failures : failures = (List.range k).countP fun j => !(child j).stored

/-- What has been reported when the parent is at each point of `run_test`. -/
def Report (cfg : Config) (P : Nat → Nat → Prop) (s : State) : Prop :=
  match s.parent with
  | .forking => Collected cfg P s.child s.lines s.failures 0
  | .reading i => Collected cfg P s.child s.lines s.failures i ∧ i ≤ cfg.childNum
  | .waiting i t =>
    Collected cfg P s.child s.lines s.failures i ∧ P i t ∧ i < cfg.childNum
  | .returned rc =>
    ∃ lines, Collected cfg P s.child lines s.failures cfg.childNum ∧
      s.lines = lines ++ [if rc = 0 then .passed else .failed s.failures] ∧
      (rc = 0 ↔ s.failures = 0)

section

variable {P : Nat → Nat → Prop} {child child' : Nat → Pc} {lines : List Line} {failures k : Nat}

theorem Collected.congr (hs : Collected cfg P child lines failures k)
    (hchild : ∀ j < k, child' j = child j) : Collected cfg P child' lines failures k where
  lines := by
    obtain ⟨t, ht, hlines⟩ := hs.lines
    refine ⟨t, ht, hlines.trans (List.map_congr_left fun j hj => ?_)⟩
    rw [lineOf, lineOf, hchild j (List.mem_range.mp hj)]
  terminated := fun j hj => by rw [hchild j hj]; exact hs.terminated j hj
  failures := hs.failures.trans (List.countP_congr fun j hj => by
    rw [hchild j (List.mem_range.mp hj)])

theorem Collected.empty : Collected cfg P child [] 0 0 where
  lines := ⟨id, fun _ h => absurd h (Nat.not_lt_zero _), rfl⟩
  terminated := fun _ h => absurd h (Nat.not_lt_zero _)
  failures := rfl

theorem Collected.collect (hs : Collected cfg P child lines failures k) {t : Nat} (ht : P k t)
    (hend : (child k).terminated = true) {pass : Bool} (hpass : pass = (child k).stored) :
    Collected cfg P child (lines ++ [.instance k (cfg.pid k) pass (cfg.caseName t)])
      (failures + if pass then 0 else 1) (k + 1) where
  lines := by
    obtain ⟨u, hu, hlines⟩ := hs.lines
    refine ⟨Function.update u k t, fun j hj => ?_, ?_⟩
    · by_cases hjk : j = k
      · rwa [hjk, Function.update_self]
      · rw [Function.update_of_ne hjk]
        exact hu j (by omega)
    · rw [List.range_succ, List.map_append, hlines, hpass]
      congr 1
      · apply List.map_congr_left
        intro j hj
        rw [lineOf, lineOf, Function.update_of_ne (List.mem_range.mp hj).ne]
      · rw [List.map_singleton, lineOf, Function.update_self]
  terminated := by
    intro j hj
    by_cases hjk : j = k
    · rwa [hjk]
    · exact hs.terminated j (by omega)
  failures := by
    rw [List.range_succ, List.countP_append, ← hs.failures, List.countP_singleton, hpass]
    cases (child k).stored <;> rfl

end

theorem Frame.report {P : Nat → Nat → Prop} (h : Frame s s' i) (hs : Report cfg P s) :
    Report cfg P s' := by
  have hchild (k : Nat) (hk : ∀ j < k, (s.child j).terminated = true) (j : Nat) (hj : j < k) :
      s'.child j = s.child j := by
    apply h.child
    rintro rfl
    exact absurd (h.alive.symm.trans (hk _ hj)) Bool.false_ne_true
  unfold Report at hs ⊢
  rw [h.parent, h.lines, h.failures]
  cases hp : s.parent with
  | forking =>
    rw [hp] at hs
    exact hs.congr (hchild 0 hs.terminated)
  | reading k =>
    rw [hp] at hs
    exact ⟨hs.1.congr (hchild k hs.1.terminated), hs.2⟩
  | waiting k t =>
    rw [hp] at hs
    exact ⟨hs.1.congr (hchild k hs.1.terminated), hs.2⟩
  | returned rc =>
    rw [hp] at hs
    obtain ⟨lines, hlines, hrest⟩ := hs
    exact ⟨lines, hlines.congr (hchild _ hlines.terminated), hrest⟩

theorem parentStep_report {P : Nat → Nat → Prop} (hf : Forked cfg s) (hslots : Slots cfg s)
    (hread : ∀ i, s.parent = .reading i → i < s.instances → P i (s.test i).id)
    (hs : Report cfg P s) (h : parentStep cfg s = some s') : Report cfg P s' := by
  unfold Report at hs
  cases hp : s.parent
  all_goals
    rw [hp] at hs
    simp only [parentStep, hp, reduceCtorEq, Option.ite_none_right_eq_some, Option.some.injEq] at h
  case forking =>
    split at h
    · cases h
      unfold Report
      dsimp only [State.goto]
      rw [hp]
      exact hs.congr fun _ hj => absurd hj (Nat.not_lt_zero _)
    · cases h
      exact ⟨hs, Nat.zero_le _⟩
  case reading i =>
    have hdone := hf.collecting (by simp [hp])
    split at h
    · rename_i hlt
      cases h
      exact ⟨hs.1, hread i hp hlt, hdone ▸ hlt⟩
    · rename_i hge
      have hi : i = cfg.childNum := Nat.le_antisymm hs.2 (hdone ▸ Nat.le_of_not_lt hge)
      split at h
      · rename_i hzero
        cases h
        exact ⟨s.lines, hi ▸ hs.1, rfl, iff_of_true rfl hzero⟩
      · rename_i hfail
        cases h
        exact ⟨s.lines, hi ▸ hs.1, rfl, iff_of_false Nat.one_ne_zero hfail⟩
  case waiting i t =>
    obtain ⟨hcol, ht, hlt⟩ := hs
    obtain ⟨hend, rfl⟩ := h
    exact ⟨hcol.collect ht hend (hslots i).pass, hlt⟩

structure Collecting (cfg : Config) (P : Nat → Nat → Prop) (s : State) : Prop where
  forked : Forked cfg s
  slots : Slots cfg s
  report : Report cfg P s

theorem init_collecting {P : Nat → Nat → Prop} : Collecting cfg P (init cfg) where
  forked := init_forked
  slots := fun _ => ⟨rfl, rfl⟩
  report := .empty

/-- One step keeps the report true of what the children have stored.  The names are
found under the ids that the parent reads, whatever `P` these meet. -/
theorem step_collecting {P : Nat → Nat → Prop} {a : Action} (hs : Collecting cfg P s)
    (hread : a = .parent → ∀ i, s.parent = .reading i → i < s.instances → P i (s.test i).id)
    (h : step cfg s a = some s') : Collecting cfg P s' := by
  cases a with
  | parent =>
    have hborn := hs.forked.unborn (Nat.le_refl s.instances)
    exact ⟨parentStep_forked hs.forked h, parentStep_slots hs.slots hborn h,
      parentStep_report hs.forked hs.slots (hread rfl) hs.report h⟩
  | child i fails =>
    have hframe := childStep_frame h
    exact ⟨hframe.forked hs.forked, childStep_slots hs.slots h, hframe.report hs.report⟩
  | quit i =>
    have hframe := endChild_frame (fun _ _ => rfl) h
    exact ⟨hframe.forked hs.forked, endChild_slots hs.slots (fun _ _ => rfl) (fun _ _ => rfl) h,
      hframe.report hs.report⟩
  | kill i =>
    have hframe := endChild_frame (fun _ _ => rfl) h
    exact ⟨hframe.forked hs.forked, endChild_slots hs.slots (fun _ _ => rfl) (fun _ _ => rfl) h,
      hframe.report hs.report⟩

def Line.instance? : Line → Option Nat
  | .instance i _ _ _ => some i
  | .passed | .failed _ => none

/-- The lines name the test of their instance and say whether it passed, and the status
says whether all have. -/
structure Truthful (cfg : Config) (s : State) : Prop where
  name : ∀ i pid pass name, Line.instance i pid pass name ∈ s.lines →
    name = cfg.caseName (i % cfg.testTypes)
  pass : ∀ i pid pass name, Line.instance i pid pass name ∈ s.lines →
    (s.child i).terminated = true ∧ (pass = true ↔ (s.child i).stored = true)
  all : ∀ rc, s.parent = .returned rc →
    s.lines.filterMap Line.instance? = List.range cfg.childNum ∧
      (rc = 0 ↔ ∀ i < cfg.childNum, (s.child i).stored = true)

theorem Collected.mem {P : Nat → Nat → Prop} {child : Nat → Pc} {lines : List Line}
    {failures k : Nat} (hs : Collected cfg P child lines failures k) {i pid : Nat} {pass : Bool}
    {name : Word} (h : Line.instance i pid pass name ∈ lines) :
    (∃ t, P i t ∧ name = cfg.caseName t) ∧ (child i).terminated = true ∧
      (pass = true ↔ (child i).stored = true) := by
  obtain ⟨t, ht, rfl⟩ := hs.lines
  obtain ⟨j, hj, hline⟩ := List.mem_map.mp h
  have hj := List.mem_range.mp hj
  cases hline
  exact ⟨⟨t i, ht i hj, rfl⟩, hs.terminated i hj, Iff.rfl⟩

theorem Collecting.lines {P : Nat → Nat → Prop} (hs : Collecting cfg P s) :
    ∃ lines k, Collected cfg P s.child lines s.failures k ∧
      ∀ i pid pass name, Line.instance i pid pass name ∈ s.lines →
        Line.instance i pid pass name ∈ lines := by
  have hreport := hs.report
  unfold Report at hreport
  cases hp : s.parent with
  | forking =>
    rw [hp] at hreport
    exact ⟨s.lines, 0, hreport, fun _ _ _ _ h => h⟩
  | reading i =>
    rw [hp] at hreport
    exact ⟨s.lines, i, hreport.1, fun _ _ _ _ h => h⟩
  | waiting i t =>
    rw [hp] at hreport
    exact ⟨s.lines, i, hreport.1, fun _ _ _ _ h => h⟩
  | returned rc =>
    rw [hp] at hreport
    obtain ⟨lines, hlines, hall, -⟩ := hreport
    refine ⟨lines, cfg.childNum, hlines, fun i pid pass name h => ?_⟩
    rw [hall, List.mem_append, List.mem_singleton] at h
    rcases h with h | h
    · exact h
    · split at h <;> cases h

theorem Collecting.verdict {P : Nat → Nat → Prop} (hs : Collecting cfg P s) {rc : Nat}
    (hp : s.parent = .returned rc) :
    s.lines.filterMap Line.instance? = List.range cfg.childNum ∧
      (rc = 0 ↔ ∀ i < cfg.childNum, (s.child i).stored = true) := by
  have hreport := hs.report
  unfold Report at hreport
  rw [hp] at hreport
  obtain ⟨lines, hlines, hall, hrc⟩ := hreport
  obtain ⟨t, -, hmap⟩ := hlines.lines
  constructor
  · have hverdict : [if rc = 0 then Line.passed else .failed s.failures].filterMap
        Line.instance? = [] := by
      split <;> rfl
    rw [hall, List.filterMap_append, hverdict, List.append_nil, hmap, List.filterMap_map]
    change (List.range cfg.childNum).filterMap some = _
    exact List.filterMap_some
  · rw [hrc, hlines.failures, List.countP_eq_zero]
    simp

/-- The parent reads the id of a child that has stored it, or whose id is zero. -/
def ReadsStoredId (cfg : Config) (s : State) (a : Action) : Prop :=
  a = .parent → ∀ i, s.parent = .reading i → i < s.instances →
    (s.child i).named = true ∨ i % cfg.testTypes = 0

/-- Every run in which the parent reads only such ids reports the truth. -/
theorem report_truthful (h : Reaches (step cfg) (ReadsStoredId cfg) (init cfg) s) :
    Truthful cfg s := by
  have hs : Collecting cfg (fun i t => t = i % cfg.testTypes) s :=
    h.invariant init_collecting fun s a _ hs hok hstep => by
      refine step_collecting hs (fun ha i hp hlt => ?_) hstep
      rw [(hs.slots i).id]
      rcases hok ha i hp hlt with hnamed | hzero
      · rw [if_pos hnamed]
      · rw [hzero]
        split <;> rfl
  obtain ⟨lines, k, hlines, hmem⟩ := hs.lines
  constructor
  · intro i pid pass name hline
    obtain ⟨⟨t, rfl, hname⟩, -⟩ := hlines.mem (hmem i pid pass name hline)
    exact hname
  · exact fun i pid pass name hline => (hlines.mem (hmem i pid pass name hline)).2
  · exact fun rc hp => hs.verdict hp

instance : ∀ s a, Decidable (ReadsStoredId cfg s a) := fun s a =>
  match h : s.parent with
  | .reading i => decidable_of_iff
      (a = .parent → i < s.instances → (s.child i).named = true ∨ i % cfg.testTypes = 0) (by
        rw [ReadsStoredId, h]
        exact ⟨fun h ha j hj => by cases hj; exact h ha, fun h ha => h ha i rfl⟩)
  | .forking | .waiting _ _ | .returned _ => isTrue fun _ i hi => by rw [h] at hi; cases hi

/-- The tests of the program, and two children. -/
def twoChildren : Config where
  childNum := 2
  cases := ["shared memory test", "anonymous clean", "anonymous dirty", "anonymous dirty unmap",
    "anonymous dirty mlocked", "file clean", "file dirty", "file clean mlocked",
    "file dirty mlocked"].map String.toList
  tShm := some 0
  pid := fun i => i + 2
  cases_ne := List.cons_ne_nil _ _

/-- Both children run to their end before the parent looks at them. -/
theorem report_truthful_late : ∃ s,
    Reaches (step twoChildren) (ReadsStoredId twoChildren) (init twoChildren) s ∧
      s.parent = .returned 0 ∧ Truthful twoChildren s := by
  have hrun : (run (step twoChildren) (ReadsStoredId twoChildren) (init twoChildren)
      (List.replicate 2 .parent ++ List.replicate 17 (.child 0 false) ++
        List.replicate 4 (.child 1 false) ++ List.replicate 6 .parent)).map (·.parent) =
          some (.returned 0) := by decide +kernel
  obtain ⟨s, hs, hend⟩ := exists_reaches hrun
  exact ⟨s, hs, hend, report_truthful hs⟩

/-- The parent reads the id of the second child before that one has stored it. -/
theorem report_names_wrong_test : ∃ s,
    Reaches (step twoChildren) (fun _ _ => True) (init twoChildren) s ∧
      Line.instance 1 3 true "shared memory test".toList ∈ s.lines ∧
      (s.child 1).stored = true ∧
      "shared memory test".toList ≠ twoChildren.caseName (1 % twoChildren.testTypes) := by
  have hrun : (run (step twoChildren) (fun _ _ => True) (init twoChildren)
      (List.replicate 4 .parent ++ List.replicate 17 (.child 0 false) ++ List.replicate 2 .parent ++
        List.replicate 4 (.child 1 false) ++ List.replicate 2 .parent)).map
          (fun s => ((s.child 1).stored, s.lines)) =
      some (true, [.instance 0 2 true "shared memory test".toList,
        .instance 1 3 true "shared memory test".toList, .passed]) := by decide +kernel
  obtain ⟨s, hs, hend⟩ := exists_reaches hrun
  simp only [Prod.mk.injEq] at hend
  obtain ⟨hstored, hlines⟩ := hend
  refine ⟨s, hs, ?_, hstored, by decide +kernel⟩
  rw [hlines]
  exact .tail _ (.head _)

end MceTest.PagePoisoning

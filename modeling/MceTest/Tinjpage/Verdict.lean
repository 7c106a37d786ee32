import MceTest.Tinjpage.Parent
import MceTest.Tinjpage.Children

/-! Which failures reach the exit status of `tinjpage`. -/

namespace MceTest.Tinjpage

open MceTest.Library.Transition

section

variable {cases : List Testcase} {s s' : State}

theorem step_inv {a : Action} (hs : Inv s) (hnoticed : Noticed s a)
    (h : step cases s a = some s') : Inv s' := by
  obtain ⟨hlost, hjump⟩ := hnoticed
  cases a with
  | own p k =>
    cases Nat.eq_zero_or_pos p with
    | inl hzero =>
      subst hzero
      exact ownStep_main hs h
    | inr hpos => exact ownStep_child hs hpos hlost h
  | signal p si dumped =>
    cases Nat.eq_zero_or_pos p with
    | inl hzero =>
      subst hzero
      exact signalStep_main hs hjump h
    | inr hpos => exact signalStep_child hs hpos hlost hjump h
  | kill p dumped =>
    cases Nat.eq_zero_or_pos p with
    | inl hzero =>
      subst hzero
      exact killStep_main hs h
    | inr hpos => exact killStep_child hs hpos h

/-- In every run in which no failure gets lost, the status 0 is sound. -/
theorem status_sound (h : Reaches (step cases) Noticed (init cases) s) : Sound s :=
  (h.invariant (init_inv cases) fun _ _ _ hs hnoticed hstep => step_inv hs hnoticed hstep).sound

end

def mmapOnly : List Testcase := [{ f := mmapShared, name := "mmap shared".toList }]

/-- The late phase over `mmapOnly`: the child poisons the page and accesses it, then the
main program gets its signal. -/
def latePhase (childAccess : Action) : List Action :=
  [.own 0 .ok, .own 0 .ok, .own 0 .ok] ++
    [.own 1 .ok, .own 1 .ok, .own 1 .ok, .own 1 .ok, childAccess, .own 1 .ok] ++
    [.own 0 .ok, .own 0 .ok, .own 0 .ok, .signal 0 ⟨4, true⟩ false, .own 0 .ok, .own 0 .ok,
      .own 0 .ok]

/-- Both children of the suicide phase die at their access. -/
def suicidePhase : List Action :=
  [.own 0 .ok, .own 2 .ok, .own 2 .ok, .own 2 .ok, .own 2 .ok] ++
    [.own 3 .ok, .own 3 .ok, .own 3 .ok, .own 3 .ok, .signal 3 ⟨4, true⟩ false] ++
    [.own 2 .ok, .own 2 .ok, .signal 2 ⟨4, true⟩ true, .own 0 .ok, .own 0 .ok]

/-- The poisoning reaches the child and the main program, which sleeps. -/
def earlyPhase : List Action :=
  [.own 0 .ok, .own 0 .ok, .own 0 .ok, .own 0 .ok] ++
    [.own 4 .ok, .own 4 .ok, .own 4 .ok, .signal 4 ⟨5, true⟩ false, .signal 0 ⟨5, true⟩ false] ++
    [.own 4 .ok, .signal 4 ⟨4, true⟩ false, .own 4 .ok] ++
    [.own 0 .ok, .own 0 .ok, .own 0 .ok, .own 0 .ok]

theorem status_sound_mmap : ∃ s, Reaches (step mmapOnly) Noticed (init mmapOnly) s ∧
    (s.proc 0).ctl = .returned 0 ∧ Sound s := by
  have hrun : (run (step mmapOnly) Noticed (init mmapOnly)
      (latePhase (.signal 1 ⟨4, true⟩ false) ++ suicidePhase ++ earlyPhase)).map
        (fun s => (s.proc 0).ctl) = some (.returned 0) := by decide +kernel
  obtain ⟨s, hreaches, hreturned⟩ := exists_reaches hrun
  exact ⟨s, hreaches, hreturned, status_sound hreaches⟩

/-- The first child finds the page not poisoned and exits with 1, and the main program
prints SUCCESS. -/
theorem status_lost :
    ∃ s, Reaches (step mmapOnly) (fun _ _ => True) (init mmapOnly) s ∧ ¬ Sound s := by
  have hrun : (run (step mmapOnly) (fun _ _ => True) (init mmapOnly)
      (latePhase (.own 1 .ok) ++ suicidePhase ++ earlyPhase)).map
        (fun s => ((s.proc 0).ctl, s.count, (s.proc 1).failed)) =
      some (.returned 0, 5, true) := by decide +kernel
  obtain ⟨s, hreaches, hend⟩ := exists_reaches hrun
  obtain ⟨hreturned, hcount, hfailed⟩ : (s.proc 0).ctl = .returned 0 ∧ s.count = 5 ∧
      (s.proc 1).failed = true := by simpa using hend
  refine ⟨s, hreaches, fun hsound => ?_⟩
  have hquiet := (hsound hreturned 1 (by omega)).1
  exact absurd (hfailed.symm.trans hquiet) (by decide)

end MceTest.Tinjpage

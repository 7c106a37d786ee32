import MceTest.Library.Transition
import MceTest.Library.Shell
import Mathlib.Logic.Function.Basic

/-! The processes of `page-poisoning.c`: the parent that forks the children and collects
their results, and the children with the shared memory and the semaphores they use. -/

namespace MceTest.PagePoisoning

open MceTest.Library.Transition MceTest.Library.Shell

/-- The names of `cases`, the index `t_shm` of the shared memory test (-1 if there is
none), and the process ids that `fork` returns. -/
structure Config where
  childNum : Nat
  cases : List Word
  tShm : Option Nat
  pid : Nat → Nat
  cases_ne : cases ≠ []

def Config.testTypes (cfg : Config) : Nat := cfg.cases.length

def Config.caseName (cfg : Config) (t : Nat) : Word := cfg.cases.getD t []

/-- `shm_child_num` of `setup_ipc`. -/
def Config.shmChildNum (cfg : Config) : Nat :=
  match cfg.tShm with
  | none => 0
  | some t =>
    if (cfg.childNum - 1) % cfg.testTypes ≥ t then (cfg.childNum - 1) / cfg.testTypes + 1
    else (cfg.childNum - 1) / cfg.testTypes

/-- The child runs `shm_test`. -/
def Config.IsShm (cfg : Config) (i : Nat) : Prop := cfg.tShm = some (i % cfg.testTypes)

instance (cfg : Config) : DecidablePred cfg.IsShm :=
  fun i => inferInstanceAs (Decidable (cfg.tShm = some (i % cfg.testTypes)))

/-- Where a child is.  `body` is a test without semaphores, from the store of its id to
its end; the ended ones remember whether they stored their id and `TEST_PASS`. -/
inductive Pc
  | unborn | start | body
  | request1 | checkReady | getSegment | setReady | attach | writePid | release1
  | decrement | waitZero
  | request2 | checkDone | setDone | testmem | recover | release2
  | storeResult
  | leave (stored : Bool)
  | exited (named stored : Bool)
  | killed (named stored : Bool)
  deriving DecidableEq

/-- The child has stored its `testid`. -/
def Pc.named : Pc → Bool
  | .unborn | .start => false
  | .exited named _ | .killed named _ => named
  | _ => true

/-- The child has stored `TEST_PASS`. -/
def Pc.stored : Pc → Bool
  | .leave stored | .exited _ stored | .killed _ stored => stored
  | _ => false

def Pc.terminated : Pc → Bool
  | .exited _ _ | .killed _ _ => true
  | _ => false

/-- An element of `ipc->test`; the result is `TEST_PASS` or `TEST_FAIL`. -/
structure Test where
  id : Nat := 0
  pass : Bool := false
  deriving DecidableEq

structure Shm where
  id : Option Nat := none
  ready : Bool := false
  done : Bool := false
  deriving DecidableEq

inductive Parent
  | forking
  | reading (i : Nat)
  | waiting (i t : Nat)
  | returned (rc : Nat)
  deriving DecidableEq

inductive Line
  | instance (i pid : Nat) (pass : Bool) (name : Word)
  | passed
  | failed (failures : Nat)
  deriving DecidableEq

inductive Call
  | testmem | recover
  deriving DecidableEq

/-- The parent with its `failure` counter and result lines, the children, the segment
`ipc`, the two semaphores and the data segments with what was last written to each. -/
structure State where
  parent : Parent := .forking
  instances : Nat := 0
  failures : Nat := 0
  lines : List Line := []
  child : Nat → Pc := fun _ => .unborn
  failure : Nat → Nat := fun _ => 0
  shmptr : Nat → Option Nat := fun _ => none
  test : Nat → Test := fun _ => {}
  shm : Shm := {}
  sem0 : Nat := 1
  sem1 : Nat
  segments : List Nat := []
  calls : List (Nat × Call) := []

/-- The state `setup_ipc` leaves. -/
def init (cfg : Config) : State := { sem1 := cfg.shmChildNum }

def State.goto (s : State) (i : Nat) (pc : Pc) : State :=
  { s with child := Function.update s.child i pc }

def State.call (s : State) (i : Nat) (call : Call) : State :=
  { s with calls := s.calls ++ [(i, call)] }

def State.report (s : State) (i : Nat) (fails : Bool) : State :=
  { s with failure := Function.update s.failure i (s.failure i + if fails then 1 else 0) }

/-- The next step of a child; a semaphore operation that blocks is no step. -/
def childStep (cfg : Config) (s : State) (i : Nat) (fails : Bool) : Option State :=
  match s.child i with
  | .start =>
    let s := s.goto i (if cfg.IsShm i then .request1 else .body)
    some { s with
      test := Function.update s.test i { s.test i with id := i % cfg.testTypes } }
  | .body => some ((s.report i fails).goto i .storeResult)
  | .request1 =>
    if s.sem0 = 0 then none else some { s.goto i .checkReady with sem0 := s.sem0 - 1 }
  | .checkReady => some (s.goto i (if s.shm.ready then .attach else .getSegment))
  | .getSegment =>
    some { s.goto i .setReady with
      shm := { s.shm with id := some s.segments.length }
      segments := s.segments ++ [0] }
  | .setReady => some { s.goto i .attach with shm := { s.shm with ready := true } }
  | .attach =>
    some { s.goto i .writePid with shmptr := Function.update s.shmptr i s.shm.id }
  | .writePid =>
    some { s.goto i .release1 with
      segments := match s.shmptr i with
        | some id => s.segments.set id (cfg.pid i)
        | none => s.segments }
  | .release1 => some { s.goto i .decrement with sem0 := s.sem0 + 1 }
  | .decrement =>
    if s.sem1 = 0 then none else some { s.goto i .waitZero with sem1 := s.sem1 - 1 }
  | .waitZero => if s.sem1 = 0 then some (s.goto i .request2) else none
  | .request2 =>
    if s.sem0 = 0 then none else some { s.goto i .checkDone with sem0 := s.sem0 - 1 }
  | .checkDone =>
    if s.shm.done then some ((s.call i .recover).goto i .recover) else some (s.goto i .setDone)
  | .setDone =>
    some { (s.call i .testmem).goto i .testmem with shm := { s.shm with done := true } }
  | .testmem => some ((s.report i fails).goto i .release2)
  | .recover => some ((s.report i fails).goto i .release2)
  | .release2 => some { s.goto i .storeResult with sem0 := s.sem0 + 1 }
  | .storeResult =>
    if s.failure i = 0 then
      some { s.goto i (.leave true) with
        test := Function.update s.test i { s.test i with pass := true } }
    else some (s.goto i (.leave false))
  | .leave stored => some (s.goto i (.exited true stored))
  | .unborn | .exited _ _ | .killed _ _ => none

/-- The next step of the parent; `waitid` waits until the child has terminated. -/
def parentStep (cfg : Config) (s : State) : Option State :=
  match s.parent with
  | .forking =>
    if s.instances < cfg.childNum then
      some { s.goto s.instances .start with instances := s.instances + 1 }
    else some { s with parent := .reading 0 }
  | .reading i =>
    if i < s.instances then some { s with parent := .waiting i (s.test i).id }
    else if s.failures = 0 then
      some { s with parent := .returned 0, lines := s.lines ++ [.passed] }
    else some { s with parent := .returned 1, lines := s.lines ++ [.failed s.failures] }
  | .waiting i t =>
    if (s.child i).terminated then
      some { s with
        parent := .reading (i + 1)
        lines := s.lines ++ [.instance i (cfg.pid i) (s.test i).pass (cfg.caseName t)]
        failures := s.failures + if (s.test i).pass then 0 else 1 }
    else none
  | .returned _ => none

/-- A step of the parent or of a child, a child that leaves through `exit`, or one that
the kernel kills. -/
inductive Action
  | parent
  | child (i : Nat) (fails : Bool)
  | quit (i : Nat)
  | kill (i : Nat)
  deriving DecidableEq

/-- The child ends before its end; the kernel undoes none of its semaphore operations. -/
def endChild (s : State) (i : Nat) (ended : Bool → Bool → Pc) : Option State :=
  match s.child i with
  | .unborn | .exited _ _ | .killed _ _ => none
  | pc => some (s.goto i (ended pc.named pc.stored))

def step (cfg : Config) (s : State) : Action → Option State
  | .parent => parentStep cfg s
  | .child i fails => childStep cfg s i fails
  | .quit i => endChild s i .exited
  | .kill i => endChild s i .killed

variable {cfg : Config} {s s' : State} {child : Nat → Pc} {i : Nat} {pc : Pc} {fails : Bool}

theorem update_keep {f : Pc → Bool} (h : f pc = f (child i)) (j : Nat) :
    f (Function.update child i pc j) = true ↔ f (child j) = true := by
  by_cases hj : j = i
  · rw [hj, Function.update_self, h]
  · rw [Function.update_of_ne hj]

theorem update_others (f : Pc → Bool) (j : Nat) (hj : j ≠ i) :
    f (Function.update child i pc j) = true ↔ f (child j) = true := by
  rw [Function.update_of_ne hj]

theorem update_all {P : Nat → Pc → Prop} (h : ∀ j, P j (child j)) (hi : P i pc) (j : Nat) :
    P j (Function.update child i pc j) := by
  by_cases hj : j = i
  · rw [hj, Function.update_self]
    exact hi
  · rw [Function.update_of_ne hj]
    exact h j

def Pc.born : Pc → Bool
  | .unborn => false
  | _ => true

structure Forked (cfg : Config) (s : State) : Prop where
  born : ∀ i, (s.child i).born = true ↔ i < s.instances
  bound : s.instances ≤ cfg.childNum
  forking : s.instances < cfg.childNum → s.parent = .forking

theorem init_forked : Forked cfg (init cfg) where
  born := by simp [init, Pc.born]
  bound := Nat.zero_le _
  forking := fun _ => rfl

theorem Forked.unborn (hs : Forked cfg s) (hi : s.instances ≤ i) : s.child i = .unborn := by
  have hborn : ¬ (s.child i).born = true := fun h => Nat.not_lt_of_le hi ((hs.born i).mp h)
  cases hpc : s.child i
  all_goals first
    | rfl
    | exact absurd (by rw [hpc]; rfl) hborn

theorem Forked.collecting (hs : Forked cfg s) (hp : s.parent ≠ .forking) :
    s.instances = cfg.childNum :=
  Nat.le_antisymm hs.bound (Nat.le_of_not_lt fun hlt => hp (hs.forking hlt))

theorem parentStep_cases (h : parentStep cfg s = some s') :
    (s.parent = .forking ∧ s.instances < cfg.childNum ∧
      s' = { s.goto s.instances .start with instances := s.instances + 1 }) ∨
    ∃ parent lines failures, s' = { s with parent, lines, failures } ∧
      (s.parent = .forking → cfg.childNum ≤ s.instances) ∧
      ∀ i t, parent = .waiting i t → i < s.instances := by
  unfold parentStep at h
  split at h
  · rename_i hp
    split at h
    · rename_i hlt
      cases h
      exact .inl ⟨hp, hlt, rfl⟩
    · rename_i hge
      cases h
      exact .inr ⟨_, _, _, rfl, fun _ => Nat.le_of_not_lt hge, fun _ _ h => by cases h⟩
  · rename_i hp
    have hnot : s.parent = .forking → cfg.childNum ≤ s.instances := by simp [hp]
    split at h
    · rename_i hlt
      cases h
      exact .inr ⟨_, _, _, rfl, hnot, fun _ _ h => by cases h; exact hlt⟩
    · split at h
      all_goals
        cases h
        exact .inr ⟨_, _, _, rfl, hnot, fun _ _ h => by cases h⟩
  · rename_i hp
    split at h
    · cases h
      exact .inr ⟨_, _, _, rfl, by simp [hp], fun _ _ h => by cases h⟩
    · cases h
  · cases h

theorem parentStep_forked (hs : Forked cfg s) (h : parentStep cfg s = some s') :
    Forked cfg s' := by
  rcases parentStep_cases h with ⟨hp, hlt, rfl⟩ | ⟨parent, lines, failures, rfl, hfull, -⟩
  · refine ⟨fun j => ?_, hlt, fun _ => hp⟩
    change (Function.update s.child s.instances .start j).born = true ↔ j < s.instances + 1
    by_cases hj : j = s.instances
    · rw [hj, Function.update_self]
      exact iff_of_true rfl (Nat.lt_succ_self _)
    · rw [Function.update_of_ne hj, hs.born j]
      omega
  · refine ⟨hs.born, hs.bound, fun hlt => ?_⟩
    exact absurd (hfull (hs.forking hlt)) (Nat.not_le_of_lt hlt)

structure Frame (s s' : State) (i : Nat) : Prop where
  parent : s'.parent = s.parent
  instances : s'.instances = s.instances
  failures : s'.failures = s.failures
  lines : s'.lines = s.lines
  child : ∀ j, j ≠ i → s'.child j = s.child j
  alive : (s.child i).terminated = false
  born : (s'.child i).born = (s.child i).born

theorem Frame.forked (h : Frame s s' i) (hs : Forked cfg s) : Forked cfg s' where
  born := by
    intro j
    rw [h.instances, ← hs.born j]
    by_cases hj : j = i
    · rw [hj, h.born]
    · rw [h.child j hj]
  bound := h.instances ▸ hs.bound
  forking := by
    rw [h.instances, h.parent]
    exact hs.forking

theorem childStep_frame (h : childStep cfg s i fails = some s') : Frame s s' i := by
  have hothers (pc : Pc) (j : Nat) (hj : j ≠ i) : Function.update s.child i pc j = s.child j :=
    Function.update_of_ne hj ..
  have hself (pc : Pc) (hpc : pc.born = (s.child i).born) :
      (Function.update s.child i pc i).born = (s.child i).born := by
    rw [Function.update_self, hpc]
  cases hpc : s.child i
  all_goals simp only [childStep, hpc, reduceCtorEq, Option.ite_none_left_eq_some,
    Option.ite_none_right_eq_some, Option.some.injEq] at h
  case checkDone | storeResult =>
    split at h
    all_goals
      cases h
      exact ⟨rfl, rfl, rfl, rfl, hothers _, by rw [hpc]; rfl, hself _ (by rw [hpc]; rfl)⟩
  case request1 | request2 | decrement | waitZero =>
    obtain ⟨-, rfl⟩ := h
    exact ⟨rfl, rfl, rfl, rfl, hothers _, by rw [hpc]; rfl, hself _ (by rw [hpc]; rfl)⟩
  case start | checkReady =>
    subst h
    exact ⟨rfl, rfl, rfl, rfl, hothers _, by rw [hpc]; rfl,
      hself _ (by rw [hpc]; split <;> rfl)⟩
  all_goals
    subst h
    exact ⟨rfl, rfl, rfl, rfl, hothers _, by rw [hpc]; rfl, hself _ (by rw [hpc]; rfl)⟩

theorem endChild_eq {ended : Bool → Bool → Pc} (h : endChild s i ended = some s') :
    s' = s.goto i (ended (s.child i).named (s.child i).stored) ∧
      (s.child i).terminated = false ∧ (s.child i).born = true := by
  unfold endChild at h
  cases hpc : s.child i
  all_goals
    rw [hpc] at h
    first
    | cases h; done
    | exact ⟨(Option.some.inj h).symm, rfl, rfl⟩

theorem endChild_frame {ended : Bool → Bool → Pc}
    (hborn : ∀ named stored, (ended named stored).born = true)
    (h : endChild s i ended = some s') : Frame s s' i := by
  obtain ⟨rfl, halive, hi⟩ := endChild_eq h
  refine ⟨rfl, rfl, rfl, rfl, fun j hj => Function.update_of_ne hj .., halive, ?_⟩
  change (Function.update s.child i _ i).born = _
  rw [Function.update_self, hborn, hi]

end MceTest.PagePoisoning

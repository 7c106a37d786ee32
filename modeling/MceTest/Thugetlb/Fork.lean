import MceTest.Library.SemUndo
import MceTest.Library.Transition

/-! Parent and child of `thugetlb -F`, and the order they mean to keep. System calls succeed. -/

namespace MceTest.Thugetlb.Fork

open MceTest.Library.SemUndo MceTest.Library.Transition

/-- Whether the parent injects, and the number of accesses of the child: none without `-c`. -/
structure Config where
  injects : Bool
  accesses : Nat

inductive Parent
  | setup | getFirst | accessing | forking | getCow | injecting | putBack | accessingAgain
  | waiting | removing | cleanout | exited
  deriving DecidableEq

inductive Child
  | unborn
  | cow (left : Nat)
  | putFirst | sleeping | getAgain | putAgain | leaving | exited
  deriving DecidableEq

inductive Process
  | parent | child
  deriving DecidableEq

structure State where
  parent : Parent
  child : Child
  sem : Sem Process
  madvised : Bool

def init : State where
  parent := .setup
  child := .unborn
  sem := .set 0
  madvised := false

def parentStep (cfg : Config) (s : State) : Option State :=
  match s.parent with
  | .setup => some { s with parent := .getFirst, sem := .set 1 }
  | .getFirst => (s.sem.get .parent).map fun sem => { s with parent := .accessing, sem }
  | .accessing => some { s with parent := .forking }
  | .forking => some { s with parent := .getCow, child := .cow cfg.accesses }
  | .getCow => (s.sem.get .parent).map fun sem => { s with parent := .injecting, sem }
  | .injecting => some { s with parent := .putBack, madvised := cfg.injects }
  | .putBack => some { s with parent := .accessingAgain, sem := s.sem.put .parent }
  | .accessingAgain => some { s with parent := .waiting }
  | .waiting => if s.child = .exited then some { s with parent := .removing } else none
  | .removing => some { s with parent := .cleanout }
  | .cleanout => some { s with parent := .exited }
  | .exited => none

def childStep (s : State) : Option State :=
  match s.child with
  | .unborn => none
  | .cow (left + 1) => some { s with child := .cow left }
  | .cow 0 => some { s with child := .putFirst }
  | .putFirst => some { s with child := .sleeping, sem := s.sem.put .child }
  | .sleeping => some { s with child := .getAgain }
  | .getAgain => (s.sem.get .child).map fun sem => { s with child := .putAgain, sem }
  | .putAgain => some { s with child := .leaving, sem := s.sem.put .child }
  | .leaving => some { s with child := .exited, sem := s.sem.leave .child }
  | .exited => none

def step (cfg : Config) (s : State) : Process → Option State
  | .parent => parentStep cfg s
  | .child => childStep s

@[simp] def Child.copying : Child → Bool
  | .unborn | .cow _ => true
  | _ => false

@[simp] def Child.announced : Child → Bool
  | .unborn | .cow _ | .putFirst => false
  | _ => true

@[simp] def Child.again : Child → Bool
  | .putAgain | .leaving | .exited => true
  | _ => false

@[simp] def Parent.alone : Parent → Bool
  | .setup | .getFirst | .accessing | .forking => true
  | _ => false

/-- The parent is not yet behind its second `get_semaphore`. -/
@[simp] def Parent.before : Parent → Bool
  | .setup | .getFirst | .accessing | .forking | .getCow => true
  | _ => false

/-- The parent has the semaphore, from its second `get_semaphore` on. -/
@[simp] def Parent.holds : Parent → Bool
  | .injecting | .putBack => true
  | _ => false

/-- The intended order: the child copies, the parent calls `madvise`, the child leaves. -/
structure Ordered (s : State) : Prop where
  copied : s.madvised = true → s.child.copying = false
  left : s.child = .exited → s.madvised = true

/-- The child takes the semaphore back only when the parent has had it. -/
def InTurn (s : State) : Process → Prop
  | .parent => True
  | .child => s.child = .getAgain → s.parent.before = false

instance : ∀ s a, Decidable (InTurn s a)
  | _, .parent => isTrue trivial
  | s, .child => inferInstanceAs (Decidable (s.child = .getAgain → s.parent.before = false))

variable {cfg : Config} {s s' : State}

/-- What holds in every run: the parent gets past its second `get_semaphore` only after the
child's first `put_semaphore`. -/
structure Inv (s : State) : Prop where
  first : s.parent = .getFirst → s.sem.value = 1
  alone : s.parent.alone = true → s.child = .unborn
  taken : s.parent ∈ [Parent.accessing, .forking, .getCow] → s.child.announced = false →
    s.sem.value = 0
  passed : s.parent.before = false → s.child.announced = true
  quiet : s.parent.before = true → s.madvised = false

theorem init_inv : Inv init where
  first := fun h => by cases h
  alone := fun _ => rfl
  taken := fun h => absurd h (by decide)
  passed := fun h => by cases h
  quiet := fun _ => rfl

theorem parentStep_inv (hs : Inv s) (h : parentStep cfg s = some s') : Inv s' := by
  obtain ⟨hfirst, halone, htaken, hpassed, hquiet⟩ := hs
  cases hp : s.parent
  case getFirst | getCow =>
    simp only [parentStep, hp] at h
    obtain ⟨sem, hsem, rfl⟩ := Option.map_eq_some_iff.mp h
    have hvalue := Sem.get_some hsem
    constructor <;> simp_all
  case waiting =>
    simp only [parentStep, hp] at h
    split at h <;> cases h
    constructor <;> simp_all
  all_goals
    simp only [parentStep, hp, Option.some.injEq, reduceCtorEq] at h
  all_goals
    subst h
    constructor <;> simp_all [Sem.set]

/-- A step of the child leaves the parent alone; before its first `put_semaphore` it leaves the
semaphore alone too. -/
structure Frame (s s' : State) : Prop where
  parent : s'.parent = s.parent
  madvised : s'.madvised = s.madvised
  born : s.child ≠ .unborn
  early : s'.child.announced = false → s.child.announced = false ∧ s'.sem = s.sem

theorem childStep_frame (h : childStep s = some s') : Frame s s' := by
  cases hc : s.child
  case cow left =>
    cases left
    all_goals
      simp only [childStep, hc, Option.some.injEq] at h
      subst h
      exact ⟨rfl, rfl, by simp [hc], fun _ => ⟨by simp [hc], rfl⟩⟩
  case getAgain =>
    simp only [childStep, hc] at h
    obtain ⟨sem, -, rfl⟩ := Option.map_eq_some_iff.mp h
    exact ⟨rfl, rfl, by simp [hc], by simp⟩
  all_goals
    simp only [childStep, hc, Option.some.injEq, reduceCtorEq] at h
  all_goals
    subst h
    exact ⟨rfl, rfl, by simp [hc], by simp⟩

theorem childStep_inv (hs : Inv s) (h : childStep s = some s') : Inv s' := by
  have hframe := childStep_frame h
  have hparent := hframe.parent
  have hborn : s.parent.alone = false :=
    Bool.eq_false_iff.mpr fun halone => hframe.born (hs.alone halone)
  constructor
  · intro hfirst
    rw [hparent] at hfirst
    rw [hfirst] at hborn
    cases hborn
  · intro halone
    rw [hparent, hborn] at halone
    cases halone
  · intro htaken hearly
    obtain ⟨hearly, hsem⟩ := hframe.early hearly
    rw [hsem]
    exact hs.taken (hparent ▸ htaken) hearly
  · intro hpassed
    by_contra hearly
    have hannounced := hs.passed (hparent ▸ hpassed)
    rw [(hframe.early (Bool.eq_false_iff.mpr hearly)).1] at hannounced
    cases hannounced
  · intro hbefore
    rw [hframe.madvised]
    exact hs.quiet (hparent ▸ hbefore)

theorem step_inv {a : Process} (hs : Inv s) (h : step cfg s a = some s') : Inv s' := by
  cases a with
  | parent => exact parentStep_inv hs h
  | child => exact childStep_inv hs h

/-- What holds when the child does not overtake: the semaphore is there for the parent, which
keeps it until it has called `madvise`. -/
structure Turns (cfg : Config) (s : State) : Prop where
  ready : s.parent = .getCow → s.child.announced = true → s.sem.value = 1
  held : s.parent.holds = true → s.sem.value = 0
  again : s.child.again = true → s.parent.before = false ∧ s.parent.holds = false
  done : s.parent.before = false → s.parent ≠ .injecting → s.madvised = cfg.injects

theorem init_turns : Turns cfg init where
  ready := fun h => by cases h
  held := fun h => by cases h
  again := fun h => by cases h
  done := fun h => by cases h

theorem parentStep_turns (hs : Turns cfg s) (hinv : Inv s) (h : parentStep cfg s = some s') :
    Turns cfg s' := by
  obtain ⟨hfirst, halone, htaken, hpassed, hquiet⟩ := hinv
  obtain ⟨hready, hheld, hagain, hdone⟩ := hs
  cases hp : s.parent
  case getFirst | getCow =>
    simp only [parentStep, hp] at h
    obtain ⟨sem, hsem, rfl⟩ := Option.map_eq_some_iff.mp h
    have hvalue := Sem.get_some hsem
    constructor <;> simp_all
  case waiting =>
    simp only [parentStep, hp] at h
    split at h <;> cases h
    constructor <;> simp_all
  all_goals
    simp only [parentStep, hp, Option.some.injEq, reduceCtorEq] at h
  all_goals
    subst h
    constructor <;> simp_all

theorem childStep_turns (hs : Turns cfg s) (hinv : Inv s) (hturn : InTurn s .child)
    (h : childStep s = some s') : Turns cfg s' := by
  obtain ⟨-, -, htaken, hpassed, -⟩ := hinv
  obtain ⟨hready, hheld, hagain, hdone⟩ := hs
  have hholds : s.parent.holds = true → s.parent.before = false := by
    cases s.parent <;> simp
  have hcow : s.parent.before = false → s.parent ≠ .getCow := by
    intro hbefore hp
    rw [hp] at hbefore
    cases hbefore
  cases hc : s.child
  case cow left =>
    cases left
    all_goals
      simp only [childStep, hc, Option.some.injEq] at h
      subst h
      constructor <;> simp_all
  case putFirst =>
    simp only [childStep, hc, Option.some.injEq] at h
    subst h
    have hfree : s.parent.holds = false := Bool.eq_false_iff.mpr fun hp => by
      have hannounced := hpassed (hholds hp)
      rw [hc] at hannounced
      cases hannounced
    constructor <;> simp_all [Sem.put]
  case getAgain =>
    simp only [childStep, hc] at h
    obtain ⟨sem, hsem, rfl⟩ := Option.map_eq_some_iff.mp h
    have hvalue := Sem.get_some hsem
    have hbefore : s.parent.before = false := hturn hc
    have hfree : s.parent.holds = false := Bool.eq_false_iff.mpr fun hp => by
      rw [hheld hp] at hvalue
      cases hvalue
    exact ⟨fun hp => absurd hp (hcow hbefore), fun hp => absurd (hfree.symm.trans hp) (by decide),
      fun _ => ⟨hbefore, hfree⟩, hdone⟩
  case putAgain | leaving =>
    simp only [childStep, hc, Option.some.injEq] at h
    subst h
    obtain ⟨hbefore, hfree⟩ := hagain (by rw [hc]; rfl)
    exact ⟨fun hp => absurd hp (hcow hbefore), fun hp => absurd (hfree.symm.trans hp) (by decide),
      fun _ => ⟨hbefore, hfree⟩, hdone⟩
  all_goals
    simp only [childStep, hc, Option.some.injEq, reduceCtorEq] at h
  all_goals
    subst h
    constructor <;> simp_all

theorem Turns.ordered (hs : Turns cfg s) (hinv : Inv s) (hinjects : cfg.injects = true) :
    Ordered s := by
  constructor
  · intro hmadvised
    have hbefore : s.parent.before = false := Bool.eq_false_iff.mpr fun hbefore => by
      rw [hinv.quiet hbefore] at hmadvised
      cases hmadvised
    have hannounced := hinv.passed hbefore
    cases hc : s.child
    case unborn | cow =>
      rw [hc] at hannounced
      cases hannounced
    all_goals rfl
  · intro hleft
    obtain ⟨hbefore, hholds⟩ := hs.again (by rw [hleft]; rfl)
    have hplace : s.parent ≠ .injecting := by
      intro hp
      rw [hp] at hholds
      cases hholds
    rw [hs.done hbefore hplace, hinjects]

/-- In every run in which the parent injects and the child takes the semaphore back only after
the parent has had it, the intended order is kept. -/
theorem fork_ordered (hinjects : cfg.injects = true)
    (h : Reaches (step cfg) InTurn init s) : Ordered s := by
  have hinv : Inv s ∧ Turns cfg s := by
    apply h.invariant ⟨init_inv, init_turns⟩
    intro t a u ht ha hstep
    refine ⟨step_inv ht.1 hstep, ?_⟩
    cases a with
    | parent => exact parentStep_turns ht.2 ht.1 hstep
    | child => exact childStep_turns ht.2 ht.1 ha hstep
  exact hinv.2.ordered hinv.1 hinjects

def withCow : Config where
  injects := true
  accesses := 3

/-- A run to the end in which the child waits for its turn. -/
theorem fork_ordered_withCow : withCow.injects = true ∧
    ∃ s, Reaches (step withCow) InTurn init s ∧ s.parent = .exited ∧ Ordered s := by
  have hrun : (run (step withCow) InTurn init
      (List.replicate 4 .parent ++ List.replicate 6 .child ++ List.replicate 3 .parent ++
        List.replicate 3 .child ++ List.replicate 4 .parent)).map State.parent =
      some .exited := by decide +kernel
  obtain ⟨s, hs, hend⟩ := exists_reaches hrun
  exact ⟨rfl, s, hs, hend, fork_ordered rfl hs⟩

/-- The child takes the semaphore back at once and leaves; what its end undoes leaves nothing for
the parent, which never comes to `madvise`. -/
theorem child_overtakes : ∃ s, Reaches (step withCow) (fun _ _ => True) init s ∧ ¬ Ordered s ∧
    ∀ a, step withCow s a = none := by
  have hrun : (run (step withCow) (fun _ _ => True) init
      (List.replicate 4 .parent ++ List.replicate 9 .child)).map
        (fun s => (s.parent, s.child, s.sem.value, s.madvised)) =
      some (.getCow, .exited, 0, false) := by decide +kernel
  obtain ⟨s, hs, hend⟩ := exists_reaches hrun
  simp only [Prod.mk.injEq] at hend
  obtain ⟨hparent, hchild, hvalue, hmadvised⟩ := hend
  refine ⟨s, hs, fun hordered => ?_, fun a => ?_⟩
  · rw [hordered.left hchild] at hmadvised
    cases hmadvised
  · cases a with
    | parent =>
      simp only [step, parentStep, hparent]
      rw [Sem.get_none.mpr hvalue, Option.map_none]
    | child => simp only [step, childStep, hchild]

end MceTest.Thugetlb.Fork

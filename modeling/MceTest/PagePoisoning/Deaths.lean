import MceTest.PagePoisoning.Protocol
import Mathlib.Algebra.Order.BigOperators.Group.Finset

/-! Children that die on the way: when the others and the parent still get to their ends. -/

namespace MceTest.PagePoisoning

open MceTest.Library.Transition MceTest.Library.Semaphore

/-- The deaths of a child that runs `shm_test`: the kernel kills it in `testmem` or `recover`,
`sighandler` or an `exit` there ends it, or it leaves through `err` because `shmget` or
`shmat` has failed. -/
def Misbehaves (cfg : Config) (s : State) : Action → Prop
  | .parent | .child _ _ => True
  | .kill i => cfg.IsShm i → s.child i = .testmem ∨ s.child i = .recover
  | .quit i => cfg.IsShm i → s.child i ∈ [Pc.testmem, .recover, .start, .getSegment, .attach]

/-- The child will not move any more although it has not ended. -/
def BlockedForever (cfg : Config) (s : State) (i : Nat) : Prop :=
  (s.child i).terminated = false ∧
    ∀ t, Reaches (step cfg) (Misbehaves cfg) s t → t.child i = s.child i

/-- No child of the shared memory test hangs, and the parent can get to its verdict. -/
structure NoHang (cfg : Config) (s : State) : Prop where
  children : ∀ i < cfg.childNum, cfg.IsShm i → ¬ BlockedForever cfg s i
  verdict : ∃ t rc, Reaches (step cfg) NoDeath s t ∧ t.parent = .returned rc

/-- Every child of the shared memory test but `i` is behind its last `release_sem`. -/
def LastOne (cfg : Config) (s : State) (i : Nat) : Prop :=
  ∀ j < cfg.childNum, cfg.IsShm j → j ≠ i → (s.child j).late = true

/-- Of the children of the shared memory test only the last one dies. -/
def Harmless (cfg : Config) (s : State) : Action → Prop
  | .parent | .child _ _ => True
  | .kill i | .quit i => cfg.IsShm i → LastOne cfg s i

instance (cfg : Config) (s : State) (i : Nat) : Decidable (LastOne cfg s i) :=
  inferInstanceAs (Decidable (∀ j < cfg.childNum, cfg.IsShm j → j ≠ i → (s.child j).late = true))

instance (cfg : Config) : ∀ s a, Decidable (Harmless cfg s a)
  | _, .parent | _, .child _ _ => isTrue trivial
  | s, .kill i | s, .quit i => inferInstanceAs (Decidable (cfg.IsShm i → LastOne cfg s i))

instance (cfg : Config) : ∀ s a, Decidable (Misbehaves cfg s a)
  | _, .parent | _, .child _ _ => isTrue trivial
  | s, .kill i =>
    inferInstanceAs (Decidable (cfg.IsShm i → s.child i = .testmem ∨ s.child i = .recover))
  | s, .quit i => inferInstanceAs (Decidable
      (cfg.IsShm i → s.child i ∈ [Pc.testmem, .recover, .start, .getSegment, .attach]))

variable {cfg : Config} {s s' : State} {i : Nat} {fails : Bool}

def AllLate (cfg : Config) (s : State) : Prop :=
  ∀ j < cfg.childNum, cfg.IsShm j → (s.child j).late = true

structure Sane (cfg : Config) (s : State) : Prop where
  forked : Forked cfg s
  kinds : Kinds cfg s.child
  waiting : ∀ i t, s.parent = .waiting i t → i < s.instances
  locks : AllLate cfg s ∨ Exclusive s.sem0 s.child ∧ Barrier cfg s.sem1 s.child

theorem init_sane : Sane cfg (init cfg) where
  forked := init_forked
  kinds := ⟨by simp [init, Pc.shmOnly, Pc.inMutex], by simp [init]⟩
  waiting := fun _ _ h => by cases h
  locks := by
    by_cases hsome : ∃ i < cfg.childNum, cfg.IsShm i
    · obtain ⟨i, hi, hshm⟩ := hsome
      have hlt : i % cfg.testTypes < cfg.testTypes :=
        Nat.mod_lt _ (List.length_pos_of_ne_nil cfg.cases_ne)
      have hinv := init_inv hshm hlt (Nat.zero_lt_of_lt hi)
      exact .inr ⟨hinv.exclusive, hinv.barrier⟩
    · exact .inl fun j hj hshm => absurd ⟨j, hj, hshm⟩ hsome

theorem goto_child (s : State) (i : Nat) (pc : Pc) : (s.goto i pc).child i = pc :=
  Function.update_self ..

theorem late_childStep (h : childStep cfg s i fails = some s') (hlate : (s.child i).late = true) :
    (s'.child i).late = true := by
  cases hpc : s.child i
  case storeResult =>
    simp only [childStep, hpc] at h
    split at h
    all_goals
      cases h
      exact congrArg Pc.late (goto_child s i _)
  case leave =>
    simp only [childStep, hpc, Option.some.injEq] at h
    subst h
    exact congrArg Pc.late (goto_child s i _)
  case exited | killed => simp only [childStep, hpc, reduceCtorEq] at h
  all_goals
    rw [hpc] at hlate
    cases hlate

theorem Frame.waiting (hframe : Frame s s' i)
    (hs : ∀ i t, s.parent = .waiting i t → i < s.instances) (j t : Nat)
    (h : s'.parent = .waiting j t) : j < s'.instances := by
  rw [hframe.instances]
  exact hs j t (hframe.parent ▸ h)

theorem Frame.allLate (hframe : Frame s s' i) (hs : AllLate cfg s)
    (hi : (s.child i).late = true → (s'.child i).late = true) : AllLate cfg s' := by
  intro j hj hshm
  by_cases hji : j = i
  · subst hji
    exact hi (hs j hj hshm)
  · rw [hframe.child j hji]
    exact hs j hj hshm

theorem childStep_sane (hs : Sane cfg s) (h : childStep cfg s i fails = some s') :
    Sane cfg s' where
  forked := (childStep_frame h).forked hs.forked
  kinds := childStep_kinds hs.kinds h
  waiting := (childStep_frame h).waiting hs.waiting
  locks := by
    rcases hs.locks with hlate | ⟨hexclusive, hbarrier⟩
    · exact .inl ((childStep_frame h).allLate hlate (late_childStep h))
    · exact .inr ⟨childStep_exclusive hexclusive h,
        childStep_barrier hs.forked hs.kinds hbarrier h⟩

theorem parentStep_sane (hs : Sane cfg s) (h : parentStep cfg s = some s') : Sane cfg s' := by
  have hforked := parentStep_forked hs.forked h
  rcases parentStep_cases h with
    ⟨hp, hlt, rfl⟩ | ⟨parent, lines, failures, rfl, -, hwaiting⟩
  · have hpc := hs.forked.unborn (Nat.le_refl s.instances)
    refine ⟨hforked, hs.kinds.move (by simp [Pc.shmOnly, Pc.inMutex]) (by simp),
      fun _ _ h => absurd (hp.symm.trans h) (by simp), ?_⟩
    rcases hs.locks with hlate | ⟨hexclusive, hbarrier⟩
    · left
      intro j hj hshm
      have hne : j ≠ s.instances := by
        rintro rfl
        have hunborn := hlate _ hj hshm
        rw [hpc] at hunborn
        cases hunborn
      change (Function.update s.child s.instances .start j).late = true
      rw [Function.update_of_ne hne]
      exact hlate j hj hshm
    · exact .inr ⟨hexclusive.move (by rw [hpc]; rfl),
        hbarrier.move (fun _ => by rw [hpc]; rfl) (by simp [Pc.passed, Pc.late])⟩
  · exact ⟨hforked, hs.kinds, hwaiting, hs.locks⟩

theorem shmOnly_of_inMutex {pc : Pc} (h : pc.inMutex = true) : pc.shmOnly = true := by
  cases pc
  all_goals first
    | rfl
    | cases h

/-- Children of other tests do not touch the semaphores, and behind the last death of a child
of the shared memory test there is none left to touch them. -/
theorem endChild_sane {ended : Bool → Bool → Pc} (hs : Sane cfg s)
    (hended : ∀ named stored, (ended named stored).born = true ∧
      (ended named stored).late = true ∧ (ended named stored).shmOnly = false)
    (hlast : cfg.IsShm i → LastOne cfg s i) (h : endChild s i ended = some s') : Sane cfg s' := by
  have hframe := endChild_frame (fun named stored => (hended named stored).1) h
  obtain ⟨rfl, -, -⟩ := endChild_eq h
  obtain ⟨-, hlate, hshmOnly⟩ := hended (s.child i).named (s.child i).stored
  set pc := ended (s.child i).named (s.child i).stored
  have hself : ((s.goto i pc).child i).late = true := by rwa [goto_child]
  refine ⟨hframe.forked hs.forked, hs.kinds.move (by simp [hshmOnly]) ?_,
    hframe.waiting hs.waiting, ?_⟩
  · intro hbody
    rw [hbody] at hlate
    cases hlate
  · by_cases hshm : cfg.IsShm i
    · left
      intro j hj hjshm
      by_cases hji : j = i
      · rw [hji]
        exact hself
      · rw [hframe.child j hji]
        exact hlast hshm j hj hjshm hji
    · rcases hs.locks with hall | ⟨hexclusive, hbarrier⟩
      · exact .inl (hframe.allLate hall fun _ => hself)
      · have hold : (s.child i).inMutex = false := Bool.eq_false_iff.mpr fun hin =>
          hshm (hs.kinds.shm i (shmOnly_of_inMutex hin))
        have hnew : pc.inMutex = false := Bool.eq_false_iff.mpr fun hin => by
          rw [shmOnly_of_inMutex hin] at hshmOnly
          cases hshmOnly
        exact .inr ⟨hexclusive.move (hnew.trans hold.symm),
          hbarrier.move (fun h => absurd h hshm) fun h => absurd h hshm⟩

theorem step_sane {a : Action} (hs : Sane cfg s) (ha : Harmless cfg s a)
    (h : step cfg s a = some s') : Sane cfg s' := by
  cases a with
  | parent => exact parentStep_sane hs h
  | child i fails => exact childStep_sane hs h
  | quit i => exact endChild_sane hs (fun _ _ => ⟨rfl, rfl, rfl⟩) ha h
  | kill i => exact endChild_sane hs (fun _ _ => ⟨rfl, rfl, rfl⟩) ha h

def Pc.rank : Pc → Nat
  | .unborn => 20
  | .start => 19
  | .body | .request1 => 18
  | .checkReady => 17
  | .getSegment => 16
  | .setReady => 15
  | .attach => 14
  | .writePid => 13
  | .release1 => 12
  | .decrement => 11
  | .waitZero => 10
  | .request2 => 9
  | .checkDone => 8
  | .setDone => 7
  | .testmem | .recover => 6
  | .release2 => 5
  | .storeResult => 4
  | .leave _ => 3
  | .exited _ _ | .killed _ _ => 0

def parentRank (cfg : Config) (s : State) : Nat :=
  match s.parent with
  | .forking => 2 * cfg.childNum + 3
  | .reading i => 2 * (s.instances - i) + 2
  | .waiting i _ => 2 * (s.instances - i) + 1
  | .returned _ => 0

def rank (cfg : Config) (s : State) : Nat :=
  (∑ i ∈ Finset.range cfg.childNum, (s.child i).rank) + parentRank cfg s

theorem rank_moved {pc : Pc} {n : Nat} (h : s'.child = Function.update s.child i pc)
    (hlt : pc.rank < n) : (s'.child i).rank < n := by
  rwa [h, Function.update_self]

theorem childStep_rank (h : childStep cfg s i fails = some s') :
    (s'.child i).rank < (s.child i).rank := by
  cases hpc : s.child i
  all_goals simp only [childStep, hpc, reduceCtorEq, Option.ite_none_left_eq_some,
    Option.ite_none_right_eq_some, Option.some.injEq] at h
  case checkDone | storeResult =>
    split at h
    all_goals
      cases h
      exact rank_moved rfl (by decide)
  case request1 | request2 | decrement | waitZero =>
    obtain ⟨-, rfl⟩ := h
    exact rank_moved rfl (by decide)
  case start | checkReady =>
    subst h
    exact rank_moved rfl (by split <;> decide)
  case leave =>
    subst h
    exact rank_moved rfl (Nat.succ_pos _)
  all_goals
    subst h
    exact rank_moved rfl (by decide)

theorem sum_rank_lt (s s' : State) (hi : i < cfg.childNum)
    (hothers : ∀ j, j ≠ i → s'.child j = s.child j)
    (hlt : (s'.child i).rank < (s.child i).rank) :
    ∑ j ∈ Finset.range cfg.childNum, (s'.child j).rank <
      ∑ j ∈ Finset.range cfg.childNum, (s.child j).rank := by
  refine Finset.sum_lt_sum (fun j _ => ?_) ⟨i, Finset.mem_range.mpr hi, hlt⟩
  by_cases hji : j = i
  · rw [hji]
    exact hlt.le
  · rw [hothers j hji]

theorem childStep_rank_lt (hs : Sane cfg s) (h : childStep cfg s i fails = some s') :
    rank cfg s' < rank cfg s := by
  have hframe := childStep_frame h
  have hborn : (s.child i).born = true := by
    cases hpc : s.child i
    case unborn => simp only [childStep, hpc, reduceCtorEq] at h
    all_goals rfl
  have hi := ((hs.forked.born i).mp hborn).trans_le hs.forked.bound
  have hparent : parentRank cfg s' = parentRank cfg s := by
    rw [parentRank, parentRank, hframe.parent, hframe.instances]
  rw [rank, rank, hparent]
  exact Nat.add_lt_add_right (sum_rank_lt s s' hi hframe.child (childStep_rank h)) _

theorem parentStep_rank_lt (hs : Sane cfg s) (h : parentStep cfg s = some s') :
    rank cfg s' < rank cfg s := by
  have hbound := hs.forked.bound
  unfold parentStep at h
  split at h
  · rename_i hp
    split at h
    · rename_i hlt
      cases h
      have hpc := hs.forked.unborn (Nat.le_refl s.instances)
      have hsum := sum_rank_lt s (s.goto s.instances .start) hlt
        (fun j hj => Function.update_of_ne hj ..) (by rw [goto_child, hpc]; decide)
      refine Nat.add_lt_add_of_lt_of_le hsum ?_
      simp only [parentRank, State.goto, hp, le_refl]
    · cases h
      refine Nat.add_lt_add_left ?_ _
      simp only [parentRank, hp]
      omega
  · rename_i i hp
    split at h
    · rename_i hlt
      cases h
      refine Nat.add_lt_add_left ?_ _
      simp only [parentRank, hp]
      omega
    · split at h
      all_goals
        cases h
        refine Nat.add_lt_add_left ?_ _
        simp only [parentRank, hp]
        omega
  · rename_i i t hp
    have hlt := hs.waiting i t hp
    split at h
    · cases h
      refine Nat.add_lt_add_left ?_ _
      simp only [parentRank, hp]
      omega
    · cases h
  · cases h

theorem noDeath_rank_lt {a : Action} (hs : Sane cfg s) (ha : NoDeath s a)
    (h : step cfg s a = some s') : Sane cfg s' ∧ rank cfg s' < rank cfg s := by
  cases a with
  | parent => exact ⟨parentStep_sane hs h, parentStep_rank_lt hs h⟩
  | child i fails => exact ⟨childStep_sane hs h, childStep_rank_lt hs h⟩
  | quit i => exact ha.elim
  | kill i => exact ha.elim

def Stuck (cfg : Config) (s : State) : Prop := ∀ a, NoDeath s a → step cfg s a = none

theorem Stuck.blocked (h : Stuck cfg s) (i : Nat) : Blocked s (s.child i) := by
  by_contra hfree
  have hstep : (childStep cfg s i false).isSome = true := childStep_isSome hfree
  rw [show childStep cfg s i false = none from h (.child i false) trivial] at hstep
  cases hstep

theorem Stuck.forked (h : Stuck cfg s) (hs : Sane cfg s) : s.instances = cfg.childNum := by
  refine Nat.le_antisymm hs.forked.bound (Nat.le_of_not_lt fun hlt => ?_)
  have hstep : parentStep cfg s = none := h .parent trivial
  rw [parentStep, hs.forked.forking hlt] at hstep
  simp only [if_pos hlt, reduceCtorEq] at hstep

/-- What keeps a child that has not ended is a semaphore, and only a child of the shared memory
test that is not behind it waits for one. -/
theorem blocked_waits {pc : Pc} (h : Blocked s pc) (hborn : pc.born = true)
    (hend : pc.terminated = false) : pc.shmOnly = true ∧ pc.late = false := by
  cases pc
  case request1 | request2 | decrement | waitZero => exact ⟨rfl, rfl⟩
  case unborn => cases hborn
  case exited | killed => cases hend
  all_goals exact h.elim

theorem Stuck.terminated (h : Stuck cfg s) (hs : Sane cfg s) (hi : i < cfg.childNum) :
    (s.child i).terminated = true := by
  have hall := h.forked hs
  cases hend : (s.child i).terminated with
  | true => rfl
  | false =>
    have hborn : (s.child i).born = true := (hs.forked.born i).mpr (hall ▸ hi)
    obtain ⟨honly, hlate⟩ := blocked_waits (h.blocked i) hborn hend
    have hshm := hs.kinds.shm i honly
    rcases hs.locks with hlocks | ⟨hexclusive, hbarrier⟩
    · rw [hlocks i hi hshm] at hlate
      cases hlate
    · obtain ⟨j, -, hfree⟩ := hbarrier.progress hs.forked hs.kinds hexclusive hall
        (mem_shmChildren.mpr ⟨hi, hshm⟩) hend
      exact absurd (h.blocked j) hfree

theorem Stuck.returned (h : Stuck cfg s) (hs : Sane cfg s) : ∃ rc, s.parent = .returned rc := by
  have hstep : parentStep cfg s = none := h .parent trivial
  unfold parentStep at hstep
  split at hstep
  · split at hstep <;> cases hstep
  · split at hstep
    · cases hstep
    · split at hstep <;> cases hstep
  · rename_i i t hp
    have hi := (hs.waiting i t hp).trans_le hs.forked.bound
    rw [if_pos (h.terminated hs hi)] at hstep
    cases hstep
  · exact ⟨_, ‹_›⟩

theorem Sane.noHang (hs : Sane cfg s) : NoHang cfg s := by
  obtain ⟨t, hreaches, hsane, hstuck⟩ := exists_stuck (rank cfg)
    (fun s a t hs ha hstep => noDeath_rank_lt hs ha hstep) hs
  constructor
  · intro i hi _ hblocked
    have hmis : Reaches (step cfg) (Misbehaves cfg) s t := hreaches.mono fun s a ha => by
      cases a with
      | parent | child => trivial
      | quit | kill => exact ha.elim
    have hend := Stuck.terminated hstuck hsane hi
    rw [hblocked.2 t hmis, hblocked.1] at hend
    cases hend
  · obtain ⟨rc, hrc⟩ := Stuck.returned hstuck hsane
    exact ⟨t, rc, hreaches, hrc⟩

/-- Nobody hangs in a run in which only the last child of the shared memory test dies. -/
theorem deaths_harmless (h : Reaches (step cfg) (Harmless cfg) (init cfg) s) : NoHang cfg s :=
  Sane.noHang (h.invariant init_sane fun _ _ _ hs ha hstep => step_sane hs ha hstep)

/-- The first child has released the mutex for the last time when the second one dies in
`recover`. -/
theorem deaths_harmless_two : ∃ s, Reaches (step twoShm) (Harmless twoShm) (init twoShm) s ∧
    (s.child 0, s.child 1) = (.exited true true, .killed true false) ∧ NoHang twoShm s := by
  have hrun : (run (step twoShm) (Harmless twoShm) (init twoShm)
      ([.parent, .parent] ++ List.replicate 9 (.child 0 false) ++
        List.replicate 7 (.child 1 false) ++ List.replicate 8 (.child 0 false) ++
        List.replicate 3 (.child 1 false) ++ [.kill 1])).map (fun s => (s.child 0, s.child 1)) =
      some (.exited true true, .killed true false) := by decide +kernel
  obtain ⟨s, hs, hend⟩ := exists_reaches hrun
  exact ⟨s, hs, hend, deaths_harmless hs⟩

/-- The first child is in `testmem` and the second at the mutex, when the kernel kills the
first. -/
def killedInTestmem : List Action :=
  [.parent, .parent] ++ List.replicate 9 (.child 0 false) ++ List.replicate 8 (.child 1 false) ++
    List.replicate 4 (.child 0 false) ++ [.kill 0]

/-- The state after that: the mutex is taken and nobody is left to release it. -/
structure Orphaned (s : State) : Prop where
  forked : Forked twoShm s
  instances : s.instances = 2
  first : s.child 0 = .killed true false
  second : s.child 1 = .request2
  mutex : s.sem0 = 0
  parent : s.parent = .forking ∨ s.parent = .reading 0 ∨ (∃ t, s.parent = .waiting 0 t) ∨
    s.parent = .reading 1 ∨ ∃ t, s.parent = .waiting 1 t

theorem Orphaned.child (hs : Orphaned s) (i : Nat) (hi : i ≠ 0) (hi' : i ≠ 1) :
    s.child i = .unborn := hs.forked.unborn (hs.instances ▸ by omega)

theorem Orphaned.parentStep (hs : Orphaned s) (h : parentStep twoShm s = some s') :
    Orphaned s' := by
  have hforked := parentStep_forked hs.forked h
  have hnum : twoShm.childNum = 2 := rfl
  rcases hs.parent with hp | hp | ⟨t, hp⟩ | hp | ⟨t, hp⟩
  all_goals
    simp only [MceTest.PagePoisoning.parentStep, hp, hnum, hs.instances, hs.first, hs.second,
      Pc.terminated, lt_irrefl, Nat.zero_lt_succ, Nat.one_lt_two, if_true, if_false,
      Option.some.injEq, Bool.false_eq_true, reduceCtorEq] at h
  all_goals
    subst h
    refine ⟨hforked, ?_, hs.first, hs.second, hs.mutex, ?_⟩
  all_goals simp

theorem Orphaned.childStep (hs : Orphaned s) (h : childStep twoShm s i fails = some s') :
    False := by
  unfold MceTest.PagePoisoning.childStep at h
  by_cases hzero : i = 0
  · simp only [hzero, hs.first, reduceCtorEq] at h
  · by_cases hone : i = 1
    · simp only [hone, hs.second, hs.mutex, if_true, reduceCtorEq] at h
    · simp only [hs.child i hzero hone, reduceCtorEq] at h

theorem Orphaned.endChild {ended : Bool → Bool → Pc} (hs : Orphaned s) (hi : i ≠ 1)
    (h : endChild s i ended = some s') : False := by
  unfold MceTest.PagePoisoning.endChild at h
  by_cases hzero : i = 0
  · simp only [hzero, hs.first, reduceCtorEq] at h
  · simp only [hs.child i hzero hi, reduceCtorEq] at h

theorem Orphaned.step {a : Action} (hs : Orphaned s) (ha : Misbehaves twoShm s a)
    (h : step twoShm s a = some s') : Orphaned s' := by
  have hshm : twoShm.IsShm 1 := by decide
  cases a with
  | parent => exact hs.parentStep h
  | child i fails => exact (hs.childStep h).elim
  | quit i =>
    have hi : i ≠ 1 := by
      rintro rfl
      have hat := ha hshm
      rw [hs.second] at hat
      exact absurd hat (by decide)
    exact (hs.endChild hi h).elim
  | kill i =>
    have hi : i ≠ 1 := by
      rintro rfl
      have hat := ha hshm
      rw [hs.second] at hat
      exact absurd hat (by decide)
    exact (hs.endChild hi h).elim

/-- The second child waits for the mutex for ever, and so does the parent for the child. -/
theorem second_blocked : ∃ s, Reaches (step twoShm) (Misbehaves twoShm) (init twoShm) s ∧
    BlockedForever twoShm s 1 ∧
    ∀ t rc, Reaches (step twoShm) (Misbehaves twoShm) s t → t.parent ≠ .returned rc := by
  have hrun : (run (step twoShm) (Misbehaves twoShm) (init twoShm) killedInTestmem).map
      (fun s => ((s.child 0, s.child 1), s.sem0, s.instances, s.parent)) =
        some ((.killed true false, .request2), 0, 2, .forking) := by decide +kernel
  obtain ⟨s, hs, hend⟩ := exists_reaches hrun
  simp only [Prod.mk.injEq] at hend
  obtain ⟨⟨hfirst, hsecond⟩, hmutex, hinstances, hparent⟩ := hend
  have hforked : Forked twoShm s := hs.invariant init_forked fun s a s' hf _ hstep => by
    cases a with
    | parent => exact parentStep_forked hf hstep
    | child i fails => exact (childStep_frame hstep).forked hf
    | quit i => exact (endChild_frame (fun _ _ => rfl) hstep).forked hf
    | kill i => exact (endChild_frame (fun _ _ => rfl) hstep).forked hf
  have hstart : Orphaned s := ⟨hforked, hinstances, hfirst, hsecond, hmutex, .inl hparent⟩
  have hlater (t : State) (ht : Reaches (step twoShm) (Misbehaves twoShm) s t) : Orphaned t :=
    ht.invariant hstart fun _ _ _ hs ha hstep => hs.step ha hstep
  refine ⟨s, hs, ⟨by rw [hsecond]; rfl, fun t ht => ?_⟩, fun t rc ht hrc => ?_⟩
  · rw [(hlater t ht).second, hsecond]
  · rcases (hlater t ht).parent with hp | hp | ⟨_, hp⟩ | hp | ⟨_, hp⟩
    all_goals
      rw [hrc] at hp
      cases hp

end MceTest.PagePoisoning

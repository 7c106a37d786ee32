import MceTest.PagePoisoning.Shm

/-! What the children that run `shm_test` guarantee in every run without deaths. -/

namespace MceTest.PagePoisoning

open MceTest.Library.Transition MceTest.Library.Semaphore

variable {cfg : Config} {s s' : State}

structure Inv (cfg : Config) (s : State) : Prop where
  forked : Forked cfg s
  kinds : Kinds cfg s.child
  exclusive : Exclusive s.sem0 s.child
  barrier : Barrier cfg s.sem1 s.child
  segment : Segment cfg s.shm s.segments s.shmptr s.child
  calls : Calls cfg s.shm.done s.calls s.child

theorem init_inv {t : Nat} (ht : cfg.tShm = some t) (hlt : t < cfg.testTypes)
    (hn : 0 < cfg.childNum) : Inv cfg (init cfg) where
  forked := init_forked
  kinds := ⟨by simp [init, Pc.shmOnly, Pc.inMutex], by simp [init]⟩
  exclusive := .inl ⟨rfl, by simp [init, Pc.inMutex]⟩
  barrier := by
    constructor
    · have hall : (shmChildren cfg).filter (fun i => ((init cfg).child i).early = true) =
          shmChildren cfg := Finset.filter_true_of_mem fun _ _ => rfl
      rw [Counts, hall]
      exact card_shmChildren ht hlt hn
    · simp [init, Pc.passed, Pc.late]
  segment := ⟨by simp [init], fun _ _ => rfl, by simp [init], by simp [init, Pc.making],
    by simp [init, Pc.pastReady, Pc.passed, Pc.late], by simp [init],
    by simp [init, Pc.attached, Pc.pastReady, Pc.passed, Pc.late]⟩
  calls := ⟨fun _ => rfl, by simp [init], by simp [init], by simp [init, Pc.called, Pc.late],
    List.nodup_nil⟩

theorem parentStep_inv (hs : Inv cfg s) (h : parentStep cfg s = some s') : Inv cfg s' := by
  have hforked := parentStep_forked hs.forked h
  rcases parentStep_cases h with ⟨-, -, rfl⟩ | ⟨parent, lines, failures, rfl, -, -⟩
  · have hpc := hs.forked.unborn (Nat.le_refl s.instances)
    refine ⟨hforked, hs.kinds.move ?_ ?_, ?_, ?_, ?_, ?_⟩
    · simp [Pc.shmOnly, Pc.inMutex]
    · simp
    · exact hs.exclusive.move (by rw [hpc]; rfl)
    · exact hs.barrier.move (fun _ => by rw [hpc]; rfl) (by simp [Pc.passed, Pc.late])
    · exact hs.segment.move (by simp [hpc]) (by simp) (by simp [Pc.making])
        (by simp [Pc.pastReady, Pc.passed, Pc.late])
        (by simp [Pc.attached, Pc.pastReady, Pc.passed, Pc.late])
    · exact hs.calls.move (by simp) fun _ => by rw [hpc]; rfl
  · exact ⟨hforked, hs.kinds, hs.exclusive, hs.barrier, hs.segment, hs.calls⟩

theorem childStep_inv {i : Nat} {fails : Bool} (hs : Inv cfg s)
    (h : childStep cfg s i fails = some s') : Inv cfg s' where
  forked := (childStep_frame h).forked hs.forked
  kinds := childStep_kinds hs.kinds h
  exclusive := childStep_exclusive hs.exclusive h
  barrier := childStep_barrier hs.forked hs.kinds hs.barrier h
  segment := childStep_segment hs.kinds hs.exclusive hs.segment h
  calls := childStep_calls hs.kinds hs.exclusive hs.calls h

/-- No child leaves before its end or is killed. -/
def NoDeath (_ : State) : Action → Prop
  | .parent | .child _ _ => True
  | .quit _ | .kill _ => False

instance : ∀ s a, Decidable (NoDeath s a)
  | _, .parent | _, .child _ _ => isTrue trivial
  | _, .quit _ | _, .kill _ => isFalse id

theorem reaches_inv {t : Nat} (ht : cfg.tShm = some t) (hlt : t < cfg.testTypes)
    (hn : 0 < cfg.childNum) (h : Reaches (step cfg) NoDeath (init cfg) s) : Inv cfg s := by
  refine h.invariant (init_inv ht hlt hn) fun s a s' hs hok hstep => ?_
  cases a with
  | parent => exact parentStep_inv hs hstep
  | child i fails => exact childStep_inv hs hstep
  | quit i => exact hok.elim
  | kill i => exact hok.elim

def Blocked (s : State) : Pc → Prop
  | .request1 | .request2 => s.sem0 = 0
  | .decrement => s.sem1 = 0
  | .waitZero => s.sem1 ≠ 0
  | .unborn | .exited _ _ | .killed _ _ => True
  | _ => False

theorem childStep_isSome {i : Nat} (h : ¬ Blocked s (s.child i)) :
    (childStep cfg s i false).isSome = true := by
  cases hpc : s.child i
  all_goals
    rw [hpc] at h
    simp only [childStep, hpc]
  case unborn | exited | killed => exact absurd trivial h
  case request1 | request2 | decrement =>
    rw [Blocked] at h
    rw [if_neg h]
    rfl
  case waitZero =>
    rw [Blocked, not_not] at h
    rw [if_pos h]
    rfl
  case checkDone | storeResult => split <;> rfl
  all_goals rfl

theorem Barrier.early_step (hs : Barrier cfg s.sem1 s.child)
    (hfree : s.sem0 = 1 ∧ ∀ i, ¬ (s.child i).inMutex = true) {i : Nat}
    (hi : i ∈ shmChildren cfg) (hborn : (s.child i).born = true)
    (hearly : (s.child i).early = true) : ¬ Blocked s (s.child i) := by
  have hcount := hs.counts.pos hi hearly
  have hout := hfree.2 i
  cases hpc : s.child i
  all_goals
    rw [hpc] at hborn hearly hout
    simp only [Blocked]
  case request1 => exact hfree.1 ▸ Nat.one_ne_zero
  case decrement => exact hcount
  all_goals first
    | exact not_false
    | exact absurd rfl hout
    | exact absurd hborn Bool.false_ne_true
    | exact absurd hearly Bool.false_ne_true

theorem not_blocked {pc : Pc} (hlate : ¬ pc.early = true) (hend : pc.terminated = false)
    (hfree : s.sem0 = 1) (hwait : pc = .waitZero → s.sem1 = 0) : ¬ Blocked s pc := by
  cases pc
  all_goals simp only [Blocked]
  case request2 => exact hfree ▸ Nat.one_ne_zero
  case waitZero => exact not_not.mpr (hwait rfl)
  all_goals first
    | exact not_false
    | exact absurd rfl hlate
    | exact absurd hend.symm Bool.false_ne_true

theorem not_blocked_inMutex {pc : Pc} (h : pc.inMutex = true) :
    pc.shmOnly = true ∧ ¬ Blocked s pc := by
  cases pc
  all_goals first
    | exact ⟨rfl, not_false⟩
    | exact absurd h Bool.false_ne_true

theorem Barrier.progress (hs : Barrier cfg s.sem1 s.child) (hf : Forked cfg s)
    (hk : Kinds cfg s.child) (hex : Exclusive s.sem0 s.child) (hall : s.instances = cfg.childNum)
    {i : Nat} (hi : i ∈ shmChildren cfg) (hend : (s.child i).terminated = false) :
    ∃ j, cfg.IsShm j ∧ ¬ Blocked s (s.child j) := by
  have hborn : ∀ j ∈ shmChildren cfg, (s.child j).born = true := fun j hj =>
    (hf.born j).mpr (hall ▸ (mem_shmChildren.mp hj).1)
  rcases hex with hfree | ⟨-, j, hin, -⟩
  · have hshm := (mem_shmChildren.mp hi).2
    by_cases hearly : (s.child i).early = true
    · exact ⟨i, hshm, hs.early_step hfree hi (hborn i hi) hearly⟩
    · by_cases hwait : s.child i = .waitZero ∧ s.sem1 ≠ 0
      · -- the ones that keep the barrier closed are not behind it
        obtain ⟨j, hj, hearly⟩ := hs.counts.exists_early hwait.2
        exact ⟨j, (mem_shmChildren.mp hj).2, hs.early_step hfree hj (hborn j hj) hearly⟩
      · exact ⟨i, hshm, not_blocked hearly hend hfree.1 fun h => by
          by_contra hne
          exact hwait ⟨h, hne⟩⟩
  · -- whoever is in the mutex goes on
    obtain ⟨honly, hstep⟩ := not_blocked_inMutex hin
    exact ⟨j, hk.shm j honly, hstep⟩

theorem Inv.progress (hs : Inv cfg s) {i : Nat} (hi : i ∈ shmChildren cfg)
    (hend : (s.child i).terminated = false) :
    ∃ a, (a = .parent ∨ ∃ j, cfg.IsShm j ∧ a = .child j false) ∧ (step cfg s a).isSome = true := by
  by_cases hlt : s.instances < cfg.childNum
  · refine ⟨.parent, .inl rfl, ?_⟩
    rw [step, parentStep, hs.forked.forking hlt]
    simp only [if_pos hlt, Option.isSome_some]
  · have hall := Nat.le_antisymm hs.forked.bound (Nat.le_of_not_lt hlt)
    obtain ⟨j, hj, hfree⟩ :=
      hs.barrier.progress hs.forked hs.kinds hs.exclusive hall hi hend
    exact ⟨.child j false, .inr ⟨j, hj, rfl⟩, childStep_isSome hfree⟩

/-- The children of the shared memory test keep their protocol. -/
structure Coordinated (cfg : Config) (s : State) : Prop where
  exclusive : ∀ i j, (s.child i).inMutex = true → (s.child j).inMutex = true → i = j
  segment : s.segments.length ≤ 1
  attached : ∀ i, cfg.IsShm i → (s.child i).attached = true →
    s.shmptr i = some 0 ∧ s.segments.length = 1
  barrier : ∀ i ∈ s.calls.map Prod.fst, ∀ j < cfg.childNum, cfg.IsShm j →
    (s.child j).written = true
  order : s.calls = [] ∨ ∃ (i : Nat) (rest : List Nat),
    s.calls = (i, .testmem) :: rest.map fun j => (j, .recover)
  once : (s.calls.map Prod.fst).Nodup
  progress : (∃ i < cfg.childNum, cfg.IsShm i ∧ (s.child i).terminated = false) →
    ∃ a, (a = .parent ∨ ∃ j, cfg.IsShm j ∧ a = .child j false) ∧ (step cfg s a).isSome = true
  complete : (∃ i < cfg.childNum, cfg.IsShm i) →
    (∀ i < cfg.childNum, cfg.IsShm i → (s.child i).terminated = true) →
    s.segments.length = 1 ∧ ∀ i, i ∈ s.calls.map Prod.fst ↔ i < cfg.childNum ∧ cfg.IsShm i

theorem Inv.segments_le (hs : Inv cfg s) : s.segments.length ≤ 1 := by
  cases hready : s.shm.ready with
  | true => exact (hs.segment.ready hready).2.le
  | false =>
    by_cases hmade : ∃ i, s.child i = .setReady
    · obtain ⟨i, hi⟩ := hmade
      exact (hs.segment.made i hi).2.le
    · rw [hs.segment.fresh hready (not_exists.mp hmade)]
      exact Nat.zero_le 1

theorem Inv.attached (hs : Inv cfg s) {i : Nat} (hi : cfg.IsShm i)
    (hattached : (s.child i).attached = true) :
    s.shmptr i = some 0 ∧ s.segments.length = 1 := by
  have hptr := hs.segment.attached i hi hattached
  exact ⟨hptr, (hs.segment.ready (hs.segment.pointer i 0 hptr).2).2⟩

theorem written_of_not_early {pc : Pc} (hbody : pc ≠ .body) (h : ¬ pc.early = true) :
    pc.written = true := by
  cases pc
  all_goals first
    | rfl
    | exact absurd rfl h
    | exact absurd rfl hbody

theorem passed_of_called {pc : Pc} (h : pc.called = true) : pc.passed = true := by
  cases pc
  all_goals first
    | rfl
    | exact absurd h Bool.false_ne_true

theorem late_of_terminated {pc : Pc} (h : pc.terminated = true) :
    pc.called = true ∧ pc.attached = true := by
  cases pc
  all_goals first
    | exact ⟨rfl, rfl⟩
    | exact absurd h Bool.false_ne_true

theorem Inv.barrier_holds (hs : Inv cfg s) {i : Nat} (hi : i ∈ s.calls.map Prod.fst) {j : Nat}
    (hj : j < cfg.childNum) (hshm : cfg.IsShm j) : (s.child j).written = true := by
  obtain ⟨hishm, hcalled⟩ := (hs.calls.callers i).mp hi
  have hzero := hs.barrier.passed i hishm (passed_of_called hcalled)
  have hcounts := hs.barrier.counts
  rw [hzero] at hcounts
  have hlate := hcounts.all_late (mem_shmChildren.mpr ⟨hj, hshm⟩)
  exact written_of_not_early (fun h => hs.kinds.body j h hshm) hlate

theorem Inv.coordinated (hs : Inv cfg s) : Coordinated cfg s where
  exclusive := fun _ _ => hs.exclusive.exclusive
  segment := hs.segments_le
  attached := fun _ => hs.attached
  barrier := fun _ hi _ => hs.barrier_holds hi
  order := by
    cases hdone : s.shm.done with
    | false => exact .inl (hs.calls.undone hdone)
    | true => exact .inr (hs.calls.started hdone)
  once := hs.calls.nodup
  progress := fun ⟨_, hi, hshm, hend⟩ => hs.progress (mem_shmChildren.mpr ⟨hi, hshm⟩) hend
  complete := by
    rintro ⟨i, hi, hshm⟩ hend
    refine ⟨(hs.attached hshm (late_of_terminated (hend i hi hshm)).2).2, fun j => ?_⟩
    rw [hs.calls.callers j]
    constructor
    · rintro ⟨hj, hcalled⟩
      refine ⟨(hs.forked.born j).mp ?_ |>.trans_le hs.forked.bound, hj⟩
      cases hpc : s.child j <;> rw [hpc] at hcalled <;> first | rfl | cases hcalled
    · rintro ⟨hj, hshmj⟩
      exact ⟨hshmj, (late_of_terminated (hend j hj hshmj)).1⟩

/-- In every run without deaths, for every number of children and of tests. -/
theorem shm_coordinated {t : Nat} (ht : cfg.tShm = some t) (hlt : t < cfg.testTypes)
    (hn : 0 < cfg.childNum) (h : Reaches (step cfg) NoDeath (init cfg) s) : Coordinated cfg s :=
  (reaches_inv ht hlt hn h).coordinated

def twoShm : Config where
  childNum := 2
  cases := ["shared memory test".toList]
  tShm := some 0
  pid := fun i => i + 2
  cases_ne := List.cons_ne_nil _ _

/-- The first child calls `testmem`, the second one waits for it and calls `recover`. -/
theorem shm_coordinated_two : ∃ s, Reaches (step twoShm) NoDeath (init twoShm) s ∧
    (s.child 0, s.child 1, s.calls) =
      (.exited true true, .exited true true, [(0, .testmem), (1, .recover)]) ∧
    Coordinated twoShm s := by
  have hrun : (run (step twoShm) NoDeath (init twoShm)
      ([.parent, .parent] ++ List.replicate 9 (.child 0 false) ++
        List.replicate 7 (.child 1 false) ++ List.replicate 8 (.child 0 false) ++
        List.replicate 7 (.child 1 false))).map (fun s => (s.child 0, s.child 1, s.calls)) =
      some (.exited true true, .exited true true, [(0, .testmem), (1, .recover)]) := by
    decide +kernel
  obtain ⟨s, hs, hend⟩ := exists_reaches hrun
  exact ⟨s, hs, hend, shm_coordinated rfl (by decide) (by decide) hs⟩

def noShm : Config where
  childNum := 1
  cases := ["anonymous clean".toList, "shared memory test".toList]
  tShm := some 1
  pid := fun i => i + 2
  cases_ne := by simp

/-- With fewer children than the index of the test there is no child to create the
segment or to call `testmem`. -/
theorem shm_never_created : ∃ s, Reaches (step noShm) NoDeath (init noShm) s ∧
    s.parent = .returned 0 ∧ s.segments.length ≠ 1 ∧ ¬ ∃ i, (i, Call.testmem) ∈ s.calls := by
  have hrun : (run (step noShm) NoDeath (init noShm)
      ([.parent] ++ List.replicate 4 (.child 0 false) ++ List.replicate 4 .parent)).map
        (fun s => (s.parent, s.segments, s.calls)) = some (.returned 0, [], []) := by
    decide +kernel
  obtain ⟨s, hs, hend⟩ := exists_reaches hrun
  simp only [Prod.mk.injEq] at hend
  obtain ⟨hparent, hsegments, hcalls⟩ := hend
  exact ⟨s, hs, hparent, by simp [hsegments], by simp [hcalls]⟩

end MceTest.PagePoisoning

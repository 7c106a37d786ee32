import MceTest.Tinjpage.Model

/-! Failures of `tinjpage` that get lost, and what holds in the runs where none does. -/

namespace MceTest.Tinjpage

def Proc.exits (pr : Proc) (k : Kernel) : Bool :=
  match pr.ctl, k with
  | .ops [], .ok => true
  | .ops (.call _ :: _), .fails => true
  | .injecting _ _, .einval => true
  | _, _ => false

/-- A step after which nobody will learn of a `failure++` of a child: one by which a
child with failures exits, if its parent only asks whether it exits, or dies of `SIGBUS`,
if its parent only asks that; and a failure in the child of a child, whose end is taken
as it comes. -/
def lost (s : State) : Action → Bool
  | .own p k =>
    let pr := s.proc p
    match pr.role with
    | .main => false
    | .suicide survivable => survivable && pr.exits k && pr.failed
    | .shared => pr.exits k && pr.failed || !pr.handler && 0 < pr.bumps k
  | .signal p si _ =>
    let pr := s.proc p
    let looped := pr.handler && pr.recovercount = 1 && (pr.failed || !si.addr)
    match pr.role with
    | .main => false
    | .suicide survivable => if survivable then looped else !pr.handler && pr.failed
    | .shared => looped
  | .kill _ _ => false

def deadJump (s : State) : Action → Bool
  | .signal p si _ =>
    let pr := s.proc p
    pr.handler && pr.recovercount ≠ 1 && (pr.jump si.code).isNone
  | _ => false

/-- No failure gets lost in the step, and it has a meaning. -/
def Noticed (s : State) (a : Action) : Prop := lost s a = false ∧ deadJump s a = false

instance (s : State) (a : Action) : Decidable (Noticed s a) :=
  inferInstanceAs (Decidable (_ ∧ _))

/-- If `main` has returned 0, no process has executed `failure++`, and every child of the
suicide phase that was to be killed was killed by `SIGBUS`. -/
def Sound (s : State) : Prop :=
  (s.proc 0).ctl = .returned 0 → ∀ p < s.count, (s.proc p).failed = false ∧
    ((s.proc p).role = .suicide false → ∃ dumped, (s.proc p).ctl = .killed sigbus dumped)

def Ctl.awaited : Ctl → Option (Nat × Role)
  | .touching child _ | .sleeping child _ | .waiting child _ => some (child, .shared)
  | .waitSuicide child survivable => some (child, .suicide survivable)
  | _ => none

def Ctl.gone : Ctl → Bool
  | .exited _ | .killed _ _ => true
  | _ => false

def Ctl.ofMain : Ctl → Bool
  | .childTouching | .getSemaphore | .starting _ => false
  | _ => true

/-- Points that a child of `do_shared` gets to; it runs `testmem` and exits. -/
def Ctl.plain : Ctl → Prop
  | .ops rest | .injecting _ rest | .accessing _ rest => ∀ mode, .doShared mode ∉ rest
  | .childTouching | .getSemaphore | .exited _ | .killed _ _ | .undefined => True
  | _ => False

structure MainOk (pr : Proc) : Prop where
  role : pr.role = .main
  handler : pr.handler = true
  failed : pr.failed = true → 0 < pr.failure
  ctl : pr.ctl.ofMain = true
  returned : pr.ctl = .returned 0 → pr.failure = 0

structure SuicideOk (survivable : Bool) (pr : Proc) : Prop where
  earlyKill : pr.earlyKill = false
  handler : pr.handler = true → pr.ctl.over = true ∨ ∃ rest, pr.ctl = .starting rest
  exited : survivable = true → ∀ status, pr.ctl = .exited status → pr.failed = false
  killed : survivable = false → ∀ dumped, pr.ctl = .killed sigbus dumped → pr.failed = false
  status : ∀ status, pr.ctl = .exited status → status ≠ sigbus

structure SharedOk (pr : Proc) : Prop where
  exited : ∀ status, pr.ctl = .exited status → pr.failed = false
  quiet : pr.handler = false → pr.failed = false ∧ pr.earlyKill = false
  plain : pr.ctl.plain

def ChildOk (pr : Proc) : Prop :=
  match pr.role with
  | .main => False
  | .suicide survivable => SuicideOk survivable pr
  | .shared => SharedOk pr

theorem childOk_suicide {pr : Proc} {survivable : Bool} (hrole : pr.role = .suicide survivable) :
    ChildOk pr ↔ SuicideOk survivable pr := by
  rw [ChildOk, hrole]

theorem childOk_shared {pr : Proc} (hrole : pr.role = .shared) : ChildOk pr ↔ SharedOk pr := by
  rw [ChildOk, hrole]

theorem childOk_goto_suicide {pr : Proc} {ctl : Ctl} {survivable : Bool}
    (hrole : pr.role = .suicide survivable) :
    ChildOk (pr.goto ctl) ↔ SuicideOk survivable (pr.goto ctl) :=
  childOk_suicide hrole

theorem childOk_goto_shared {pr : Proc} {ctl : Ctl} (hrole : pr.role = .shared) :
    ChildOk (pr.goto ctl) ↔ SharedOk (pr.goto ctl) :=
  childOk_shared hrole

theorem ChildOk.not_main {pr : Proc} (h : ChildOk pr) : pr.role ≠ .main := by
  intro hrole
  rw [ChildOk, hrole] at h
  exact h

/-- What the main program takes for a pass, and rightly so. -/
def Accepted (pr : Proc) : Prop :=
  match pr.role with
  | .main => False
  | .suicide survivable => pr.ctl.over = true ∧ pr.failed = false ∧
      (survivable = false → ∃ dumped, pr.ctl = .killed sigbus dumped)
  | .shared => pr.failed = false ∧ (pr.handler = false ∨ pr.ctl.over = true)

/-- The main program will not return 0 any more. -/
def Over (pr : Proc) : Prop := 0 < pr.failure ∨ pr.ctl.gone = true

structure Watched (s : State) : Prop where
  awaited : ∀ q role, (s.proc 0).ctl.awaited = some (q, role) → 0 < q ∧ q < s.count ∧
    (s.proc q).role = role ∧ (role = .shared → (s.proc q).handler = true)
  children : ∀ q, 0 < q → q < s.count →
    (∃ role, (s.proc 0).ctl.awaited = some (q, role)) ∨ Accepted (s.proc q)

structure Inv (s : State) : Prop where
  count : 0 < s.count
  main : MainOk (s.proc 0)
  phase : s.phase ≠ .early → (s.proc 0).earlyKill = false
  children : ∀ q, 0 < q → q < s.count → ChildOk (s.proc q)
  unborn : ∀ q, s.count ≤ q → (s.proc q).ctl.over = true
  watched : Over (s.proc 0) ∨ Watched s

theorem Inv.sound {s : State} (hs : Inv s) : Sound s := by
  intro hreturned
  have hfailure : ¬ 0 < (s.proc 0).failure := (hs.main.returned hreturned).not_gt
  have hwatched : Watched s := hs.watched.resolve_left (by
    rintro (h | h)
    · exact hfailure h
    · rw [hreturned] at h
      cases h)
  have hmain : (s.proc 0).failed = false := by
    cases hfailed : (s.proc 0).failed with
    | false => rfl
    | true => exact absurd (hs.main.failed hfailed) hfailure
  intro p hp
  cases Nat.eq_zero_or_pos p with
  | inl hzero =>
    rw [hzero]
    exact ⟨hmain, fun h => by rw [hs.main.role] at h; cases h⟩
  | inr hpos =>
    have hnone : ¬ ∃ role, (s.proc 0).ctl.awaited = some (p, role) := by
      rintro ⟨role, h⟩
      rw [hreturned] at h
      cases h
    have haccepted := (hwatched.children p hpos hp).resolve_left hnone
    unfold Accepted at haccepted
    cases hrole : (s.proc p).role with
    | main =>
      rw [hrole] at haccepted
      exact haccepted.elim
    | suicide survivable =>
      rw [hrole] at haccepted
      exact ⟨haccepted.2.1, fun h => haccepted.2.2 (by cases h; rfl)⟩
    | shared =>
      rw [hrole] at haccepted
      exact ⟨haccepted.1, fun h => by cases h⟩

theorem init_inv (cases : List Testcase) : Inv (init cases) where
  count := Nat.one_pos
  main := ⟨rfl, rfl, fun h => absurd h Bool.false_ne_true, rfl, fun _ => rfl⟩
  phase := fun _ => rfl
  children := fun q hpos hlt => absurd (Nat.lt_of_lt_of_le hlt hpos) (Nat.lt_irrefl q)
  unborn := fun q hq => by
    rw [init]
    dsimp only
    rw [if_neg (Nat.pos_iff_ne_zero.mp hq)]
    rfl
  watched := .inr
    ⟨fun q role h => (by cases h),
      fun q hpos hlt => absurd (Nat.lt_of_lt_of_le hlt hpos) (Nat.lt_irrefl q)⟩

theorem bump_zero (pr : Proc) : pr.bump 0 = pr := by
  rw [Proc.bump]
  simp

theorem MainOk.bump {pr : Proc} (h : MainOk pr) (n : Nat) (hreturned : pr.ctl ≠ .returned 0) :
    MainOk (pr.bump n) where
  role := h.role
  handler := h.handler
  failed := fun hfailed => by
    rcases Bool.or_eq_true_iff.mp hfailed with hfailed | hn
    · exact Nat.lt_of_lt_of_le (h.failed hfailed) (Nat.le_add_right ..)
    · exact Nat.lt_of_lt_of_le (of_decide_eq_true hn) (Nat.le_add_left ..)
  ctl := h.ctl
  returned := fun h => absurd h hreturned

theorem MainOk.goto {pr : Proc} (h : MainOk pr) {ctl : Ctl} (hctl : ctl.ofMain = true)
    (hreturned : ctl ≠ .returned 0) : MainOk (pr.goto ctl) :=
  ⟨h.role, h.handler, h.failed, hctl, fun h => absurd h hreturned⟩

theorem over_of_gone {ctl : Ctl} (h : ctl.gone = true) : ctl.over = true := by
  cases ctl
  all_goals first
    | rfl
    | cases h

section

variable {s s' : State} {pr : Proc} {p : Nat}

theorem Inv.main_put (hs : Inv s) (hproc : s'.proc = Function.update s.proc 0 pr)
    (hcount : s'.count = s.count) (hphase : s'.phase ≠ .early → pr.earlyKill = false)
    (halive : (s.proc 0).ctl.over = false) (hmain : MainOk pr)
    (hfailure : (s.proc 0).failure ≤ pr.failure)
    (hnext : Over pr ∨ pr.ctl.awaited = (s.proc 0).ctl.awaited ∨ pr.ctl.awaited = none ∧
      ∀ q role, (s.proc 0).ctl.awaited = some (q, role) → (s.proc q).role = role →
        (role = .shared → (s.proc q).handler = true) → ChildOk (s.proc q) →
        Accepted (s.proc q)) : Inv s' := by
  have hzero : s'.proc 0 = pr := by rw [hproc, Function.update_self]
  have hothers (q : Nat) (hq : 0 < q) : s'.proc q = s.proc q := by
    rw [hproc, Function.update_of_ne hq.ne']
  refine ⟨hcount ▸ hs.count, hzero ▸ hmain, hzero ▸ hphase, fun q hpos hlt => ?_,
    fun q hq => ?_, ?_⟩
  · rw [hothers q hpos]
    exact hs.children q hpos (hcount ▸ hlt)
  · rw [hothers q (Nat.lt_of_lt_of_le hs.count (hcount ▸ hq))]
    exact hs.unborn q (hcount ▸ hq)
  · rw [hzero]
    rcases hs.watched with (hover | hgone) | hwatched
    · exact .inl (.inl (Nat.lt_of_lt_of_le hover hfailure))
    · rw [over_of_gone hgone] at halive
      cases halive
    · rcases hnext with hover | hsame | ⟨hnone, haccepted⟩
      · exact .inl hover
      · refine .inr ⟨fun q role h => ?_, fun q hpos hlt => ?_⟩
        · rw [hzero, hsame] at h
          obtain ⟨hpos, hlt, hrole⟩ := hwatched.awaited q role h
          rw [hothers q hpos, hcount]
          exact ⟨hpos, hlt, hrole⟩
        · rw [hzero, hsame, hothers q hpos]
          exact hwatched.children q hpos (hcount ▸ hlt)
      · refine .inr ⟨fun q role h => ?_, fun q hpos hlt => .inr ?_⟩
        · rw [hzero, hnone] at h
          cases h
        · rw [hothers q hpos]
          rcases hwatched.children q hpos (hcount ▸ hlt) with ⟨role, h⟩ | h
          · obtain ⟨-, -, hrole, hhandler⟩ := hwatched.awaited q role h
            exact haccepted q role h hrole hhandler (hs.children q hpos (hcount ▸ hlt))
          · exact h

theorem fork_proc (s : State) (p : Nat) (ctl : Ctl) (role : Role) (childCtl : Ctl) :
    (s.fork p ctl role childCtl).proc =
      Function.update (Function.update s.proc p ((s.proc p).goto ctl)) s.count
        { s.proc p with role, failed := false, ctl := childCtl } := rfl

theorem Inv.main_fork (hs : Inv s) {ctl childCtl : Ctl} {role : Role}
    (hproc : s'.proc = (s.fork 0 ctl role childCtl).proc) (hcount : s'.count = s.count + 1)
    (hphase : s'.phase = s.phase) (halive : (s.proc 0).ctl.over = false)
    (hnone : (s.proc 0).ctl.awaited = none) (hawaited : ctl.awaited = some (s.count, role))
    (hmain : ctl.ofMain = true)
    (hchild : ChildOk { s.proc 0 with role, failed := false, ctl := childCtl }) : Inv s' := by
  have hzero : s'.proc 0 = (s.proc 0).goto ctl := by
    rw [hproc, fork_proc, Function.update_of_ne hs.count.ne, Function.update_self]
  have hnew : s'.proc s.count = { s.proc 0 with role, failed := false, ctl := childCtl } := by
    rw [hproc, fork_proc, Function.update_self]
  have hothers (q : Nat) (hq : 0 < q) (hne : q ≠ s.count) : s'.proc q = s.proc q := by
    rw [hproc, fork_proc, Function.update_of_ne hne, Function.update_of_ne hq.ne']
  refine ⟨hcount ▸ Nat.succ_pos _, hzero ▸ hs.main.goto hmain ?_, ?_, fun q hpos hlt => ?_,
    fun q hq => ?_, ?_⟩
  · rintro rfl
    cases hawaited
  · rw [hphase, hzero]
    exact hs.phase
  · by_cases hne : q = s.count
    · rw [hne, hnew]
      exact hchild
    · rw [hothers q hpos hne]
      exact hs.children q hpos (by omega)
  · rw [hothers q (by omega) (by omega)]
    exact hs.unborn q (by omega)
  · rw [hzero]
    rcases hs.watched with (hover | hgone) | hwatched
    · exact .inl (.inl hover)
    · rw [over_of_gone hgone] at halive
      cases halive
    · refine .inr ⟨fun q role' h => ?_, fun q hpos hlt => ?_⟩
      · rw [hzero] at h
        cases hawaited.symm.trans h
        rw [hnew, hcount]
        exact ⟨hs.count, Nat.lt_succ_self _, rfl, fun _ => hs.main.handler⟩
      · by_cases hne : q = s.count
        · rw [hne, hzero]
          exact .inl ⟨role, hawaited⟩
        · rw [hothers q hpos hne]
          refine .inr ((hwatched.children q hpos (by omega)).resolve_left ?_)
          rintro ⟨role', h⟩
          rw [hnone] at h
          cases h

theorem Accepted.child (hrole : pr.role = (s.proc p).role)
    (hhandler : (s.proc p).role = .shared → pr.handler = (s.proc p).handler)
    (halive : (s.proc p).ctl.over = false) (hok : ChildOk pr) (h : Accepted (s.proc p)) :
    Accepted pr := by
  unfold Accepted at h ⊢
  unfold ChildOk at hok
  rw [hrole] at hok ⊢
  cases hr : (s.proc p).role with
  | main =>
    rw [hr] at h
    exact h
  | suicide survivable =>
    rw [hr] at h
    rw [h.1] at halive
    cases halive
  | shared =>
    rw [hr] at h hok
    rcases h.2 with hquiet | hover
    · have hquiet' := (hhandler hr).trans hquiet
      exact ⟨(hok.quiet hquiet').1, .inl hquiet'⟩
    · rw [hover] at halive
      cases halive

theorem Inv.child_put (hs : Inv s) (hpos : 0 < p) (halive : (s.proc p).ctl.over = false)
    (hp : s'.proc p = pr) (hothers : ∀ q < s.count, q ≠ p → s'.proc q = s.proc q)
    (hphase : s'.phase = s.phase) (hrole : pr.role = (s.proc p).role)
    (hhandler : (s.proc p).role = .shared → pr.handler = (s.proc p).handler) (hok : ChildOk pr)
    (hborn : ∀ q, s.count ≤ q → q < s'.count →
      (s'.proc q).role = .shared ∧ (s'.proc q).handler = false ∧ SharedOk (s'.proc q))
    (hunborn : ∀ q, s'.count ≤ q → (s'.proc q).ctl.over = true) (hcount : s.count ≤ s'.count) :
    Inv s' := by
  have hlt : p < s.count := by
    by_contra hge
    rw [hs.unborn p (Nat.le_of_not_lt hge)] at halive
    cases halive
  have hzero : s'.proc 0 = s.proc 0 := hothers 0 hs.count hpos.ne
  have hold (q : Nat) (hpos : 0 < q) (hlt : q < s.count) : ChildOk (s'.proc q) ∧
      (s'.proc q).role = (s.proc q).role ∧
      ((s.proc q).role = .shared → (s'.proc q).handler = (s.proc q).handler) ∧
      (Accepted (s.proc q) → Accepted (s'.proc q)) := by
    by_cases hqp : q = p
    · subst hqp
      rw [hp]
      exact ⟨hok, hrole, hhandler, Accepted.child hrole hhandler halive hok⟩
    · rw [hothers q hlt hqp]
      exact ⟨hs.children q hpos hlt, rfl, fun _ => rfl, id⟩
  have hnew (q : Nat) (hge : s.count ≤ q) (hlt : q < s'.count) :
      ChildOk (s'.proc q) ∧ Accepted (s'.proc q) := by
    obtain ⟨hrole, hquiet, hok⟩ := hborn q hge hlt
    unfold ChildOk Accepted
    rw [hrole]
    exact ⟨hok, (hok.quiet hquiet).1, .inl hquiet⟩
  refine ⟨Nat.lt_of_lt_of_le hs.count hcount, hzero ▸ hs.main, ?_, fun q hpos hlt => ?_, hunborn,
    ?_⟩
  · rw [hphase, hzero]
    exact hs.phase
  · by_cases hge : s.count ≤ q
    · exact (hnew q hge hlt).1
    · exact (hold q hpos (Nat.lt_of_not_le hge)).1
  · rw [hzero]
    refine hs.watched.imp_right fun hwatched => ⟨fun q role h => ?_, fun q hpos hlt => ?_⟩
    · rw [hzero] at h
      obtain ⟨hpos, hlt, hrole, hhandler⟩ := hwatched.awaited q role h
      obtain ⟨-, hrole', hhandler', -⟩ := hold q hpos hlt
      refine ⟨hpos, hlt.trans_le hcount, hrole'.trans hrole, fun hshared => ?_⟩
      rw [hhandler' (hrole.trans hshared), hhandler hshared]
    · rw [hzero]
      by_cases hge : s.count ≤ q
      · exact .inr (hnew q hge hlt).2
      · have hlt := Nat.lt_of_not_le hge
        exact (hwatched.children q hpos hlt).imp_right (hold q hpos hlt).2.2.2

end

section

variable {cases : List Testcase} {s s' : State} {pr pr' : Proc} {k : Kernel}

theorem localStep_alive (h : pr.localStep k = some pr') : pr.ctl.over = false := by
  unfold Proc.localStep at h
  split at h
  case h_15 => cases h
  all_goals
    rename_i hpc
    rw [hpc]
    rfl

theorem ownStep_alive {p : Nat} (h : ownStep cases s p k = some s') :
    (s.proc p).ctl.over = false := by
  unfold ownStep at h
  dsimp only at h
  split at h
  case h_7 =>
    obtain ⟨pr', hstep, -⟩ := Option.map_eq_some_iff.mp h
    exact localStep_alive hstep
  all_goals
    rename_i hpc
    rw [hpc]
    rfl

/-- A jump stays in the function it starts in. -/
theorem jump_next {code n : Nat} {ctl : Ctl} (h : pr.jump code = some (n, ctl)) :
    ctl.ofMain = true ∧ ctl.over = false ∧ ctl.awaited = pr.ctl.awaited ∧
      (pr.ctl.plain → ctl.plain) := by
  unfold Proc.jump at h
  split at h
  · split at h
    · rename_i hpc
      cases h
      exact ⟨rfl, rfl, by rw [hpc]; rfl, fun hplain => by rwa [hpc] at hplain⟩
    · cases h
  · split at h
    · rename_i hpc
      cases h
      exact ⟨rfl, rfl, by rw [hpc]; rfl, fun hplain => by rwa [hpc] at hplain⟩
    · rename_i hpc
      cases h
      exact ⟨rfl, rfl, by rw [hpc]; rfl, fun hplain => by rwa [hpc] at hplain⟩
    · rename_i hpc
      split at h
      · cases h
        exact ⟨rfl, rfl, by rw [hpc], fun hplain => by rwa [hpc] at hplain⟩
      · cases h
    · cases h

/-- The process as `sighandler` leaves it before it exits or jumps. -/
def Proc.counted (pr : Proc) (si : Siginfo) : Proc :=
  { pr.bump (if si.addr then 0 else 1) with recovercount := pr.recovercount - 1 }

theorem sighandler_cases {si : Siginfo} (hjump : ¬ (pr.recovercount ≠ 1 ∧ pr.jump si.code = none)) :
    (pr.recovercount = 1 ∧ pr.sighandler si = (pr.counted si).goto (.exited 1)) ∨
      ∃ n ctl, pr.jump si.code = some (n, ctl) ∧
        pr.sighandler si = ((pr.counted si).bump n).goto ctl := by
  have hsame : (pr.counted si).jump si.code = pr.jump si.code := rfl
  have hzero : (pr.counted si).recovercount = 0 ↔ pr.recovercount = 1 := by
    change pr.recovercount - 1 = 0 ↔ _
    omega
  by_cases hone : pr.recovercount = 1
  · exact .inl ⟨hone, if_pos (hzero.mpr hone)⟩
  · right
    cases hj : pr.jump si.code with
    | none => exact absurd ⟨hone, hj⟩ hjump
    | some target =>
      refine ⟨target.1, target.2, rfl, ?_⟩
      refine (if_neg (mt hzero.mp hone)).trans ?_
      split
      · rename_i n ctl hnext
        obtain rfl : (n, ctl) = target := Option.some.inj (hnext.symm.trans hj)
        rfl
      · rename_i hnone
        cases hnone.symm.trans hj

theorem jump_of_deadJump {p : Nat} {si : Siginfo} {dumped : Bool}
    (h : deadJump s (.signal p si dumped) = false) (hhandler : (s.proc p).handler = true) :
    ¬ ((s.proc p).recovercount ≠ 1 ∧ (s.proc p).jump si.code = none) := by
  rintro ⟨hone, hnone⟩
  simp [deadJump, hhandler, hone, hnone] at h

end

end MceTest.Tinjpage

import MceTest.Pan.Invariant

/-! What `ltp-pan` writes about its children, and what it returns for them. -/

namespace MceTest.Pan

open MceTest.Library MceTest.Library.Registry MceTest.Library.Transition

def State.born (s : State) : List (Pid × CollEntry) :=
  s.births.filterMap fun b => b.2.cpid.map (·, b.1)

def State.active (s : State) : List (Pid × CollEntry) :=
  (entries s.running).map fun r => (r.pgrp, r.cmd)

structure SameBooks (s t : State) : Prop where
  births : t.births = s.births
  ended : t.ended = s.ended
  log : t.log = s.log
  failcmds : t.failcmds = s.failcmds
  failcnt : t.failcnt = s.failcnt
  reports : t.reports = s.reports
  execs : t.execs = s.execs
  counter : t.counter = s.counter
  active : t.active = s.active

variable {o : Options} {s t : State}

inductive Booked (o : Options) (s : State) : State → Prop
  | same {t : State} (h : SameBooks s t) : Booked o s t
  | launched {rand i : Nat} {colle : CollEntry} {birth : Birth}
    (hi : Slots.firstEmpty s.running = some i) (hcolle : o.coll[s.index o rand]? = some colle) :
    Booked o s (launch o (s.index o rand) i colle birth s)
  | reaped {s' : State} {i : Nat} {r : Running} {ending : Ending} {left : Bool}
    (h : SameBooks s s') (hr : s'.running[i]? = some (some r)) (hfinal : ending.final = true) :
    Booked o s (reaped o i r ending left s')

theorem sameBooks_propagate (gone : Pid → Bool) (s : State) :
    SameBooks s (propagateSignal gone s) := by
  refine ⟨rfl, rfl, rfl, rfl, rfl, rfl, rfl, rfl, ?_⟩
  rw [State.active, entries_running_propagate, List.map_map]
  rfl

theorem sameBooks_govern (stopFile : Bool) (gone : Pid → Bool) (s : State) :
    SameBooks s (govern stopFile gone s) := by
  rw [govern]
  split
  · exact ⟨rfl, rfl, rfl, rfl, rfl, rfl, rfl, rfl, rfl⟩
  · exact ⟨rfl, rfl, rfl, rfl, rfl, rfl, rfl, rfl, rfl⟩
  · exact ⟨rfl, rfl, rfl, rfl, rfl, rfl, rfl, rfl, (sameBooks_propagate gone _).active⟩

theorem sameBooks_judge (err : Bool) (s : State) : SameBooks s (judge o err s) := by
  rw [judge]
  split
  · exact ⟨rfl, rfl, rfl, rfl, rfl, rfl, rfl, rfl, rfl⟩
  · split <;> exact ⟨rfl, rfl, rfl, rfl, rfl, rfl, rfl, rfl, rfl⟩

theorem sameBooks_linger (gone : Pid → Bool) (s : State) : SameBooks s (linger o gone s) := by
  rw [linger]
  split
  · exact ⟨rfl, rfl, rfl, rfl, rfl, rfl, rfl, rfl, rfl⟩
  · exact ⟨rfl, rfl, rfl, rfl, rfl, rfl, rfl, rfl, (sameBooks_propagate gone _).active⟩

theorem booked {a : Action} (hok : Ok o s a) (hstep : step o s a = some t) : Booked o s t := by
  cases stepped hstep with
  | @launch rand birth _ hctl heq =>
    obtain ⟨i, colle, hi, hcolle, rfl⟩ | rfl := schedule_cases heq
    · exact .launched hi hcolle
    · exact .same ⟨rfl, rfl, rfl, rfl, rfl, rfl, rfl, rfl, rfl⟩
  | @reap gone wait left hctl =>
    cases wait with
    | none => exact .same ⟨rfl, rfl, rfl, rfl, rfl, rfl, rfl, rfl, rfl⟩
    | some child =>
      obtain ⟨i, r, -, hr, heq⟩ | heq := checkPids_cases (o := o) gone child.1 hok.2 left
      · rw [heq]
        exact .reaped ⟨rfl, rfl, rfl, rfl, rfl, rfl, rfl, rfl, rfl⟩ hr hok.2
      · rw [heq]
        exact .same ⟨rfl, rfl, rfl, rfl, rfl, rfl, rfl, rfl, rfl⟩
  | @govern stopFile gone =>
    have hbooks := sameBooks_govern stopFile gone s
    exact .same { hbooks with active := hbooks.active }
  | judge => exact .same (sameBooks_judge _ s)
  | linger => exact .same (sameBooks_linger _ s)
  | signal | enter | leave | other =>
    exact .same ⟨rfl, rfl, rfl, rfl, rfl, rfl, rfl, rfl, rfl⟩

def logLine (e : Running × Ending) : LogLine :=
  ⟨e.1.cmd.name, e.2.status, finalW e.1 e.2, e.2.core⟩

structure Accounts (o : Options) (s : State) : Prop where
  once : s.born.Perm ((s.ended.map fun e => (e.1.pgrp, e.1.cmd)) ++ s.active)
  log : s.log = if o.logfile then s.ended.map logLine else []
  failcmds : s.failcmds = if o.failcmdfile then
    (s.ended.filter fun e => finalW e.1 e.2 ≠ 0).map fun e => (e.1.cmd.name, e.1.cmd.cmdline)
    else []
  failcnt : s.failcnt = if o.logfile && o.fmtPrint then
    s.ended.countP fun e => finalW e.1 e.2 ≠ 0 else 0

theorem Accounts.booked (h : Accounts o s) (hbooked : Booked o s t) : Accounts o t := by
  cases hbooked with
  | same hsame =>
    have hborn : t.born = s.born := by rw [State.born, hsame.births, State.born]
    constructor
    · rw [hborn, hsame.ended, hsame.active]
      exact h.once
    · rw [hsame.log, hsame.ended]
      exact h.log
    · rw [hsame.failcmds, hsame.ended]
      exact h.failcmds
    · rw [hsame.failcnt, hsame.ended]
      exact h.failcnt
  | @launched rand i colle birth hi hcolle =>
    refine { h with once := ?_ }
    have hborn : (launch o (s.index o rand) i colle birth s).born =
        s.born ++ (birth.cpid.map (·, colle)).toList := by
      rw [State.born, State.born]
      exact (List.filterMap_append ..).trans (congrArg _ (by cases birth <;> rfl))
    rw [hborn]
    cases birth with
    | started cpid =>
      have hset := entries_set_free hi (⟨cpid, false, colle⟩ : Running)
      have hactive := hset.map fun r => (r.pgrp, r.cmd)
      refine (List.perm_append_singleton _ _).trans ((h.once.cons _).trans ?_)
      exact List.perm_middle.symm.trans (hactive.symm.append_left _)
    | _ =>
      rw [show (Option.map _ _ : Option (Pid × CollEntry)).toList = [] from rfl, List.append_nil]
      exact h.once
  | @reaped s' i r ending left hsame hr hfinal =>
    have hactive := (entries_set_none hr).map fun r => (r.pgrp, r.cmd)
    have hended : (reaped o i r ending left s').ended = s.ended ++ [(r, ending)] :=
      congrArg (· ++ [(r, ending)]) hsame.ended
    constructor
    · have hborn : (reaped o i r ending left s').born = s.born := by
        rw [State.born, State.born, ← hsame.births]
        rfl
      rw [hborn, hended, List.map_append, List.append_assoc]
      refine h.once.trans (.append_left _ ?_)
      rw [← hsame.active]
      exact hactive
    · have hlog : (reaped o i r ending left s').log =
          s.log ++ if o.logfile then [logLine (r, ending)] else [] :=
        congrArg (· ++ _) hsame.log
      rw [hlog, hended, h.log, List.map_append]
      split <;> rfl
    · have hfailcmds : (reaped o i r ending left s').failcmds = s.failcmds ++
          if o.failcmdfile && finalW r ending ≠ 0 then [(r.cmd.name, r.cmd.cmdline)] else [] :=
        congrArg (· ++ _) hsame.failcmds
      rw [hfailcmds, hended, h.failcmds, List.filter_append, List.map_append]
      by_cases hfile : o.failcmdfile = true
      · by_cases hw : finalW r ending = 0 <;> simp [hfile, hw]
      · simp [hfile]
    · have hfailcnt : (reaped o i r ending left s').failcnt =
          if o.logfile && o.fmtPrint && finalW r ending ≠ 0 then s.failcnt + 1 else s.failcnt := by
        rw [← hsame.failcnt]
        rfl
      rw [hfailcnt, hended, h.failcnt, List.countP_append]
      by_cases hprint : (o.logfile && o.fmtPrint) = true
      · by_cases hw : finalW r ending = 0 <;> simp [hprint, hw]
      · simp [hprint]

theorem start_accounts (o : Options) (file : Text) (others : List Pid) :
    Accounts o (start o file others) := by
  have hactive : (start o file others).active = [] := by
    rw [State.active, start]
    exact congrArg _ List.reduceOption_replicate_none
  refine ⟨?_, ?_, ?_, ?_⟩
  · rw [hactive]
    exact .refl _
  · exact (ite_self _).symm
  · exact (ite_self _).symm
  · exact (ite_self _).symm

/-- A child that has failed: 130 is no failure of a child that has been signaled, nor is its death
from the signal. -/
def failed (e : Running × Ending) : Bool :=
  match e.2 with
  | .exited status => status ≠ 0 ∧ ¬(status = 130 ∧ e.1.stopping)
  | _ => !e.1.stopping

theorem compensated_signaled (r : Running) (sig : Nat) (core : Bool) :
    compensated r (.signaled sig core) = false := by
  have hstatus : "signaled".toList ≠ "exited".toList := by decide +kernel
  rw [compensated, decide_eq_false]
  exact fun h => hstatus h.2.2

theorem compensated_exited (r : Running) (status : UInt8) :
    compensated r (.exited status) = decide (status = 130 ∧ r.stopping) := by
  have hval : status.toNat = 130 ↔ status = 130 := by
    rw [← UInt8.toNat_inj]
    rfl
  rw [compensated]
  exact decide_eq_decide.mpr (and_congr hval (and_iff_left rfl))

theorem ret_eq (r : Running) {ending : Ending} (hfinal : ending.final = true) :
    ret r ending = if failed (r, ending) then 1 else 0 := by
  cases ending with
  | signaled sig core =>
    rw [ret, compensated_signaled]
    cases hstopping : r.stopping <;> simp [Ending.ret, Ending.signaled?, failed, hstopping]
  | exited status =>
    rw [ret, compensated_exited]
    by_cases hzero : status = 0
    · subst hzero
      simp [Ending.ret, Ending.signaled?, failed]
    · by_cases hint : status = 130 ∧ r.stopping = true
      · simp [Ending.ret, Ending.signaled?, failed, hint]
      · simp [Ending.ret, Ending.signaled?, failed, hint, hzero]
  | stopped | unknown => cases hfinal

def State.pending (o : Options) (s : State) : Nat :=
  if o.trackExitStats = true ∧ s.ctl = .judge true then 1 else 0

def Counted (o : Options) (s : State) : Prop :=
  s.exitStat + s.pending o = if o.trackExitStats then s.ended.countP failed else 0

theorem Counted.of_eq (h : Counted o s) (hexit : t.exitStat = s.exitStat)
    (hended : t.ended = s.ended) (hpending : t.pending o = s.pending o) : Counted o t := by
  rw [Counted, hexit, hended, hpending]
  exact h

theorem pending_eq_zero (hctl : s.ctl ≠ .judge true) : s.pending o = 0 :=
  if_neg fun h => hctl h.2

theorem govern_exitStat (stopFile : Bool) (gone : Pid → Bool) (s : State) :
    (govern stopFile gone s).exitStat = s.exitStat := by
  rw [govern]
  split <;> rfl

theorem judge_exitStat (err : Bool) (s : State) :
    (judge o err s).exitStat = if err && o.trackExitStats then s.exitStat + 1 else s.exitStat := by
  rw [judge]
  split
  · rfl
  · split <;> rfl

theorem Counted.step (h : Counted o s) (hsound : Sound o s) {a : Action} (hok : Unbroken o s a)
    (hstep : step o s a = some t) : Counted o t := by
  cases stepped hstep with
  | signal => exact h.of_eq rfl rfl rfl
  | other => exact h.of_eq rfl rfl rfl
  | enter hctl =>
    have hpending : s.pending o = 0 := pending_eq_zero (by simp [hctl])
    exact h.of_eq rfl rfl ((pending_eq_zero (by simp)).trans hpending.symm)
  | @launch rand birth _ hctl heq =>
    have hpending : s.pending o = 0 := pending_eq_zero (by simp [hctl])
    have hactive := (hsound.poised hctl).1
    obtain ⟨i, colle, -, -, hlaunch⟩ :=
      (hsound.inv (by rw [hctl]; rfl)).schedule_eq hactive rand birth
    cases heq.symm.trans hlaunch
    refine h.of_eq rfl rfl ?_
    rw [hpending, pending_eq_zero]
    rw [launch_ctl]
    split <;> simp
  | leave hctl =>
    have hpending : s.pending o = 0 := pending_eq_zero (by simp [hctl])
    exact h.of_eq rfl rfl ((pending_eq_zero (by simp)).trans hpending.symm)
  | @govern stopFile gone hctl =>
    have hpending : s.pending o = 0 := pending_eq_zero (by simp [hctl])
    exact h.of_eq (govern_exitStat stopFile gone s) (sameBooks_govern stopFile gone s).ended
      ((pending_eq_zero (by simp)).trans hpending.symm)
  | @reap gone wait left hctl =>
    have hpending : s.pending o = 0 := pending_eq_zero (by simp [hctl])
    cases wait with
    | none =>
      refine h.of_eq rfl rfl ?_
      rw [hpending, pending_eq_zero (by simp [checkPids])]
    | some child =>
      obtain ⟨cpid, ending⟩ := child
      have hinv := hsound.inv (by rw [hctl]; rfl)
      obtain ⟨i, r, hr, -, heq⟩ := checkPids_eq gone (hinv.mem_pids hok.1.1) hok.1.2 left
      have hbase := hinv.checkOrphans gone none
      obtain ⟨-, hjudge⟩ := hbase.reaped hr ending left
      rw [Counted, hpending, Nat.add_zero] at h
      rw [heq, Counted, State.pending, hjudge, ret_eq r hok.1.2]
      have hended : (reaped o i r ending left (checkOrphans gone none s).fewer).ended =
        s.ended ++ [(r, ending)] := rfl
      have hexit : (reaped o i r ending left (checkOrphans gone none s).fewer).exitStat =
        s.exitStat := rfl
      rw [hended, hexit, h, List.countP_append, List.countP_singleton]
      cases htrack : o.trackExitStats <;> cases hfailed : failed (r, ending) <;> simp
  | @judge err hctl =>
    have hnext : (judge o err s).ctl ≠ .judge true := by
      rcases ((hsound.inv (by rw [hctl]; rfl)).judge err).2 with hnext | hnext
      · rw [hnext]
        simp
      · rw [hnext.1]
        simp
    rw [Counted, pending_eq_zero hnext, (sameBooks_judge err s).ended, judge_exitStat, ← h,
      State.pending, hctl]
    cases err <;> cases htrack : o.trackExitStats <;> simp
  | @linger gone hctl =>
    have hpending : s.pending o = 0 := pending_eq_zero (by simp [hctl])
    by_cases horphans : entries s.orphans = []
    · obtain ⟨hexit, hstat, -⟩ :=
        (hsound.inv (by rw [hctl]; rfl)).linger_end (hsound.idle hctl) horphans gone
      refine h.of_eq hstat (sameBooks_linger gone s).ended ?_
      rw [hpending, pending_eq_zero (by simp [hexit])]
    · rw [linger, if_neg (mt all_isNone_iff.mp horphans)]
      exact h.of_eq rfl rfl rfl

theorem reaches_accounts {file : Text} {others : List Pid}
    (h : Reaches (step o) (Ok o) (start o file others) t) : Accounts o t :=
  h.invariant (start_accounts o file others) fun _ _ _ haccounts hok hstep =>
    haccounts.booked (booked hok hstep)

theorem Accounts.once_ended (h : Accounts o t) {status : Nat} (hclean : Clean t status) :
    t.born.Perm (t.ended.map fun e => (e.1.pgrp, e.1.cmd)) := by
  have honce := h.once
  rwa [State.active, hclean.children, List.map_nil, List.append_nil] at honce

/-- Every child that has been started is active or has ended, and has done so once; there is a
line in the log for each that has, and in the file of failed commands for each that has failed.
When the program ends, all of its children have. -/
theorem pan_accounts {file : Text} {others : List Pid} (hfile : Registered file others)
    (h : Reaches (step o) (Unbroken o) (start o file others) t) :
    Accounts o t ∧ ∀ status, t.ctl = .exited status →
      t.born.Perm (t.ended.map fun e => (e.1.pgrp, e.1.cmd)) := by
  have haccounts := reaches_accounts (reaches_ok h)
  exact ⟨haccounts, fun status hexited =>
    haccounts.once_ended ((reaches_sound hfile h).clean status hexited)⟩

theorem pan_accounts_sample : ∃ t, Accounts sampleOptions t ∧ t.ctl = .exited 1 := by
  obtain ⟨t, h, hctl⟩ := sample_reaches
  exact ⟨t, (pan_accounts registered_nil h).1, hctl⟩

/-- The program returns the number of its children that have failed, as far as eight bits go. -/
theorem pan_exit_status {file : Text} {others : List Pid} (hfile : Registered file others)
    (h : Reaches (step o) (Unbroken o) (start o file others) t) {status : Nat}
    (hexited : t.ctl = .exited status) :
    status = if o.trackExitStats then t.ended.countP failed % 256 else 0 := by
  have hstart : Counted o (start o file others) := by
    rw [Counted, pending_eq_zero (by rw [(start_inv hfile).2]; exact nofun)]
    exact (ite_self _).symm
  have hcounted := reaches_keeps hfile h hstart fun _ _ _ hsound hcounted hok hstep =>
    hcounted.step hsound hok hstep
  have hclean := (reaches_sound hfile h).clean status hexited
  rw [Counted, pending_eq_zero (by rw [hexited]; exact nofun), Nat.add_zero] at hcounted
  rw [hclean.status, hcounted]
  split <;> rfl

theorem pan_exit_status_sample : ∃ t : State,
    t.ctl = .exited 1 ∧ 1 = t.ended.countP failed % 256 := by
  obtain ⟨t, h, hctl⟩ := sample_reaches
  exact ⟨t, hctl, pan_exit_status registered_nil h hctl⟩

end MceTest.Pan

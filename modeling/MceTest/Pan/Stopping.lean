import MceTest.Pan.Accounts

/-! How `ltp-pan` comes to its end: after a signal no command is run any more, and once the children
have ended and the groups have been killed, so does the program. -/

namespace MceTest.Pan

open MceTest.Library MceTest.Library.Registry MceTest.Library.Transition

/-- A signal has been received, or the loop has been stopped, and the program does not go on. -/
def Stops (s : State) : Prop :=
  s.forkInRoad = false ∧ (s.ratchet.recSignal.isSome = true ∨ s.stop ≠ 0)

variable {o : Options} {s t : State}

theorem waitHandler_received (r : Ratchet) (sig : Signal) :
    (waitHandler r (some sig)).recSignal = some sig := by
  rw [waitHandler]
  split <;> rfl

theorem foldl_received {sigs : List Signal} {r : Ratchet}
    (h : r.recSignal.isSome = true ∨ sigs ≠ []) :
    (sigs.foldl (fun r sig => waitHandler r (some sig)) r).recSignal.isSome = true := by
  induction sigs generalizing r with
  | nil => exact h.resolve_right fun hne => hne rfl
  | cons sig sigs ih =>
    refine ih (.inl ?_)
    rw [waitHandler_received]
    rfl

theorem Stops.not_schedules (h : Stops s) : s.schedules o = false := by
  refine decide_eq_false fun hs => hs.2.2 ?_
  rcases h.2 with hreceived | hstop
  · exact .inr (.inl hreceived)
  · exact .inl hstop

theorem govern_forkInRoad (stopFile : Bool) (gone : Pid → Bool) (h : s.forkInRoad = false) :
    (govern stopFile gone s).forkInRoad = false := by
  rw [govern]
  split
  · exact h
  · exact h
  · change (if _ then false else s.forkInRoad) = false
    rw [h]
    exact ite_self _

theorem Stops.govern (h : Stops s) (stopFile : Bool) (gone : Pid → Bool) :
    (govern stopFile gone s).stop ≠ 0 := by
  obtain ⟨hfork, hends⟩ := h
  rw [Pan.govern]
  split
  · rename_i hnone
    have hsilent : s.ratchet.recSignal = none := hnone
    have hstop : s.stop ≠ 0 := hends.resolve_left (by simp [hsilent])
    change (if _ then s.stop + 1 else s.stop) ≠ 0
    split
    · exact Nat.succ_ne_zero _
    · exact hstop
  · change (if s.forkInRoad then _ else _ + 1) ≠ 0
    rw [hfork]
    exact Nat.succ_ne_zero _
  · change (if (if _ then false else s.forkInRoad) = true then _ else _ + 1) ≠ 0
    rw [hfork, ite_self]
    exact Nat.succ_ne_zero _

theorem note_received (err : Bool) (h : s.ratchet.recSignal.isSome = true) :
    (note o err s).ratchet.recSignal.isSome = true := by
  rw [note]
  change Option.isSome (if _ then _ else s.ratchet : Ratchet).recSignal = true
  split
  · rw [waitHandler_received]
    rfl
  · exact h

theorem Stops.judge (h : Stops s) (err : Bool) : Stops (judge o err s) := by
  have hends : (note o err s).ratchet.recSignal.isSome = true ∨ s.stop ≠ 0 :=
    h.2.imp_left (note_received err)
  rw [Pan.judge]
  split
  · exact ⟨h.1, hends⟩
  · split <;> exact ⟨h.1, hends⟩

theorem Stops.linger (h : Stops s) (hstop : s.stop ≠ 0) (gone : Pid → Bool) :
    Stops (linger o gone s) := by
  rw [Pan.linger]
  split <;> exact ⟨h.1, .inr hstop⟩

def Stopped (s : State) : Prop := s.ctl = .linger → s.stop ≠ 0

theorem Stopped.step (h : Stopped s) {a : Action} (hstep : step o s a = some t) : Stopped t := by
  cases stepped hstep with
  | @launch rand birth _ hctl heq =>
    obtain ⟨i, colle, -, -, rfl⟩ | rfl := schedule_cases heq
    · rw [Stopped, launch_ctl]
      split <;> exact nofun
    · exact nofun
  | @reap gone wait left hctl =>
    obtain ⟨err, herr⟩ | herr := checkPids_ctl (o := o) gone wait left s
    all_goals
      rw [Stopped, herr]
      exact nofun
  | @judge err hctl =>
    rw [judge]
    split
    · rename_i hstop
      exact fun _ => hstop.1
    · split <;> simp [Stopped]
  | @linger gone hctl =>
    have hstop := h hctl
    rw [linger]
    split <;> exact fun _ => hstop
  | enter | leave | govern => simp [Stopped]
  | signal | other => exact h

theorem Stops.step (h : Stops s) (hstopped : Stopped s) {a : Action}
    (hok : Ok o s a) (hstep : step o s a = some t) : Stops t := by
  cases stepped hstep with
  | @signal sig hover =>
    refine ⟨h.1, .inl ?_⟩
    rw [waitHandler_received]
    rfl
  | enter _ hs => exact absurd (h.not_schedules.symm.trans hs) Bool.false_ne_true
  | @launch rand birth _ hctl heq =>
    obtain ⟨i, colle, -, -, rfl⟩ | rfl := schedule_cases heq
    · exact ⟨h.1, h.2.imp_left fun hreceived => foldl_received (.inl hreceived)⟩
    · refine ⟨h.1, .inl ?_⟩
      rw [waitHandler_received]
      rfl
  | leave => exact h
  | @govern stopFile gone hctl =>
    exact ⟨govern_forkInRoad stopFile gone h.1, .inr (h.govern stopFile gone)⟩
  | reap =>
    have hsame := checkPids_same hok
    refine ⟨hsame.forkInRoad.trans h.1, ?_⟩
    rw [hsame.ratchet, hsame.stop]
    exact h.2
  | @judge err hctl => exact h.judge err
  | @linger gone hctl => exact h.linger (hstopped hctl) gone
  | other => exact h

def Last (s t : State) : Prop :=
  t.births = s.births ∧ (t.ctl = .launch → s.ctl = .launch) ∨
    s.ctl = .launch ∧ t.ctl ≠ .launch ∧ ∃ b, t.births = s.births ++ [b]

theorem Last.trans {u : State} (h : Last s t) (h' : Last t u) : Last s u := by
  rcases h with ⟨hbirths, hctl⟩ | ⟨hctl, hnot, b, hbirths⟩
  · rcases h' with ⟨hbirths', hctl'⟩ | ⟨hctl', hnot', b, hbirths'⟩
    · exact .inl ⟨hbirths'.trans hbirths, fun h => hctl (hctl' h)⟩
    · exact .inr ⟨hctl hctl', hnot', b, hbirths ▸ hbirths'⟩
  · rcases h' with ⟨hbirths', hctl'⟩ | ⟨hctl', -⟩
    · exact .inr ⟨hctl, fun h => hnot (hctl' h), b, hbirths'.trans hbirths⟩
    · exact absurd hctl' hnot

theorem last_step {a : Action} (hok : Ok o s a) (hstep : step o s a = some t)
    (henter : a ≠ .enter) : Last s t := by
  by_cases hlaunch : t.ctl = .launch
  · obtain ⟨hctl, hbirths, -⟩ := launch_stays hstep henter hlaunch
    exact .inl ⟨hbirths, fun _ => hctl⟩
  have hsame (hbirths : t.births = s.births) : Last s t :=
    .inl ⟨hbirths, fun h => absurd h hlaunch⟩
  cases stepped hstep with
  | signal | enter | leave | other => exact hsame rfl
  | @launch rand birth _ hctl heq =>
    obtain ⟨i, colle, -, -, rfl⟩ | rfl := schedule_cases heq
    · exact .inr ⟨hctl, hlaunch, _, rfl⟩
    · exact hsame rfl
  | @govern stopFile gone => exact hsame (sameBooks_govern stopFile gone s).births
  | reap => exact hsame (checkPids_same hok).births
  | @judge err => exact hsame (sameBooks_judge err s).births
  | @linger gone => exact hsame (sameBooks_linger gone s).births

theorem forkInRoad_step (h : s.forkInRoad = false) {a : Action}
    (hok : Ok o s a) (hstep : step o s a = some t) : t.forkInRoad = false := by
  cases stepped hstep with
  | @launch rand birth _ hctl heq =>
    obtain ⟨i, colle, -, -, rfl⟩ | rfl := schedule_cases heq <;> exact h
  | @govern stopFile gone => exact govern_forkInRoad stopFile gone h
  | reap => exact (checkPids_same hok).forkInRoad.trans h
  | judge =>
    rw [judge]
    split
    · exact h
    · split <;> exact h
  | linger =>
    rw [linger]
    split <;> exact h
  | signal | enter | leave | other => exact h

theorem start_stopped {file : Text} {others : List Pid} (hfile : Registered file others) :
    Stopped (start o file others) := by
  rw [Stopped, (start_inv hfile).2]
  exact nofun

/-- When to stop: a signal has come, be it in `run_child`, or a child has failed that must not. -/
def Halts (o : Options) (s : State) : Action → Prop
  | .signal _ => True
  | .launch _ birth => birth.sigs ≠ []
  | .judge => o.hasBrakes = true ∧ s.ctl = .judge true
  | _ => False

theorem Halts.stops {a : Action} (h : Halts o s a) (hfork : s.forkInRoad = false)
    (hstep : step o s a = some t) : Stops t := by
  cases stepped hstep with
  | @signal sig =>
    refine ⟨hfork, .inl ?_⟩
    rw [waitHandler_received]
    rfl
  | @launch rand birth _ hctl heq =>
    obtain ⟨i, colle, -, -, rfl⟩ | rfl := schedule_cases heq
    · exact ⟨hfork, .inl (foldl_received (.inr h))⟩
    · refine ⟨hfork, .inl ?_⟩
      rw [waitHandler_received]
      rfl
  | @judge err hctl =>
    obtain ⟨hbrakes, htrue⟩ := h
    cases hctl.symm.trans htrue
    have hreceived : (note o true s).ratchet.recSignal.isSome = true := by
      rw [note, hbrakes]
      exact congrArg Option.isSome (waitHandler_received s.ratchet .sigint)
    rw [judge]
    split
    · exact ⟨hfork, .inl hreceived⟩
    · split <;> exact ⟨hfork, .inl hreceived⟩
  | _ => exact h.elim

/-- Unless it is to go on, the program runs no command any more once a signal has come, or a child
has failed that must not, but the one that is under way, whatever else happens. -/
theorem pan_stops {file : Text} {others : List Pid} (hfile : Registered file others)
    (hfork : o.forkInRoad = false) (h : Reaches (step o) (Ok o) (start o file others) s)
    {a : Action} {u : State} (hok : Ok o s a) (hhalts : Halts o s a) (hstep : step o s a = some u)
    (hafter : Reaches (step o) (Ok o) u t) :
    t.births = s.births ∨ s.ctl = .launch ∧ ∃ b, t.births = s.births ++ [b] := by
  obtain ⟨hstays, hstopped⟩ := @Reaches.invariant _ _ _ _ _ _
    (fun s => s.forkInRoad = false ∧ Stopped s) h ⟨hfork, start_stopped hfile⟩
    fun _ _ _ hs hok hstep => ⟨forkInRoad_step hs.1 hok hstep, hs.2.step hstep⟩
  have henter : a ≠ .enter := by
    rintro rfl
    exact hhalts
  obtain ⟨-, -, hlast⟩ := @Reaches.invariant _ _ _ _ _ _
    (fun t => Stops t ∧ Stopped t ∧ Last s t) hafter
    ⟨hhalts.stops hstays hstep, hstopped.step hstep, last_step hok hstep henter⟩
    fun s' a' _ hs hok hstep => by
      have henter : a' ≠ .enter := by
        rintro rfl
        cases stepped hstep with
        | enter _ hs' => exact absurd (hs.1.not_schedules.symm.trans hs') Bool.false_ne_true
      exact ⟨hs.1.step hs.2.1 hok hstep, hs.2.1.step hstep,
        hs.2.2.trans (last_step hok hstep henter)⟩
  rcases hlast with ⟨hbirths, -⟩ | ⟨hctl, -, hbirths⟩
  · exact .inl hbirths
  · exact .inr ⟨hctl, hbirths⟩

/-- A signal comes when the first of two commands is to be run. -/
theorem pan_stops_sample : ∃ s t : State,
    (t.births = s.births ∨ s.ctl = .launch ∧ ∃ b, t.births = s.births ++ [b]) ∧
      s.births = [] ∧ t.births.length = 1 ∧ t.ctl = .exited 0 := by
  have hrun : ((run (step sampleOptions) (Ok sampleOptions) (start sampleOptions [] [])
      [.enter]).bind fun s => (step sampleOptions s (.signal .sigint)).bind fun u =>
        (run (step sampleOptions) (Ok sampleOptions) u [.launch 0 (.started 901), .leave,
          .govern false fun _ => false,
          .reap (fun _ => false) (some (901, .signaled 2 false)) false, .judge,
          .linger fun _ => false]).map fun t =>
            (s.births.length, t.births.length, t.ctl)) = some (0, 1, .exited 0) := by
    decide +kernel
  obtain ⟨s, hs, hrun⟩ := Option.bind_eq_some_iff.mp hrun
  obtain ⟨u, hu, hrun⟩ := Option.bind_eq_some_iff.mp hrun
  obtain ⟨t, ht, hend⟩ := Option.map_eq_some_iff.mp hrun
  simp only [Prod.mk.injEq, List.length_eq_zero_iff] at hend
  have hok : Ok sampleOptions s (.signal .sigint) := Signal.noConfusion
  exact ⟨s, t, pan_stops registered_nil rfl (reaches_of_run hs) hok trivial hu (reaches_of_run ht),
    hend⟩

/-- No signal comes any more, `wait` returns as long as there are children, and a group that has
been sent `SIGKILL` is gone when the next signal is sent to it. -/
def Settling (o : Options) (s : State) (a : Action) : Prop :=
  Unbroken o s a ∧ match a with
    | .signal _ => False
    | .reap _ none _ => s.pids = []
    | .linger gone => ∀ p ∈ entries s.orphans, (p, some .sigkill) ∈ s.kills → gone p = true
    | _ => True

instance (o : Options) (s : State) : (a : Action) → Decidable (Settling o s a)
  | .signal _ => isFalse And.right
  | .reap gone none left =>
    inferInstanceAs (Decidable (Unbroken o s (.reap gone none left) ∧ s.pids = []))
  | .reap gone (some child) left =>
    inferInstanceAs (Decidable (Unbroken o s (.reap gone (some child) left) ∧ True))
  | .linger gone => @instDecidableAnd _ _
      (inferInstanceAs (Decidable (Unbroken o s (.linger gone))))
      (List.decidableBAll (fun p => (p, some .sigkill) ∈ s.kills → gone p = true)
        (entries s.orphans))
  | .launch rand birth => inferInstanceAs (Decidable (Unbroken o s (.launch rand birth) ∧ True))
  | .other op => inferInstanceAs (Decidable (Unbroken o s (.other op) ∧ True))
  | .enter | .leave | .govern _ _ | .judge =>
    inferInstanceAs (Decidable ((True ∧ True) ∧ True))

structure Stopping (o : Options) (s : State) : Prop where
  sound : Sound o s
  stopped : Stopped s
  stops : Stops s

theorem Stopping.step (h : Stopping o s) {a : Action} (hok : Unbroken o s a)
    (hstep : step o s a = some t) : Stopping o t :=
  ⟨h.sound.step hok hstep, h.stopped.step hstep, h.stops.step h.stopped hok.1 hstep⟩

/-- How far `SIGKILL` is ahead when the last signal sent was this one. -/
def distance : Option Signal → Nat
  | some .sighup => 1
  | some .sigterm => 2
  | some .sigint => 3
  | none | some .sigusr1 => 4
  | some .sigkill | some .sigalrm | some .sigusr2 => 5

def turnsLeft (s : State) : Nat :=
  if entries s.orphans = [] then 1
  else if ∀ p ∈ entries s.orphans, (p, some .sigkill) ∈ s.kills then 2
  else 2 + distance s.ratchet.lastsent + if s.ratchet.recSignal.isSome then 1 else 0

theorem distance_bounds (sig : Option Signal) : 1 ≤ distance sig ∧ distance sig ≤ 5 := by
  cases sig with
  | none => decide
  | some sig => cases sig <;> decide

theorem distance_nudge {r : Ratchet} (hquiet : Quiet r) (h : r.recSignal = none) :
    (waitHandler r (some .sigint)).sendSignal = some .sigkill ∨
      distance (waitHandler r (some .sigint)).lastsent + 1 ≤ distance r.lastsent := by
  obtain ⟨recSignal, sendSignal, lastsent⟩ := r
  obtain rfl : sendSignal = none := hquiet h
  obtain rfl : recSignal = none := h
  cases lastsent with
  | none => exact .inr (by decide)
  | some sig =>
    cases sig with
    | sighup => exact .inl rfl
    | _ => exact .inr (by decide)

theorem orphans_propagate (gone : Pid → Bool) (s : State) :
    entries (propagateSignal gone s).orphans = (entries s.orphans).filter (!gone ·) :=
  entries_clearOrphans gone s.orphans s.zoofile

theorem mem_kills_propagate {gone : Pid → Bool} {p : Pid} (hp : p ∈ entries s.orphans) :
    (p, s.ratchet.sendSignal) ∈ (propagateSignal gone s).kills :=
  List.mem_append_right _ (List.mem_map.mpr ⟨p, hp, rfl⟩)

theorem turnsLeft_le (s : State) : turnsLeft s ≤ 8 := by
  have hbounds := distance_bounds s.ratchet.lastsent
  rw [turnsLeft]
  split
  · decide
  · split
    · decide
    · split <;> omega

theorem turnsLeft_propagate (hquiet : Quiet s.ratchet) {gone : Pid → Bool}
    (hgone : ∀ p ∈ entries s.orphans, (p, some .sigkill) ∈ s.kills → gone p = true)
    (horphans : entries s.orphans ≠ []) :
    turnsLeft (propagateSignal gone (nudge s)) < turnsLeft s := by
  have hrest : entries (propagateSignal gone (nudge s)).orphans =
    (entries s.orphans).filter (!gone ·) := orphans_propagate gone (nudge s)
  have hratchet : (propagateSignal gone (nudge s)).ratchet =
    ⟨none, none, (nudge s).ratchet.lastsent⟩ := rfl
  have hbounds := distance_bounds s.ratchet.lastsent
  by_cases hempty : entries (propagateSignal gone (nudge s)).orphans = []
  · rw [turnsLeft, if_pos hempty, turnsLeft, if_neg horphans]
    split <;> omega
  · have hleft : ¬∀ p ∈ entries s.orphans, (p, some .sigkill) ∈ s.kills := by
      intro hall
      refine hempty (hrest.trans (List.filter_eq_nil_iff.mpr fun p hp => ?_))
      simp [hgone p hp (hall p hp)]
    have hkilled (hsend : (nudge s).ratchet.sendSignal = some .sigkill) :
        ∀ p ∈ entries (propagateSignal gone (nudge s)).orphans,
          (p, some .sigkill) ∈ (propagateSignal gone (nudge s)).kills := by
      intro p hp
      rw [hrest] at hp
      rw [← hsend]
      exact mem_kills_propagate (s := nudge s) (List.mem_of_mem_filter hp)
    have hbefore : turnsLeft s = 2 + distance s.ratchet.lastsent +
        if s.ratchet.recSignal.isSome then 1 else 0 := by
      rw [turnsLeft, if_neg horphans, if_neg hleft]
    rw [hbefore, turnsLeft, if_neg hempty]
    split
    · omega
    · rename_i hnot
      have hsend := mt hkilled hnot
      rw [hratchet]
      cases hreceived : s.ratchet.recSignal with
      | some sig =>
        have hsame : (nudge s).ratchet = s.ratchet := by
          rw [nudge, hreceived]
          rfl
        rw [hsame]
        simp
      | none =>
        have hnudged : (nudge s).ratchet = waitHandler s.ratchet (some .sigint) := by
          rw [nudge, hreceived]
          rfl
        rw [hnudged] at hsend ⊢
        have hnear := (distance_nudge hquiet hreceived).resolve_left hsend
        simp only [Option.isSome_none, Bool.false_eq_true, if_false]
        omega

def State.ahead (s : State) : Nat :=
  let active := (entries s.running).length
  match s.ctl with
  | .schedule => 5 * active + 14
  | .launch => 5 * active + 20
  | .govern => 5 * active + 13
  | .reap => 5 * active + if s.stop = 0 then 16 else 12
  | .judge _ => 5 * active + if s.stop ≠ 0 ∧ active = 0 then 11 else 15
  | .linger => turnsLeft s
  | .exited _ | .aborted | .undefined => 0

theorem ahead_le (s : State) : s.ahead ≤ 5 * (entries s.running).length + 20 := by
  have hturns := turnsLeft_le s
  rw [State.ahead]
  split
  · omega
  · omega
  · omega
  · split <;> omega
  · split <;> omega
  · omega
  · omega
  · omega
  · omega

def Action.own : Action → Bool
  | .other _ => false
  | _ => true

theorem active_govern (stopFile : Bool) (gone : Pid → Bool) (s : State) :
    (entries (govern stopFile gone s).running).length = (entries s.running).length := by
  have hactive := congrArg List.length (sameBooks_govern stopFile gone s).active
  rwa [State.active, State.active, List.length_map, List.length_map] at hactive

theorem ahead_reap (hsound : Sound o s) (hctl : s.ctl = .reap) {gone : Pid → Bool}
    {wait : Option (Pid × Ending)} {left : Bool} (hok : Settling o s (.reap gone wait left)) :
    (checkPids o gone wait left s).ahead < s.ahead := by
  have hinv := hsound.inv (by rw [hctl]; rfl)
  obtain ⟨-, err, herr⟩ := hinv.checkPids gone hok.1.1
  have hstop := (checkPids_same hok.1.1).stop
  cases wait with
  | none =>
    have hidle : entries s.running = [] := List.map_eq_nil_iff.mp hok.2
    have hidle' : entries (checkPids o gone none left s).running = [] := hidle
    rw [State.ahead, State.ahead, hctl, herr, hstop, hidle, hidle', List.length_nil]
    by_cases hzero : s.stop = 0 <;> simp [hzero]
  | some child =>
    obtain ⟨cpid, ending⟩ := child
    obtain ⟨i, r, hr, -, heq⟩ := checkPids_eq gone (hinv.mem_pids hok.1.1.1) hok.1.1.2 left
    have hlength := (entries_set_none hr).length_eq
    have hrunning : (checkPids o gone (some (cpid, ending)) left s).running =
      s.running.set i none := by rw [heq]; rfl
    rw [List.length_cons] at hlength
    rw [State.ahead, State.ahead, hctl, herr, hstop, hrunning, hlength]
    dsimp only
    split <;> split <;> omega

theorem ahead_linger (h : s.ctl = .linger) : s.ahead = turnsLeft s := by
  rw [State.ahead, h]

theorem ahead_schedule (h : s.ctl = .schedule) : s.ahead = 5 * (entries s.running).length + 14 := by
  rw [State.ahead, h]

theorem ahead_exited {status : Nat} (h : s.ctl = .exited status) : s.ahead = 0 := by
  rw [State.ahead, h]

theorem judge_running (err : Bool) : (judge o err s).running = s.running := by
  rw [judge]
  split
  · rfl
  · split <;> rfl

theorem judge_ctl (o : Options) (err : Bool) (s : State) :
    (judge o err s).ctl = if s.stop ≠ 0 ∧ s.numActive = 0 then .linger else .schedule := by
  have hnote : (note o err s).stop = s.stop ∧ (note o err s).numActive = s.numActive := ⟨rfl, rfl⟩
  rw [judge, hnote.1, hnote.2]
  by_cases hstop : s.stop ≠ 0 ∧ s.numActive = 0
  · rw [if_pos hstop, if_pos hstop]
  · rw [if_neg hstop, if_neg hstop]
    split <;> rfl

theorem ahead_judge (hinv : Inv o s) {err : Bool} (hctl : s.ctl = .judge err) :
    (judge o err s).ahead < s.ahead := by
  have hnext := judge_ctl o err s
  have hahead : s.ahead = 5 * (entries s.running).length +
      if s.stop ≠ 0 ∧ (entries s.running).length = 0 then 11 else 15 := by rw [State.ahead, hctl]
  have hidle : s.numActive = 0 ↔ (entries s.running).length = 0 := by
    rw [hinv.active]
    omega
  simp only [hidle] at hnext
  by_cases hends : s.stop ≠ 0 ∧ (entries s.running).length = 0
  · rw [if_pos hends] at hnext hahead
    have hturns := turnsLeft_le (judge o err s)
    rw [ahead_linger hnext, hahead]
    omega
  · rw [if_neg hends] at hnext hahead
    rw [ahead_schedule hnext, judge_running, hahead]
    omega

theorem ahead_turn (hsound : Sound o s) (hctl : s.ctl = .linger) {gone : Pid → Bool}
    (hgone : ∀ p ∈ entries s.orphans, (p, some .sigkill) ∈ s.kills → gone p = true) :
    (linger o gone s).ahead < s.ahead := by
  have hinv := hsound.inv (by rw [hctl]; rfl)
  rw [ahead_linger hctl]
  by_cases horphans : entries s.orphans = []
  · have hexit := (hinv.linger_end (hsound.idle hctl) horphans gone).1
    rw [ahead_exited hexit, turnsLeft, if_pos horphans]
    exact Nat.zero_lt_one
  · have hstay : (propagateSignal gone (nudge s)).ctl = .linger := hctl
    rw [linger, if_neg (mt all_isNone_iff.mp horphans), ahead_linger hstay]
    exact turnsLeft_propagate hinv.quiet hgone horphans

theorem ahead_launch (hsound : Sound o s) (hctl : s.ctl = .launch) {rand : Nat} {birth : Birth}
    (hok : Unbroken o s (.launch rand birth)) (heq : schedule o rand birth s = some t) :
    t.ahead < s.ahead := by
  have hinv := hsound.inv (by rw [hctl]; rfl)
  obtain ⟨i, colle, hi, hcolle, hlaunch⟩ := hinv.schedule_eq (hsound.poised hctl).1 rand birth
  cases heq.symm.trans hlaunch
  have hactive := (hinv.launch hi hcolle hok.1 hok.2).active
  have hborn : (launch o (s.index o rand) i colle birth s).numActive ≤ s.numActive + 1 := by
    change (if birth.cpid.isSome then s.numActive + 1 else s.numActive) ≤ _
    split <;> omega
  have hlength : (entries (launch o (s.index o rand) i colle birth s).running).length ≤
      (entries s.running).length + 1 := by
    rw [hactive, hinv.active] at hborn
    omega
  have hahead : s.ahead = 5 * (entries s.running).length + 20 := by rw [State.ahead, hctl]
  have hnext := launch_ctl o (s.index o rand) i colle birth s
  rw [hahead]
  cases hwild : birth.wild with
  | false =>
    rw [hwild, if_neg Bool.false_ne_true] at hnext
    rw [ahead_schedule hnext]
    omega
  | true =>
    rw [hwild, if_pos rfl] at hnext
    rw [State.ahead, hnext]
    exact Nat.succ_pos _

theorem Stopping.ahead (h : Stopping o s) {a : Action} (hok : Settling o s a)
    (hstep : Pan.step o s a = some t) : t.ahead + (if a.own then 1 else 0) ≤ s.ahead := by
  cases stepped hstep with
  | signal => exact hok.2.elim
  | enter _ hs => exact absurd (h.stops.not_schedules.symm.trans hs) Bool.false_ne_true
  | launch hctl heq => exact ahead_launch h.sound hctl hok.1 heq
  | leave hctl =>
    rw [State.ahead, State.ahead, hctl]
    exact Nat.le_refl _
  | @govern stopFile gone hctl =>
    have hstop := h.stops.govern stopFile gone
    have hactive := active_govern stopFile gone s
    rw [State.ahead, State.ahead, hctl]
    dsimp only
    rw [hactive, if_neg hstop]
    exact Nat.le_refl _
  | reap hctl => exact ahead_reap h.sound hctl hok
  | judge hctl => exact ahead_judge (h.sound.inv (by rw [hctl]; rfl)) hctl
  | linger hctl => exact ahead_turn h.sound hctl hok.2
  | other => exact Nat.le_refl _

theorem Sound.progress (h : Sound o s) (hstops : Stops s) (hover : s.ctl.over = false) :
    ∃ a, a.own = true ∧ Settling o s a ∧ (Pan.step o s a).isSome = true := by
  cases hctl : s.ctl with
  | schedule =>
    refine ⟨.leave, rfl, ⟨⟨trivial, trivial⟩, trivial⟩, ?_⟩
    rw [Pan.step, if_pos ⟨hctl, by rw [hstops.not_schedules]; exact Bool.false_ne_true⟩]
    rfl
  | launch =>
    have hunforked : Birth.unforked.Ok o s := ⟨Birth.noConfusion, List.forall_mem_nil _, List.not_mem_nil⟩
    obtain ⟨i, colle, -, -, hlaunch⟩ :=
      (h.inv hover).schedule_eq (h.poised hctl).1 0 .unforked
    refine ⟨.launch 0 .unforked, rfl, ⟨⟨hunforked, rfl⟩, trivial⟩, ?_⟩
    rw [Pan.step, if_pos hctl, hlaunch]
    rfl
  | govern =>
    refine ⟨.govern false fun _ => false, rfl, ⟨⟨trivial, trivial⟩, trivial⟩, ?_⟩
    rw [Pan.step, if_pos hctl]
    rfl
  | reap =>
    have hstep (wait : Option (Pid × Ending)) :
        (Pan.step o s (.reap (fun _ => false) wait false)).isSome = true := by
      rw [Pan.step, if_pos hctl]
      rfl
    by_cases hpids : s.pids = []
    · exact ⟨.reap (fun _ => false) none false, rfl, ⟨⟨trivial, trivial⟩, hpids⟩, hstep none⟩
    · obtain ⟨cpid, hcpid⟩ := List.exists_mem_of_ne_nil _ hpids
      exact ⟨.reap (fun _ => false) (some (cpid, .exited 0)) false, rfl,
        ⟨⟨⟨.inl hcpid, rfl⟩, trivial⟩, trivial⟩, hstep (some (cpid, .exited 0))⟩
  | judge err =>
    refine ⟨.judge, rfl, ⟨⟨trivial, trivial⟩, trivial⟩, ?_⟩
    rw [Pan.step, hctl]
    rfl
  | linger =>
    refine ⟨.linger fun _ => true, rfl, ⟨⟨trivial, trivial⟩, fun _ _ _ => rfl⟩, ?_⟩
    rw [Pan.step, if_pos hctl]
    rfl
  | exited status | undefined =>
    rw [hctl] at hover
    cases hover
  | aborted => exact absurd hctl h.alive

/-- Once it is to stop, and no further signals come, the program takes no more than five steps for
each of its children and twenty beside them, and as long as it has not ended it can take one. -/
theorem pan_terminates {file : Text} {others : List Pid} (hfile : Registered file others)
    (h : Reaches (step o) (Unbroken o) (start o file others) s) (hstops : Stops s)
    {as : List Action} (hrun : run (step o) (Settling o) s as = some t) :
    as.countP Action.own ≤ 5 * s.pids.length + 20 ∧
      (t.ctl.over = false →
        ∃ a, a.own = true ∧ Settling o t a ∧ (step o t a).isSome = true) := by
  have hstopped := h.invariant (start_stopped hfile) fun _ _ _ hs _ hstep => hs.step hstep
  have hstart : Stopping o s := ⟨reaches_sound hfile h, hstopped, hstops⟩
  obtain ⟨hend, hcost⟩ := @run_count _ _ _ _ _ (Stopping o) State.ahead Action.own
    (fun _ _ _ hs hok hstep => ⟨hs.step hok.1 hstep, hs.ahead hok hstep⟩) s t as hstart hrun
  refine ⟨?_, fun hover => hend.sound.progress hend.stops hover⟩
  have hle := ahead_le s
  rw [State.pids, List.length_map]
  omega

/-- A child ends at a signal, and leaves a group that only `SIGKILL` ends. -/
def settlingActions : List Action :=
  [.leave, .govern false fun _ => false,
    .reap (fun _ => false) (some (901, .signaled 15 false)) true, .judge, .linger fun _ => false,
    .linger fun _ => false, .linger fun _ => true, .linger fun _ => true]

theorem pan_terminates_sample : ∃ s t, s.pids = [901] ∧
    run (step sampleOptions) (Settling sampleOptions) s settlingActions = some t ∧
    settlingActions.countP Action.own ≤ 5 * s.pids.length + 20 ∧
    (901, some .sigkill) ∈ t.kills ∧ t.ctl = .exited 0 := by
  have hrun : ((run (step sampleOptions) (Unbroken sampleOptions) (start sampleOptions [] [])
      [.enter, .launch 0 (.started 901), .signal .sigterm]).bind fun s =>
        (run (step sampleOptions) (Settling sampleOptions) s settlingActions).map fun t =>
          ((s.forkInRoad, s.ratchet.recSignal.isSome), s.pids,
            decide ((901, some .sigkill) ∈ t.kills), t.ctl)) =
      some ((false, true), [901], true, .exited 0) := by decide +kernel
  obtain ⟨s, hs, hrun⟩ := Option.bind_eq_some_iff.mp hrun
  obtain ⟨t, ht, hend⟩ := Option.map_eq_some_iff.mp hrun
  simp only [Prod.mk.injEq, decide_eq_true_eq] at hend
  obtain ⟨⟨hfork, hreceived⟩, hpids, hkill, hctl⟩ := hend
  exact ⟨s, t, hpids, ht,
    (pan_terminates registered_nil (reaches_of_run hs) ⟨hfork, .inl hreceived⟩ ht).1, hkill, hctl⟩

end MceTest.Pan

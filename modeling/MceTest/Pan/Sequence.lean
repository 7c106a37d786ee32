import MceTest.Pan.Accounts

/-! Which commands `ltp-pan` runs, and how many times it starts one. -/

namespace MceTest.Pan

open MceTest.Library MceTest.Library.Registry MceTest.Library.Transition

/-- What is counted down: every turn in sequential mode, else every child. -/
def State.turns (o : Options) (s : State) : Nat :=
  if o.sequential then s.births.length else s.born.length

structure Turns (o : Options) (s : State) : Prop where
  index : o.sequential = true → s.c = s.births.length % o.coll.length
  order : o.sequential = true → ∀ k < s.births.length,
    (s.births[k]?).map Prod.fst = o.coll[k % o.coll.length]?
  left : 0 ≤ o.firstStarts → 0 ≤ s.starts ∧ s.starts + s.turns o = o.firstStarts
  endless : o.firstStarts < 0 → s.starts < 0

variable {o : Options} {s t : State}

theorem Turns.of_eq (h : Turns o s) (hc : t.c = s.c) (hbirths : t.births = s.births)
    (hstarts : t.starts = s.starts) : Turns o t := by
  have hturns : t.turns o = s.turns o := by
    rw [State.turns, State.turns, State.born, State.born, hbirths]
  refine ⟨?_, ?_, ?_, ?_⟩
  · rw [hc, hbirths]
    exact h.index
  · rw [hbirths]
    exact h.order
  · rw [hstarts, hturns]
    exact h.left
  · rw [hstarts]
    exact h.endless

theorem next_turn (n : Nat) {len : Nat} (hlen : 0 < len) :
    (if n % len + 1 ≥ len then 0 else n % len + 1) = (n + 1) % len := by
  have hlt := Nat.mod_lt n hlen
  have hmod : (n + 1) % len = (n % len + 1) % len := (Nat.mod_add_mod n len 1).symm
  rw [hmod]
  split
  · rw [show n % len + 1 = len by omega, Nat.mod_self]
  · rw [Nat.mod_eq_of_lt (by omega : n % len + 1 < len)]

theorem turns_launch {c i : Nat} {colle : CollEntry} {birth : Birth} :
    (launch o c i colle birth s).turns o =
      s.turns o + if birth.cpid.isSome || o.sequential then 1 else 0 := by
  have hbirths : (launch o c i colle birth s).births = s.births ++ [(colle, birth)] := rfl
  rw [State.turns, State.turns, State.born, State.born, hbirths, List.filterMap_append,
    List.length_append, List.length_append]
  cases hseq : o.sequential <;> cases birth <;> rfl

theorem Turns.launch (h : Turns o s) (hne : s.starts ≠ 0) {rand i : Nat}
    {colle : CollEntry} {birth : Birth} (hcolle : o.coll[s.index o rand]? = some colle) :
    Turns o (launch o (s.index o rand) i colle birth s) := by
  have hlen := List.length_pos_iff.mpr o.commands
  have hbirths : (Pan.launch o (s.index o rand) i colle birth s).births =
    s.births ++ [(colle, birth)] := rfl
  have hstarts : (Pan.launch o (s.index o rand) i colle birth s).starts =
    if (birth.cpid.isSome || o.sequential) && 0 < s.starts then s.starts - 1 else s.starts := rfl
  refine ⟨fun hseq => ?_, fun hseq k hk => ?_, fun hfirst => ?_, fun hfirst => ?_⟩
  · have hc : (Pan.launch o (s.index o rand) i colle birth s).c =
        if s.index o rand + 1 ≥ o.coll.length then 0 else s.index o rand + 1 := if_pos hseq
    rw [hc, hbirths, State.index, if_pos hseq, h.index hseq, next_turn _ hlen, List.length_append,
      List.length_singleton]
  · rw [hbirths, List.length_append, List.length_singleton] at hk
    rw [hbirths]
    rcases Nat.lt_succ_iff_lt_or_eq.mp hk with hlt | rfl
    · rw [List.getElem?_append_left hlt]
      exact h.order hseq k hlt
    · rw [State.index, if_pos hseq, h.index hseq] at hcolle
      rw [List.getElem?_append_right (Nat.le_refl _), Nat.sub_self, hcolle]
      rfl
  · obtain ⟨hnonneg, hsum⟩ := h.left hfirst
    rw [hstarts, turns_launch]
    have hpos : 0 < s.starts := by omega
    cases hcount : (birth.cpid.isSome || o.sequential)
    · simp only [Bool.false_and, Bool.false_eq_true, if_false]
      omega
    · simp only [Bool.true_and, hpos, decide_true, if_true]
      omega
  · have hneg := h.endless hfirst
    have hnot : ¬0 < s.starts := by omega
    rw [hstarts, if_neg (by simp [hnot])]
    exact hneg

theorem govern_starts (stopFile : Bool) (gone : Pid → Bool) (s : State) :
    (govern stopFile gone s).starts = s.starts ∧ (govern stopFile gone s).c = s.c := by
  rw [govern]
  split <;> exact ⟨rfl, rfl⟩

theorem judge_starts (err : Bool) (s : State) :
    (judge o err s).starts = s.starts ∧ (judge o err s).c = s.c := by
  rw [judge]
  split
  · exact ⟨rfl, rfl⟩
  · split <;> exact ⟨rfl, rfl⟩

theorem linger_starts (gone : Pid → Bool) (s : State) :
    (linger o gone s).starts = s.starts ∧ (linger o gone s).c = s.c := by
  rw [linger]
  split <;> exact ⟨rfl, rfl⟩

theorem Turns.step (h : Turns o s) (hpoised : Poised o s) {a : Action} (hok : Ok o s a)
    (hstep : step o s a = some t) : Turns o t := by
  cases stepped hstep with
  | @launch rand birth _ hctl heq =>
    obtain ⟨i, colle, -, hcolle, rfl⟩ | rfl := schedule_cases heq
    · exact h.launch (hpoised hctl).2 hcolle
    · refine ⟨fun hseq => ?_, h.order, h.left, h.endless⟩
      rw [← h.index hseq]
      exact if_pos hseq
  | @govern stopFile gone hctl =>
    obtain ⟨hstarts, hc⟩ := govern_starts stopFile gone s
    exact h.of_eq hc (sameBooks_govern stopFile gone s).births hstarts
  | reap =>
    have hsame := checkPids_same hok
    exact h.of_eq hsame.c hsame.births hsame.starts
  | @judge err hctl =>
    obtain ⟨hstarts, hc⟩ := judge_starts (o := o) err s
    exact h.of_eq hc (sameBooks_judge err s).births hstarts
  | @linger gone hctl =>
    obtain ⟨hstarts, hc⟩ := linger_starts (o := o) gone s
    exact h.of_eq hc (sameBooks_linger gone s).births hstarts
  | signal | enter | leave | other => exact h.of_eq rfl rfl rfl

theorem start_turns (o : Options) (file : Text) (others : List Pid) :
    Turns o (start o file others) := by
  have hturns : (start o file others).turns o = 0 := by
    rw [State.turns]
    exact ite_self _
  refine ⟨fun _ => (Nat.zero_mod _).symm, fun _ => nofun, fun hfirst => ⟨hfirst, ?_⟩, id⟩
  rw [hturns]
  exact Int.add_zero _

theorem reaches_turns {file : Text} {others : List Pid} (hfile : Registered file others)
    (h : Reaches (step o) (Ok o) (start o file others) t) : Turns o t :=
  (@Reaches.invariant _ _ _ _ _ _ (fun s => Poised o s ∧ Turns o s) h
    ⟨start_poised hfile, start_turns o file others⟩ fun _ _ _ hs hok hstep =>
      ⟨hs.1.step hstep, hs.2.step hs.1 hok hstep⟩).2

/-- In sequential mode the commands are run one after the other, again and again.  No more turns
are taken than there are starts, where a command that could not be run has taken its turn in
sequential mode only. -/
theorem pan_turns {file : Text} {others : List Pid} (hfile : Registered file others)
    (h : Reaches (step o) (Ok o) (start o file others) t) :
    (o.sequential = true → ∀ k < t.births.length,
      (t.births[k]?).map Prod.fst = o.coll[k % o.coll.length]?) ∧
    (0 ≤ o.firstStarts →
      ((if o.sequential then t.births.length else t.born.length) : Nat) ≤ o.firstStarts) := by
  have hturns := reaches_turns hfile h
  refine ⟨hturns.order, fun hfirst => ?_⟩
  obtain ⟨hnonneg, hsum⟩ := hturns.left hfirst
  change (t.turns o : Int) ≤ o.firstStarts
  omega

theorem pan_turns_sample : ∃ t : State, t.ctl = .exited 1 ∧ ∀ k < t.births.length,
    (t.births[k]?).map Prod.fst = sampleOptions.coll[k % sampleOptions.coll.length]? := by
  obtain ⟨t, h, hctl⟩ := sample_reaches
  exact ⟨t, hctl, (pan_turns registered_nil (reaches_ok h)).1 rfl⟩

/-- No signal comes, and nobody asks for an end by the file for that. -/
def Undisturbed (o : Options) (s : State) (a : Action) : Prop :=
  Ok o s a ∧ match a with
    | .signal _ => False
    | .launch _ birth => birth.sigs = []
    | .govern stopFile _ => stopFile = false
    | _ => True

instance (o : Options) (s : State) : (a : Action) → Decidable (Undisturbed o s a)
  | .signal _ => isFalse And.right
  | .govern stopFile gone =>
    inferInstanceAs (Decidable (Ok o s (.govern stopFile gone) ∧ stopFile = false))
  | .launch rand birth =>
    inferInstanceAs (Decidable (Ok o s (.launch rand birth) ∧ birth.sigs = []))
  | .reap gone wait left => inferInstanceAs (Decidable (Ok o s (.reap gone wait left) ∧ True))
  | .other op => inferInstanceAs (Decidable (Ok o s (.other op) ∧ True))
  | .enter | .leave | .judge | .linger _ => inferInstanceAs (Decidable (True ∧ True))

theorem Undisturbed.unbroken {a : Action} (h : Undisturbed o s a) : Unbroken o s a := by
  refine ⟨h.1, ?_⟩
  cases a with
  | launch => exact h.2
  | _ => trivial

structure Calm (s : State) : Prop where
  silent : s.ratchet.recSignal = none
  done : s.stop ≠ 0 → s.starts = 0
  linger : s.ctl = .linger → s.stop ≠ 0
  exited : ∀ status, s.ctl = .exited status → s.stop ≠ 0

theorem govern_silent (gone : Pid → Bool) (h : s.ratchet.recSignal = none) :
    govern false gone s = { s with stop := if s.starts = 0 then s.stop + 1 else s.stop } := by
  rw [govern]
  simp [h]

theorem Calm.step (h : Calm s) (hsound : Sound o s) (hbrakes : o.hasBrakes = false) {a : Action}
    (hok : Undisturbed o s a) (hstep : step o s a = some t) : Calm t := by
  cases stepped hstep with
  | signal => exact hok.2.elim
  | enter => exact ⟨h.silent, h.done, by simp, by simp⟩
  | @launch rand birth _ hctl heq =>
    obtain ⟨hactive, hstarts⟩ := hsound.poised hctl
    obtain ⟨i, colle, -, -, hlaunch⟩ :=
      (hsound.inv (by rw [hctl]; rfl)).schedule_eq hactive rand birth
    cases heq.symm.trans hlaunch
    have hratchet : (launch o (s.index o rand) i colle birth s).ratchet = s.ratchet := by
      change birth.sigs.foldl _ s.ratchet = _
      rw [hok.2, List.foldl_nil]
    have hctl' := launch_ctl o (s.index o rand) i colle birth s
    refine ⟨hratchet ▸ h.silent, fun hne => absurd (h.done hne) hstarts, ?_, ?_⟩
    all_goals
      rw [hctl']
      split <;> simp
  | leave => exact ⟨h.silent, h.done, by simp, by simp⟩
  | @govern stopFile gone hctl =>
    obtain rfl : stopFile = false := hok.2
    rw [govern_silent gone h.silent]
    refine ⟨h.silent, ?_, by simp, by simp⟩
    change (if s.starts = 0 then s.stop + 1 else s.stop) ≠ 0 → s.starts = 0
    split
    · exact fun _ => ‹_›
    · exact h.done
  | @reap gone wait left hctl =>
    obtain ⟨-, err, herr⟩ := (hsound.inv (by rw [hctl]; rfl)).checkPids gone hok.1
    have hsame := checkPids_same hok.1
    refine ⟨hsame.ratchet ▸ h.silent, ?_, ?_, ?_⟩
    · rw [hsame.stop, hsame.starts]
      exact h.done
    · rw [herr]
      simp
    · rw [herr]
      simp
  | @judge err hctl =>
    have hratchet : (note o err s).ratchet = s.ratchet := by
      rw [note, hbrakes, Bool.and_false]
      rfl
    rw [judge]
    split
    · rename_i hstop
      exact ⟨hratchet ▸ h.silent, h.done, fun _ => hstop.1, by simp⟩
    · split
      · refine ⟨?_, h.done, by simp, by simp⟩
        rw [hratchet]
        exact h.silent
      · exact ⟨hratchet ▸ h.silent, h.done, by simp, by simp⟩
  | @linger gone hctl =>
    have hstop := h.linger hctl
    rw [Pan.linger]
    split
    · exact ⟨h.silent, h.done, fun _ => hstop, fun _ _ => hstop⟩
    · exact ⟨rfl, h.done, fun _ => hstop, fun _ _ => hstop⟩
  | other => exact ⟨h.silent, h.done, h.linger, h.exited⟩

/-- A sequential run that nobody disturbs runs every command once, in their order, and takes note
of the end of every child that has come of it. -/
theorem pan_runs_all {file : Text} {others : List Pid} (hfile : Registered file others)
    (hsequential : o.sequential = true) (hdefault : o.starts = -1) (huntimed : o.timed = false)
    (hbrakes : o.hasBrakes = false)
    (h : Reaches (step o) (Undisturbed o) (start o file others) t) {status : Nat}
    (hexited : t.ctl = .exited status) :
    t.births.map Prod.fst = o.coll ∧
      t.born.Perm (t.ended.map fun e => (e.1.pgrp, e.1.cmd)) := by
  have hreaches : Reaches (step o) (Unbroken o) (start o file others) t :=
    h.mono fun _ _ => Undisturbed.unbroken
  have hstart : Calm (start o file others) := by
    have hctl := (start_inv (o := o) hfile).2
    exact ⟨rfl, fun hne => absurd rfl hne, by rw [hctl]; exact nofun, by rw [hctl]; exact nofun⟩
  have hcalm := (@Reaches.invariant _ _ _ _ _ _ (fun s => Sound o s ∧ Calm s) h
    ⟨start_sound hfile, hstart⟩ fun s a u hs hok hstep =>
      ⟨hs.1.step hok.unbroken hstep, hs.2.step hs.1 hbrakes hok hstep⟩).2
  have hturns := reaches_turns hfile (reaches_ok hreaches)
  have hfirst : o.firstStarts = o.coll.length := by
    simp [Options.firstStarts, hdefault, huntimed, hsequential]
  have hlength : t.births.length = o.coll.length := by
    have hleft := (hturns.left (by omega)).2
    rw [hcalm.done (hcalm.exited status hexited), State.turns, if_pos hsequential, hfirst] at hleft
    omega
  have hended := (reaches_accounts (reaches_ok hreaches)).once_ended
    ((reaches_sound hfile hreaches).clean status hexited)
  refine ⟨List.ext_getElem? fun k => ?_, hended⟩
  rw [List.getElem?_map]
  by_cases hk : k < o.coll.length
  · rw [hturns.order hsequential k (hlength ▸ hk), Nat.mod_eq_of_lt hk]
  · rw [List.getElem?_eq_none (by omega), List.getElem?_eq_none (by omega)]
    rfl

theorem pan_runs_all_sample : ∃ t : State, t.ctl = .exited 1 ∧
    t.births.map Prod.fst = sampleOptions.coll ∧
      t.born.Perm (t.ended.map fun e => (e.1.pgrp, e.1.cmd)) := by
  have hrun : (run (step sampleOptions) (Undisturbed sampleOptions) (start sampleOptions [] [])
      sampleActions).map State.ctl = some (.exited 1) := by decide +kernel
  obtain ⟨t, h, hctl⟩ := exists_reaches hrun
  exact ⟨t, hctl, pan_runs_all registered_nil rfl rfl rfl rfl h hctl⟩

end MceTest.Pan

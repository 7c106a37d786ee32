import MceTest.Pan.Driver

/-! What holds of the slots, of the orphaned groups and of the active file in every state that
`ltp-pan` reaches. -/

namespace MceTest.Pan

open MceTest.Library MceTest.Library.Registry MceTest.Library.Transition

/-- What is marked in the active file for the main program, its children and their groups. -/
def State.own (o : Options) (s : State) : List Pid := o.pid :: (s.pids ++ entries s.orphans)

def Quiet (r : Ratchet) : Prop := r.recSignal = none → r.sendSignal = none

structure Inv (o : Options) (s : State) : Prop where
  slots : s.running.length = o.keepActive
  active : s.numActive = (entries s.running).length
  nodup : s.pids.Nodup
  cmds : ∀ r ∈ entries s.running, r.cmd ∈ o.coll
  head : s.orphans ≠ []
  index : o.sequential = true → s.c < o.coll.length
  quiet : Quiet s.ratchet
  strays : s.strays = []
  file : Registered s.zoofile (s.own o ++ s.others)

structure Clean (s : State) (status : Nat) : Prop where
  children : entries s.running = []
  groups : entries s.orphans = []
  file : Registered s.zoofile s.others
  status : status = s.exitStat % 256

/-- What the test of the inner loop has told. -/
def Poised (o : Options) (s : State) : Prop :=
  s.ctl = .launch → s.numActive < o.keepActive ∧ s.starts ≠ 0

structure Sound (o : Options) (s : State) : Prop where
  inv : s.ctl.over = false → Inv o s
  poised : Poised o s
  idle : s.ctl = .linger → entries s.running = []
  clean : ∀ status, s.ctl = .exited status → Clean s status
  alive : s.ctl ≠ .aborted

variable {o : Options} {s t : State}

theorem Inv.of_eq (h : Inv o s) (hrunning : t.running = s.running)
    (horphans : t.orphans = s.orphans) (hactive : t.numActive = s.numActive) (hc : t.c = s.c)
    (hratchet : t.ratchet = s.ratchet) (hstrays : t.strays = s.strays)
    (hfile : t.zoofile = s.zoofile) (hothers : t.others = s.others) : Inv o t := by
  have hpids : t.pids = s.pids := by rw [State.pids, State.pids, hrunning]
  refine ⟨hrunning ▸ h.slots, ?_, hpids ▸ h.nodup, hrunning ▸ h.cmds, horphans ▸ h.head,
    hc ▸ h.index, hratchet ▸ h.quiet, hstrays ▸ h.strays, ?_⟩
  · rw [hactive, hrunning, h.active]
  · rw [State.own, hpids, horphans, hfile, hothers]
    exact h.file

theorem own_perm (o : Options) (s : State) :
    (s.own o ++ s.others).Perm (entries s.orphans ++ o.pid :: (s.pids ++ s.others)) := by
  have hgroups : (s.pids ++ entries s.orphans ++ s.others).Perm
      (entries s.orphans ++ (s.pids ++ s.others)) :=
    (List.perm_append_comm.append_right _).trans (.of_eq (List.append_assoc ..))
  exact (hgroups.cons o.pid).trans List.perm_middle.symm

theorem Inv.empty_of_idle (h : Inv o s) (hidle : s.numActive = 0) : entries s.running = [] := by
  rw [h.active] at hidle
  exact List.length_eq_zero_iff.mp (by omega)

theorem waitHandler_quiet {r : Ratchet} (h : Quiet r) (sig : Option Signal) :
    Quiet (waitHandler r sig) := by
  cases sig with
  | none => exact h
  | some sig =>
    rw [waitHandler]
    split <;> exact nofun

theorem Inv.signal (h : Inv o s) (sig : Option Signal) :
    Inv o { s with ratchet := waitHandler s.ratchet sig } :=
  { h with quiet := waitHandler_quiet h.quiet sig }

theorem length_clearOrphans (gone : Pid → Bool) (orphans : List (Option Pid)) (file : Text) :
    (clearOrphans gone orphans file).1.length = orphans.length := by
  induction orphans generalizing file with
  | nil => rfl
  | cons orphan orphans ih => cases orphan <;> exact congrArg (· + 1) (ih _)

theorem entries_clearOrphans (gone : Pid → Bool) (orphans : List (Option Pid)) (file : Text) :
    entries (clearOrphans gone orphans file).1 = (entries orphans).filter (!gone ·) := by
  induction orphans generalizing file with
  | nil => rfl
  | cons orphan orphans ih =>
    cases orphan with
    | none => exact ih file
    | some pgrp =>
      rw [clearOrphans]
      cases hgone : gone pgrp <;> simp [hgone, ih]

theorem clearOrphans_file (gone : Pid → Bool) {orphans : List (Option Pid)} {file : Text}
    {rest : List Pid} (h : Registered file (entries orphans ++ rest)) :
    Registered (clearOrphans gone orphans file).2
      (entries (clearOrphans gone orphans file).1 ++ rest) := by
  induction orphans generalizing file rest with
  | nil => exact h
  | cons orphan orphans ih =>
    cases orphan with
    | none => exact ih h
    | some pgrp =>
      rw [clearOrphans]
      by_cases hgone : gone pgrp = true
      · have hclear := h.clear pgrp
        rw [entries_some, List.cons_append, List.erase_cons_head] at hclear
        simp only [hgone, if_true]
        exact ih hclear
      · simp only [hgone]
        exact (ih (h.perm List.perm_middle.symm)).perm List.perm_middle

theorem Inv.checkOrphans (h : Inv o s) (gone : Pid → Bool) (sig : Option Signal) :
    Inv o (checkOrphans gone sig s) := by
  refine { h with head := ?_, file := ?_ }
  · have hlength := length_clearOrphans gone s.orphans s.zoofile
    exact fun hnil => h.head (List.length_eq_zero_iff.mp (hlength ▸ congrArg List.length hnil))
  · have hspec := clearOrphans_file gone (h.file.perm (own_perm o s))
    exact hspec.perm (own_perm o (Pan.checkOrphans gone sig s)).symm

theorem pids_map_stopping (s : State) :
    (entries (s.running.map (·.map ({ · with stopping := true })))).map Running.pgrp = s.pids := by
  rw [entries_map, List.map_map]
  rfl

theorem Inv.propagateSignal (h : Inv o s) (gone : Pid → Bool) : Inv o (propagateSignal gone s) := by
  have hpids := pids_map_stopping s
  have hmarked : Inv o { s with
      kills := s.kills ++ (entries s.running).map (·.pgrp, s.ratchet.sendSignal)
      running := s.running.map (·.map ({ · with stopping := true })) } := by
    refine { h with slots := ?_, active := ?_, nodup := ?_, cmds := ?_, file := ?_ }
    · exact (List.length_map _).trans h.slots
    · rw [entries_map, List.length_map]
      exact h.active
    · rw [State.pids, hpids]
      exact h.nodup
    · rw [entries_map, List.forall_mem_map]
      exact h.cmds
    · rw [State.own, State.pids, hpids]
      exact h.file
  exact { hmarked.checkOrphans gone s.ratchet.sendSignal with quiet := fun _ => rfl }

theorem Inv.govern (h : Inv o s) (stopFile : Bool) (gone : Pid → Bool) :
    Inv o (govern stopFile gone s) := by
  rw [Pan.govern]
  split
  · exact h.of_eq rfl rfl rfl rfl rfl rfl rfl rfl
  · exact { h.of_eq rfl rfl rfl rfl rfl rfl rfl rfl with quiet := fun _ => rfl }
  · rename_i sig _ _
    have hfork : Inv o { s with
        stop := if s.starts = 0 ∨ s.starts = -1 ∧ stopFile then s.stop + 1 else s.stop
        forkInRoad := if sig = .sigusr1 then false else s.forkInRoad } :=
      h.of_eq rfl rfl rfl rfl rfl rfl rfl rfl
    exact (hfork.propagateSignal gone).of_eq rfl rfl rfl rfl rfl rfl rfl rfl

def State.index (o : Options) (s : State) (rand : Nat) : Nat :=
  if o.sequential then s.c else rand % o.coll.length

theorem Inv.pick (h : Inv o s) (rand : Nat) : ∃ colle, o.coll[s.index o rand]? = some colle := by
  have hlt : s.index o rand < o.coll.length := by
    rw [State.index]
    split
    · exact h.index ‹_›
    · exact Nat.mod_lt _ (List.length_pos_iff.mpr o.commands)
  exact ⟨_, List.getElem?_eq_getElem hlt⟩

theorem Inv.free (h : Inv o s) (hactive : s.numActive < o.keepActive) :
    ∃ i, Slots.firstEmpty s.running = some i := by
  rw [← Option.ne_none_iff_exists', Ne, firstEmpty_eq_none_iff, h.slots]
  rw [h.active] at hactive
  omega

theorem Inv.schedule_eq (h : Inv o s) (hactive : s.numActive < o.keepActive) (rand : Nat)
    (birth : Birth) :
    ∃ i colle, Slots.firstEmpty s.running = some i ∧ o.coll[s.index o rand]? = some colle ∧
      schedule o rand birth s = some (launch o (s.index o rand) i colle birth s) := by
  obtain ⟨i, hi⟩ := h.free hactive
  obtain ⟨colle, hcolle⟩ := h.pick rand
  refine ⟨i, colle, hi, hcolle, ?_⟩
  rw [schedule, hi]
  exact congrArg (Option.map _) hcolle

theorem Inv.next_index (h : Inv o s) (rand : Nat) (hseq : o.sequential = true) :
    (if s.index o rand + 1 ≥ o.coll.length then 0 else s.index o rand + 1) < o.coll.length := by
  have hlt := h.index hseq
  rw [State.index, if_pos hseq]
  split <;> omega

theorem Inv.launch (h : Inv o s) {rand i : Nat} {colle : CollEntry} {birth : Birth}
    (hi : Slots.firstEmpty s.running = some i) (hcolle : o.coll[s.index o rand]? = some colle)
    (hbirth : birth.Ok o s) (hsigs : birth.sigs = []) :
    Inv o (launch o (s.index o rand) i colle birth s) := by
  have hmem := List.mem_of_getElem? hcolle
  have hindex : o.sequential = true →
      (Pan.launch o (s.index o rand) i colle birth s).c < o.coll.length := by
    intro hseq
    rw [Pan.launch, if_pos hseq]
    exact h.next_index rand hseq
  have hstrays : s.strays ++ [] = [] := by rw [List.append_nil, h.strays]
  cases birth with
  | started cpid =>
    have hset := entries_set_free hi (⟨cpid, false, colle⟩ : Running)
    have hpids := hset.map Running.pgrp
    have hrunning : (Pan.launch o (s.index o rand) i colle (.started cpid) s).running =
      s.running.set i (some ⟨cpid, false, colle⟩) := rfl
    refine { h with
      slots := ?_, active := ?_, nodup := ?_, cmds := ?_, index := hindex, strays := hstrays,
      file := ?_ }
    · rw [hrunning, List.length_set, h.slots]
    · rw [hrunning, hset.length_eq, List.length_cons, Nat.cast_add, ← h.active]
      rfl
    · rw [State.pids, hrunning, hpids.nodup_iff]
      exact List.nodup_cons.mpr ⟨(hbirth.2.1 cpid List.mem_cons_self).2.2.1, h.nodup⟩
    · intro r hr
      rcases List.mem_cons.mp (hset.mem_iff.mp hr) with rfl | hr
      · exact hmem
      · exact h.cmds r hr
    · have hmark := h.file.mark cpid (o.plain colle hmem)
      refine hmark.perm ?_
      have hown := ((hpids.append_right (entries s.orphans)).cons o.pid).append_right s.others
      exact (List.Perm.swap o.pid cpid _).trans hown.symm
  | unexecuted sig errlen errbuf waited =>
    cases sig with
    | some sig => cases hsigs
    | none =>
      cases waited with
      | interrupted sig cpid status => cases hsigs
      | ended status => exact { h with index := hindex, strays := hstrays }
  | _ => exact { h with index := hindex, strays := hstrays }

theorem markOrphan_spec {orphans : List (Option Pid)} (hhead : orphans ≠ []) (cpid : Pid) :
    (entries (markOrphan orphans cpid)).Perm (cpid :: entries orphans) ∧
      markOrphan orphans cpid ≠ [] := by
  obtain ⟨head, rest, rfl⟩ := List.exists_cons_of_ne_nil hhead
  cases hfree : Slots.firstEmpty (head :: rest) with
  | some i =>
    rw [markOrphan, hfree]
    refine ⟨entries_set_free hfree cpid, fun hnil => hhead ?_⟩
    exact List.length_eq_zero_iff.mp ((List.length_set ..).symm.trans (congrArg List.length hnil))
  | none =>
    rw [markOrphan, hfree]
    cases head with
    | none => cases hfree
    | some pgrp => exact ⟨.swap cpid pgrp _, nofun⟩

theorem found {cpid : Pid} (h : cpid ∈ s.pids) :
    ∃ i r, s.running.findIdx (fun slot => slot.any (·.pgrp = cpid)) = i ∧
      s.running[i]? = some (some r) ∧ r.pgrp = cpid := by
  obtain ⟨r₀, hr₀, rfl⟩ := List.mem_map.mp h
  have hex : ∃ slot ∈ s.running, slot.any (fun r => decide (r.pgrp = r₀.pgrp)) = true :=
    ⟨some r₀, mem_entries.mp hr₀, decide_eq_true rfl⟩
  have hlt := List.findIdx_lt_length_of_exists hex
  have hslot := List.findIdx_getElem (w := hlt)
  obtain ⟨r, hr, hpgrp⟩ := (Option.any_eq_true _ _).mp hslot
  refine ⟨_, r, rfl, ?_, of_decide_eq_true hpgrp⟩
  rw [List.getElem?_eq_getElem hlt, hr]

def State.fewer (s : State) : State := { s with numActive := s.numActive - 1 }

section Reaped

variable {i : Nat} {r : Running} (h : Inv o s) (hr : s.running[i]? = some (some r))
include h hr

theorem Inv.mem_cmds : r.cmd ∈ o.coll :=
  h.cmds r (mem_entries.mpr (List.mem_of_getElem? hr))

theorem Inv.cleared (o' : List Pid) (ho' : entries s.orphans = o') :
    (zooClear s.zoofile r.pgrp).2 = 0 ∧
      Registered (zooClear s.zoofile r.pgrp).1
        (o.pid :: ((entries (s.running.set i none)).map Running.pgrp ++ o') ++ s.others) := by
  have hperm := (entries_set_none hr).map Running.pgrp
  have hown : (s.own o ++ s.others).Perm (r.pgrp ::
      (o.pid :: ((entries (s.running.set i none)).map Running.pgrp ++ o') ++ s.others)) := by
    rw [State.own, ho']
    exact (((hperm.append_right o').cons o.pid).append_right s.others).trans (.swap ..)
  have hfile := h.file.perm hown
  refine ⟨hfile.clear_eq_zero_iff.mpr List.mem_cons_self, ?_⟩
  have hclear := hfile.clear r.pgrp
  rwa [List.erase_cons_head] at hclear

theorem Inv.reaped (ending : Ending) (left : Bool) :
    Inv o (reaped o i r ending left s.fewer) ∧
      (reaped o i r ending left s.fewer).ctl = .judge (ret r ending ≠ 0) := by
  obtain ⟨hzero, hfile⟩ := h.cleared hr _ rfl
  have hperm := entries_set_none hr
  have hlength := hperm.length_eq
  have hsub : ∀ r' ∈ entries (s.running.set i none), r' ∈ entries s.running :=
    fun r' hr' => hperm.mem_iff.mpr (List.mem_cons_of_mem _ hr')
  have hbase : Inv o { s.fewer with
      running := s.running.set i none
      zoofile := (zooClear s.zoofile r.pgrp).1 } := by
    refine { h with slots := ?_, active := ?_, nodup := ?_, cmds := ?_, file := hfile }
    · exact (List.length_set ..).trans h.slots
    · have hactive := h.active
      rw [hlength, List.length_cons] at hactive
      have hfewer : s.numActive - 1 = (entries (s.running.set i none)).length := by omega
      exact hfewer
    · have hnodup := (hperm.map Running.pgrp).nodup_iff.mp h.nodup
      exact (List.nodup_cons.mp hnodup).2
    · exact fun r' hr' => h.cmds r' (hsub r' hr')
  have hctl : (Pan.reaped o i r ending left s.fewer).ctl = .judge (ret r ending ≠ 0) :=
    if_pos hzero
  refine ⟨?_, hctl⟩
  cases left with
  | false => exact hbase.of_eq rfl rfl rfl rfl rfl rfl rfl rfl
  | true =>
    have hplain : '\n' ∉ "panorphan".toList ∧ '\n' ∉ r.cmd.cmdline :=
      ⟨by decide, (o.plain _ (h.mem_cmds hr)).2⟩
    have hgroup := markOrphan_spec h.head r.pgrp
    have horphaned : Inv o { s.fewer with
        running := s.running.set i none
        orphans := markOrphan s.orphans r.pgrp
        zoofile := zooMarkCmdline (zooClear s.zoofile r.pgrp).1 r.pgrp "panorphan".toList
          r.cmd.cmdline } := by
      refine { hbase with head := hgroup.2, file := ?_ }
      refine (hbase.file.mark r.pgrp hplain).perm ?_
      have hown := ((hgroup.1.append_left ((entries (s.running.set i none)).map Running.pgrp)).cons
        o.pid).append_right s.others
      refine (List.Perm.swap ..).trans (.trans ?_ hown.symm)
      exact (List.perm_middle.symm.cons o.pid).append_right s.others
    have horphan : (true && decide ((zooClear s.zoofile r.pgrp).2 = 0)) = true := by
      rw [hzero]
      rfl
    exact horphaned.of_eq rfl (if_pos horphan) rfl rfl rfl rfl (if_pos horphan) rfl

end Reaped

theorem checkPids_cases (gone : Pid → Bool) (cpid : Pid) {ending : Ending}
    (hfinal : ending.final = true) (left : Bool) :
    (∃ i r, s.running.findIdx (fun slot => slot.any (·.pgrp = cpid)) = i ∧
      s.running[i]? = some (some r) ∧ checkPids o gone (some (cpid, ending)) left s =
        reaped o i r ending left (checkOrphans gone none s).fewer) ∨
    checkPids o gone (some (cpid, ending)) left s = { (checkOrphans gone none s).fewer with
      strays := s.strays.erase cpid
      ctl := .judge (ending.ret ≠ 0) } := by
  rw [checkPids]
  simp only [hfinal, if_true]
  split
  · exact .inr rfl
  · rename_i r hsome
    exact .inl ⟨_, r, rfl, Option.join_eq_some_iff.mp hsome, rfl⟩

theorem checkPids_eq (gone : Pid → Bool) {cpid : Pid} {ending : Ending}
    (hcpid : cpid ∈ s.pids) (hfinal : ending.final = true) (left : Bool) :
    ∃ i r, s.running[i]? = some (some r) ∧ r.pgrp = cpid ∧
      checkPids o gone (some (cpid, ending)) left s =
        reaped o i r ending left (checkOrphans gone none s).fewer := by
  obtain ⟨i, r, hi, hr, hpgrp⟩ := found hcpid
  refine ⟨i, r, hr, hpgrp, ?_⟩
  have hslot : ((checkOrphans gone none s).running[i]?).join = some r :=
    congrArg Option.join hr
  subst hi
  rw [checkPids]
  simp only [hfinal, if_true]
  split
  · rename_i hnone
    exact absurd (hslot.symm.trans hnone) nofun
  · rename_i r' hsome
    cases hslot.symm.trans hsome
    rfl

structure SameControl (s t : State) : Prop where
  ratchet : t.ratchet = s.ratchet
  stop : t.stop = s.stop
  starts : t.starts = s.starts
  c : t.c = s.c
  forkInRoad : t.forkInRoad = s.forkInRoad
  exitStat : t.exitStat = s.exitStat
  births : t.births = s.births

theorem checkPids_same {gone : Pid → Bool} {wait : Option (Pid × Ending)} {left : Bool}
    (hok : Ok o s (.reap gone wait left)) : SameControl s (checkPids o gone wait left s) := by
  cases wait with
  | none => exact ⟨rfl, rfl, rfl, rfl, rfl, rfl, rfl⟩
  | some child =>
    obtain ⟨i, r, -, -, heq⟩ | heq := checkPids_cases (o := o) gone child.1 hok.2 left
    all_goals
      rw [heq]
      exact ⟨rfl, rfl, rfl, rfl, rfl, rfl, rfl⟩

theorem reaped_ctl (o : Options) (i : Nat) (r : Running) (ending : Ending) (left : Bool)
    (s : State) : (∃ err, (reaped o i r ending left s).ctl = .judge err) ∨
      (reaped o i r ending left s).ctl = .aborted := by
  by_cases h : (zooClear s.zoofile r.pgrp).2 = 0
  · exact .inl ⟨_, if_pos h⟩
  · exact .inr (if_neg h)

theorem checkPids_ctl (gone : Pid → Bool) (wait : Option (Pid × Ending)) (left : Bool)
    (s : State) : (∃ err, (checkPids o gone wait left s).ctl = .judge err) ∨
      (checkPids o gone wait left s).ctl = .aborted := by
  cases wait with
  | none => exact .inl ⟨_, rfl⟩
  | some child =>
    rw [checkPids]
    split
    · exact .inl ⟨_, rfl⟩
    · exact reaped_ctl ..

theorem Inv.mem_pids (h : Inv o s) {cpid : Pid} (hcpid : cpid ∈ s.pids ∨ cpid ∈ s.strays) :
    cpid ∈ s.pids :=
  hcpid.resolve_right (by rw [h.strays]; exact List.not_mem_nil)

theorem Inv.checkPids (h : Inv o s) (gone : Pid → Bool) {wait : Option (Pid × Ending)}
    {left : Bool} (hok : Ok o s (.reap gone wait left)) :
    Inv o (checkPids o gone wait left s) ∧
      ∃ err, (Pan.checkPids o gone wait left s).ctl = .judge err := by
  have hbase := h.checkOrphans gone none
  cases wait with
  | none => exact ⟨hbase.of_eq rfl rfl rfl rfl rfl rfl rfl rfl, _, rfl⟩
  | some child =>
    obtain ⟨cpid, ending⟩ := child
    obtain ⟨i, r, hr, -, heq⟩ := checkPids_eq gone (h.mem_pids hok.1) hok.2 left
    obtain ⟨hinv, hctl⟩ := hbase.reaped hr ending left
    rw [heq]
    exact ⟨hinv, _, hctl⟩

theorem Inv.note (h : Inv o s) (err : Bool) : Inv o (note o err s) := by
  refine { h with quiet := ?_ }
  change Quiet (if (err && o.hasBrakes) = true then _ else s.ratchet)
  split
  · exact waitHandler_quiet h.quiet _
  · exact h.quiet

theorem Inv.judge (h : Inv o s) (err : Bool) :
    Inv o (judge o err s) ∧ ((judge o err s).ctl = .schedule ∨
      (judge o err s).ctl = .linger ∧ s.numActive = 0) := by
  have hnoted := h.note err
  rw [Pan.judge]
  split
  · rename_i hstop
    exact ⟨hnoted.of_eq rfl rfl rfl rfl rfl rfl rfl rfl, .inr ⟨rfl, hstop.2⟩⟩
  · split
    · exact ⟨(hnoted.signal none).of_eq rfl rfl rfl rfl rfl rfl rfl rfl, .inl rfl⟩
    · exact ⟨hnoted.of_eq rfl rfl rfl rfl rfl rfl rfl rfl, .inl rfl⟩

theorem judge_numActive (err : Bool) : (judge o err s).numActive = s.numActive := by
  rw [judge]
  split
  · rfl
  · split <;> rfl

theorem Inv.nudge (h : Inv o s) : Inv o (nudge s) := by
  refine { h with quiet := ?_ }
  change Quiet (if s.ratchet.recSignal.isSome = true then s.ratchet else _)
  split
  · exact h.quiet
  · exact waitHandler_quiet h.quiet _

theorem all_isNone_iff {orphans : List (Option Pid)} :
    orphans.all Option.isNone = true ↔ entries orphans = [] := by
  induction orphans with
  | nil => exact iff_of_true rfl rfl
  | cons orphan orphans ih => cases orphan <;> simp [ih]

theorem Inv.linger_end (h : Inv o s) (hrunning : entries s.running = [])
    (horphans : entries s.orphans = []) (gone : Pid → Bool) :
    (linger o gone s).ctl = .exited (s.exitStat % 256) ∧
      (linger o gone s).exitStat = s.exitStat ∧ Clean (linger o gone s) (s.exitStat % 256) := by
  have hown : s.own o ++ s.others = o.pid :: s.others := by
    rw [State.own, State.pids, hrunning, horphans]
    rfl
  have hfile := h.file
  rw [hown] at hfile
  have hzero := hfile.clear_eq_zero_iff.mpr List.mem_cons_self
  have hclear := hfile.clear o.pid
  rw [List.erase_cons_head] at hclear
  have hstat : (if (zooClear s.zoofile o.pid).2 = 0 then s.exitStat else s.exitStat + 1) =
      s.exitStat := if_pos hzero
  rw [linger, if_pos (all_isNone_iff.mpr horphans)]
  refine ⟨?_, hstat, ⟨hrunning, horphans, hclear, ?_⟩⟩
  · exact congrArg (fun n => Ctl.exited (n % 256)) hstat
  · exact congrArg (· % 256) hstat.symm

theorem entries_running_propagate (gone : Pid → Bool) (s : State) :
    entries (propagateSignal gone s).running =
      (entries s.running).map ({ · with stopping := true }) :=
  entries_map _ s.running

theorem Inv.sound (h : Inv o s) (hover : s.ctl.over = false) (hpoised : Poised o s)
    (hidle : s.ctl = .linger → entries s.running = []) : Sound o s where
  inv _ := h
  poised := hpoised
  idle := hidle
  clean status hctl := by
    rw [hctl] at hover
    cases hover
  alive hctl := by
    rw [hctl] at hover
    cases hover

theorem Inv.linger (h : Inv o s) (hrunning : entries s.running = []) (hctl : s.ctl = .linger)
    (gone : Pid → Bool) : Sound o (linger o gone s) := by
  by_cases horphans : entries s.orphans = []
  · obtain ⟨hexit, -, hclean⟩ := h.linger_end hrunning horphans gone
    refine ⟨?_, ?_, ?_, ?_, ?_⟩
    all_goals
      try rw [Poised]
      rw [hexit]
    · exact nofun
    · exact nofun
    · exact nofun
    · rintro _ ⟨⟩
      exact hclean
    · exact nofun
  · rw [Pan.linger, if_neg (mt all_isNone_iff.mp horphans)]
    have hstay : (Pan.propagateSignal gone (Pan.nudge s)).ctl = .linger := hctl
    refine (h.nudge.propagateSignal gone).sound ?_ ?_ fun _ => ?_
    · rw [hstay]
      rfl
    · rw [Poised, hstay]
      exact nofun
    · rw [entries_running_propagate]
      exact congrArg _ hrunning

theorem catArgs_plain {av : List Text} (h : ∀ arg ∈ av, '\n' ∉ arg) : '\n' ∉ catArgs av := by
  rw [catArgs]
  induction av with
  | nil => exact List.not_mem_nil
  | cons arg av ih =>
    obtain ⟨harg, hav⟩ := List.forall_mem_cons.mp h
    cases av with
    | nil => simpa [List.intercalate] using harg
    | cons arg' av =>
      have hrest := ih hav
      simp only [List.intercalate, List.intersperse_cons_cons, List.flatten_cons, List.mem_append,
        not_or] at hrest ⊢
      exact ⟨harg, by decide, hrest⟩

theorem registered_marks {file tag : Text} {pids : List Pid} (htag : '\n' ∉ tag)
    (h : Registered file pids) (cs : List Nat) :
    Registered (cs.foldl (fun file c => zooMarkCmdline file (Fin.ofNat (2 ^ 31) c) tag []) file)
      (cs.map (Fin.ofNat (2 ^ 31)) ++ pids) := by
  induction cs generalizing file pids with
  | nil => exact h
  | cons c cs ih =>
    exact (ih (h.mark (Fin.ofNat (2 ^ 31) c) ⟨htag, List.not_mem_nil⟩)).perm List.perm_middle

theorem registered_clears {file : Text} {pids : List Pid} {cs : List Nat}
    (h : Registered file (cs.map (Fin.ofNat (2 ^ 31)) ++ pids)) :
    ∃ file', cs.foldlM (fun file c =>
        match zooClear file (Fin.ofNat (2 ^ 31) c) with
        | (file, 0) => some file
        | _ => none) file = some file' ∧ Registered file' pids := by
  induction cs generalizing file with
  | nil => exact ⟨file, rfl, h⟩
  | cons c cs ih =>
    have hzero := h.clear_eq_zero_iff.mpr List.mem_cons_self
    have hclear := h.clear (Fin.ofNat (2 ^ 31) c)
    rw [List.map_cons, List.cons_append, List.erase_cons_head] at hclear
    obtain ⟨file', hfold, hfile'⟩ := ih hclear
    refine ⟨file', ?_, hfile'⟩
    rw [List.foldlM_cons]
    have hpair : zooClear file (Fin.ofNat (2 ^ 31) c) =
        ((zooClear file (Fin.ofNat (2 ^ 31) c)).1, 0) := Prod.ext rfl hzero
    rw [hpair]
    exact hfold

theorem allocate_spec {file : Text} {pids : List Pid} (h : Registered file pids) :
    ∃ file', allocate o file = some file' ∧ Registered file' pids :=
  registered_clears (registered_marks o.args.1 h (List.range o.keepActive))

theorem start_inv {file : Text} {others : List Pid} (h : Registered file others) :
    Inv o (start o file others) ∧ (start o file others).ctl = .schedule := by
  obtain ⟨file', hallocate, hfile'⟩ :=
    allocate_spec (o := o) (h.mark o.pid ⟨o.args.1, catArgs_plain o.args.2⟩)
  have hempty : entries (List.replicate o.keepActive (none : Option Running)) = [] :=
    List.reduceOption_replicate_none
  have hzoofile : (start o file others).zoofile = file' := by
    rw [start, zooMarkArgs, hallocate]
    rfl
  refine ⟨⟨List.length_replicate, ?_, ?_, ?_, nofun, ?_, fun _ => rfl, rfl, ?_⟩, ?_⟩
  · exact congrArg (fun l : List Running => (l.length : Int)) hempty.symm
  · rw [State.pids, start, hempty]
    exact List.nodup_nil
  · rw [start, hempty]
    exact nofun
  · exact fun _ => List.length_pos_iff.mpr o.commands
  · rw [hzoofile, State.own, State.pids, start, hempty]
    exact hfile'
  · rw [start, zooMarkArgs, hallocate]
    rfl

theorem Registered.other {file : Text} {own others : List Pid} (h : Registered file (own ++ others))
    {op : Op} (hok : Ok o s (.other op)) (hothers : s.others = others) :
    Registered (op.run file) (own ++ op.track others) := by
  have hop := h.op op
  cases op with
  | mark e => exact hop.perm List.perm_middle.symm
  | clear p =>
    have hp : p ∈ others := hothers ▸ hok
    refine hop.perm ?_
    have hsplit := ((List.perm_cons_erase hp).append_left own).trans List.perm_middle
    have herase := hsplit.erase p
    rwa [List.erase_cons_head] at herase

inductive Stepped (o : Options) (s : State) : Action → State → Prop
  | signal {sig : Signal} (hover : s.ctl.over = false) :
    Stepped o s (.signal sig) { s with ratchet := waitHandler s.ratchet (some sig) }
  | enter (hctl : s.ctl = .schedule) (hs : s.schedules o = true) :
    Stepped o s .enter { s with ctl := .launch }
  | launch {rand : Nat} {birth : Birth} {t : State} (hctl : s.ctl = .launch)
    (heq : schedule o rand birth s = some t) : Stepped o s (.launch rand birth) t
  | leave (hctl : s.ctl = .schedule) (hs : s.schedules o = false) :
    Stepped o s .leave { s with ctl := .govern }
  | govern {stopFile : Bool} {gone : Pid → Bool} (hctl : s.ctl = .govern) :
    Stepped o s (.govern stopFile gone) { govern stopFile gone s with ctl := .reap }
  | reap {gone : Pid → Bool} {wait : Option (Pid × Ending)} {left : Bool} (hctl : s.ctl = .reap) :
    Stepped o s (.reap gone wait left) (checkPids o gone wait left s)
  | judge {err : Bool} (hctl : s.ctl = .judge err) : Stepped o s .judge (judge o err s)
  | linger {gone : Pid → Bool} (hctl : s.ctl = .linger) :
    Stepped o s (.linger gone) (linger o gone s)
  | other {op : Op} : Stepped o s (.other op)
      { s with zoofile := op.run s.zoofile, others := op.track s.others }

theorem stepped {a : Action} (h : step o s a = some t) : Stepped o s a t := by
  cases a with
  | signal sig =>
    obtain ⟨hover, heq⟩ := Option.ite_none_left_eq_some.mp h
    cases heq
    exact .signal (eq_false_of_ne_true hover)
  | enter =>
    obtain ⟨⟨hctl, hs⟩, heq⟩ := Option.ite_none_right_eq_some.mp h
    cases heq
    exact .enter hctl hs
  | launch rand birth =>
    obtain ⟨hctl, heq⟩ := Option.ite_none_right_eq_some.mp h
    exact .launch hctl heq
  | leave =>
    obtain ⟨⟨hctl, hs⟩, heq⟩ := Option.ite_none_right_eq_some.mp h
    cases heq
    exact .leave hctl (eq_false_of_ne_true hs)
  | govern stopFile gone =>
    obtain ⟨hctl, heq⟩ := Option.ite_none_right_eq_some.mp h
    cases heq
    exact .govern hctl
  | reap gone wait left =>
    obtain ⟨hctl, heq⟩ := Option.ite_none_right_eq_some.mp h
    cases heq
    exact .reap hctl
  | judge =>
    rw [step] at h
    split at h
    · cases h
      exact .judge ‹_›
    · cases h
  | linger gone =>
    obtain ⟨hctl, heq⟩ := Option.ite_none_right_eq_some.mp h
    cases heq
    exact .linger hctl
  | other op =>
    cases h
    exact .other

theorem schedule_cases {rand : Nat} {birth : Birth} (h : schedule o rand birth s = some t) :
    (∃ i colle, Slots.firstEmpty s.running = some i ∧ o.coll[s.index o rand]? = some colle ∧
      t = launch o (s.index o rand) i colle birth s) ∨
    t = { s with
      c := s.index o rand
      ratchet := waitHandler s.ratchet (some .sigint)
      exitStat := s.exitStat + 1
      ctl := .govern } := by
  rw [schedule] at h
  split at h
  · cases h
    exact .inr rfl
  · rename_i i hi
    obtain ⟨colle, hcolle, rfl⟩ := Option.map_eq_some_iff.mp h
    exact .inl ⟨i, colle, hi, hcolle, rfl⟩

theorem launch_ctl (o : Options) (c i : Nat) (colle : CollEntry) (birth : Birth) (s : State) :
    (launch o c i colle birth s).ctl = if birth.wild then .undefined else .schedule := rfl

/-- A command is to be run only after the test of the inner loop; it stays so while nothing of the
program itself goes on. -/
theorem launch_stays {a : Action} (hstep : step o s a = some t) (henter : a ≠ .enter)
    (hlaunch : t.ctl = .launch) :
    s.ctl = .launch ∧ t.births = s.births ∧ t.numActive = s.numActive ∧ t.starts = s.starts := by
  cases stepped hstep with
  | signal | other => exact ⟨hlaunch, rfl, rfl, rfl⟩
  | enter => exact absurd rfl henter
  | launch hctl heq =>
    obtain ⟨i, colle, -, -, rfl⟩ | rfl := schedule_cases heq
    · rw [launch_ctl] at hlaunch
      split at hlaunch <;> cases hlaunch
    · cases hlaunch
  | leave | govern => cases hlaunch
  | reap hctl =>
    obtain ⟨err, herr⟩ | herr := checkPids_ctl (o := o) _ _ _ s
    all_goals cases herr.symm.trans hlaunch
  | judge =>
    rw [Pan.judge] at hlaunch
    split at hlaunch
    · cases hlaunch
    · split at hlaunch <;> cases hlaunch
  | linger hctl =>
    have hstay (gone : Pid → Bool) : (propagateSignal gone (nudge s)).ctl = .linger := hctl
    rw [Pan.linger] at hlaunch
    split at hlaunch
    · cases hlaunch
    · cases (hstay _).symm.trans hlaunch

theorem Poised.step (h : Poised o s) {a : Action} (hstep : step o s a = some t) :
    Poised o t := by
  intro hlaunch
  by_cases henter : a = .enter
  · subst henter
    cases stepped hstep with
    | enter hctl hs => exact ⟨(of_decide_eq_true hs).1, (of_decide_eq_true hs).2.1⟩
  · obtain ⟨hctl, -, hactive, hstarts⟩ := launch_stays hstep henter hlaunch
    rw [hactive, hstarts]
    exact h hctl

theorem Sound.signal (h : Sound o s) (sig : Option Signal) :
    Sound o { s with ratchet := waitHandler s.ratchet sig } :=
  ⟨fun hover => (h.inv hover).signal sig, h.poised, h.idle,
    fun status hctl => { h.clean status hctl with }, h.alive⟩

theorem Sound.other (h : Sound o s) {op : Op} (hok : Ok o s (.other op)) :
    Sound o { s with zoofile := op.run s.zoofile, others := op.track s.others } where
  inv hover := { h.inv hover with file := (h.inv hover).file.other hok rfl }
  poised := h.poised
  idle := h.idle
  clean status hctl := { h.clean status hctl with file := (h.clean status hctl).file.op op }
  alive := h.alive

theorem Inv.launched (h : Inv o s) (hctl : s.ctl = .schedule ∨ s.ctl = .undefined) :
    Sound o s where
  inv _ := h
  poised hlaunch := by rcases hctl with hctl | hctl <;> cases hctl.symm.trans hlaunch
  idle hlinger := by rcases hctl with hctl | hctl <;> cases hctl.symm.trans hlinger
  clean status hexited := by rcases hctl with hctl | hctl <;> cases hctl.symm.trans hexited
  alive haborted := by rcases hctl with hctl | hctl <;> cases hctl.symm.trans haborted

theorem Sound.step (h : Sound o s) {a : Action} (hok : Unbroken o s a)
    (hstep : step o s a = some t) : Sound o t := by
  have hinv {ctl : Ctl} (hctl : s.ctl = ctl) (hover : ctl.over = false) : Inv o s :=
    h.inv (hctl ▸ hover)
  have hpoised := h.poised.step hstep
  cases stepped hstep with
  | signal => exact h.signal _
  | enter hctl =>
    have hentered : Inv o { s with ctl := .launch } :=
      (hinv hctl rfl).of_eq rfl rfl rfl rfl rfl rfl rfl rfl
    exact hentered.sound rfl hpoised nofun
  | @launch rand birth _ hctl heq =>
    have hinv := hinv hctl rfl
    obtain ⟨i, colle, hi, hcolle, hlaunch⟩ := hinv.schedule_eq (h.poised hctl).1 rand birth
    cases heq.symm.trans hlaunch
    refine (hinv.launch hi hcolle hok.1 hok.2).launched ?_
    rw [launch_ctl]
    split
    · exact .inr rfl
    · exact .inl rfl
  | leave hctl =>
    have hleft : Inv o { s with ctl := .govern } :=
      (hinv hctl rfl).of_eq rfl rfl rfl rfl rfl rfl rfl rfl
    exact hleft.sound rfl hpoised nofun
  | @govern stopFile gone hctl =>
    have hgoverned : Inv o { Pan.govern stopFile gone s with ctl := .reap } :=
      ((hinv hctl rfl).govern stopFile gone).of_eq rfl rfl rfl rfl rfl rfl rfl rfl
    exact hgoverned.sound rfl hpoised nofun
  | @reap gone _ _ hctl =>
    obtain ⟨hreaped, err, herr⟩ := (hinv hctl rfl).checkPids gone hok.1
    exact hreaped.sound (by rw [herr]; rfl) hpoised (by rw [herr]; exact nofun)
  | @judge err hctl =>
    have hinv := hinv hctl rfl
    obtain ⟨hjudged, hnext | ⟨hnext, hidle⟩⟩ := hinv.judge err
    · exact hjudged.sound (by rw [hnext]; rfl) hpoised (by rw [hnext]; exact nofun)
    · refine hjudged.sound (by rw [hnext]; rfl) hpoised fun _ => hjudged.empty_of_idle ?_
      rw [judge_numActive, hidle]
  | @linger gone hctl => exact (hinv hctl rfl).linger (h.idle hctl) hctl gone
  | other => exact h.other hok.1

theorem start_poised {file : Text} {others : List Pid} (hfile : Registered file others) :
    Poised o (start o file others) := by
  rw [Poised, (start_inv hfile).2]
  exact nofun

theorem start_sound {file : Text} {others : List Pid} (hfile : Registered file others) :
    Sound o (start o file others) := by
  obtain ⟨hinv, hctl⟩ := start_inv (o := o) hfile
  exact hinv.sound (by rw [hctl]; rfl) (start_poised hfile) (by rw [hctl]; exact nofun)

theorem reaches_ok (h : Reaches (step o) (Unbroken o) s t) : Reaches (step o) (Ok o) s t :=
  h.mono fun _ _ => And.left

theorem reaches_sound {file : Text} {others : List Pid} (hfile : Registered file others)
    (h : Reaches (step o) (Unbroken o) (start o file others) t) : Sound o t :=
  h.invariant (start_sound hfile) fun _ _ _ hs hok hstep => hs.step hok hstep

theorem reaches_keeps {file : Text} {others : List Pid} (hfile : Registered file others)
    (h : Reaches (step o) (Unbroken o) (start o file others) t) {inv : State → Prop}
    (hstart : inv (start o file others))
    (hstep : ∀ s a u, Sound o s → inv s → Unbroken o s a → step o s a = some u → inv u) :
    inv t := by
  have hboth := @Reaches.invariant _ _ _ _ _ _ (fun s => Sound o s ∧ inv s) h
    ⟨start_sound hfile, hstart⟩ fun s a u hs hok hsu =>
      ⟨hs.1.step hok hsu, hstep s a u hs.1 hs.2 hok hsu⟩
  exact hboth.2

/-- Whatever signals come between the parts of the loop and children do, and in whatever order:
there is a slot for every child, what is marked in the active file are just the main program, its
children and the groups that are left of them, beside what others have there, and at the end none
of them is left. -/
theorem pan_sound {file : Text} {others : List Pid} (hfile : Registered file others)
    (h : Reaches (step o) (Unbroken o) (start o file others) t) :
    Sound o t ∧ (t.ctl = .launch → ∃ i, Slots.firstEmpty t.running = some i) := by
  have hsound := reaches_sound hfile h
  refine ⟨hsound, fun hctl => (hsound.inv ?_).free (hsound.poised hctl).1⟩
  rw [hctl]
  rfl

/-- Two commands at a time; the second child fails, and leaves a group behind. -/
def sampleOptions : Options where
  pid := 900
  panname := "p".toList
  av := ["pan".toList]
  coll := [⟨"a".toList, "x 1".toList, false⟩, ⟨"b".toList, "y %s".toList, true⟩]
  keepActive := 2
  sequential := true
  trackExitStats := true
  testOutDir := true
  logfile := true
  commands := by decide
  plain := by decide
  args := by decide

def sampleActions : List Action :=
  [.enter, .launch 0 (.started 901), .enter, .launch 0 (.started 902), .leave,
    .govern false fun _ => false,
    .reap (fun _ => false) (some (902, .exited 1)) true, .judge, .leave,
    .govern false fun _ => false, .reap (fun _ => false) (some (901, .exited 0)) false, .judge,
    .linger fun _ => true, .linger fun _ => false]

theorem sample_reaches : ∃ t,
    Reaches (step sampleOptions) (Unbroken sampleOptions) (start sampleOptions [] []) t ∧
      t.ctl = .exited 1 := by
  have hrun : (run (step sampleOptions) (Unbroken sampleOptions) (start sampleOptions [] [])
      sampleActions).map State.ctl = some (.exited 1) := by decide +kernel
  exact exists_reaches hrun

theorem pan_sound_sample : ∃ t, Sound sampleOptions t ∧ t.ctl = .exited 1 := by
  obtain ⟨t, h, hctl⟩ := sample_reaches
  exact ⟨t, (pan_sound registered_nil h).1, hctl⟩

end MceTest.Pan

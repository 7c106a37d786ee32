import MceTest.Pan.Accounts

/-! What `ltp-pan` prints about its children while they run side by side, and the command lines it
gives them. -/

namespace MceTest.Pan

open MceTest.Library MceTest.Library.Registry MceTest.Library.Transition

variable {o : Options} {s t : State}

/-- What is to be read about a child that has ended: its start, its output and its end, or only its
output when no reports are asked for. -/
def block (loud : Bool) (e : Running × Ending) : List Report :=
  let status := if e.1.stopping then "driver_interrupt".toList else e.2.status
  if loud then
    [.testStart e.1.cmd.name e.1.cmd.cmdline, .output e.1.pgrp,
      .testEnd "ok".toList status e.2.core (finalW e.1 e.2)]
  else [.output e.1.pgrp]

/-- The blocks of the children that have ended, one after the other, and between them single reports
about commands that were taken not to have been executed. -/
inductive Whole (loud : Bool) : List (Running × Ending) → List Report → Prop
  | nil : Whole loud [] []
  | unexecuted {ended : List (Running × Ending)} {reports : List Report}
    {initStatus termType : Text} {corefile : Bool} {termId : Nat} (hloud : loud = true)
    (h : Whole loud ended reports) :
    Whole loud ended (reports ++ [.testEnd initStatus termType corefile termId])
  | ended {ended : List (Running × Ending)} {reports : List Report} (e : Running × Ending)
    (h : Whole loud ended reports) : Whole loud (ended ++ [e]) (reports ++ block loud e)

theorem endReports_buffered (hbuffered : o.buffered = true) (r : Running) (ending : Ending) :
    endReports o r ending = block o.loud (r, ending) := by
  rw [endReports, if_pos hbuffered, block]
  cases o.loud <;> rfl

theorem Whole.launched {ended : List (Running × Ending)} (h : Whole o.loud ended s.reports)
    (hbuffered : o.buffered = true) {c i : Nat} {colle : CollEntry} {birth : Birth} :
    Whole o.loud ended (launch o c i colle birth s).reports := by
  have hreports : (launch o c i colle birth s).reports =
      s.reports ++ if o.loud then birth.report else [] := by
    refine (congrArg (s.reports ++ · ++ _) (if_neg ?_)).trans (by rw [List.append_nil])
    simp [hbuffered]
  rw [hreports]
  split
  · rename_i hloud
    cases birth with
    | unexecuted sig errlen errbuf waited => exact h.unexecuted hloud
    | _ =>
      rw [Birth.report, List.append_nil]
      · exact h
      · exact nofun
  · rwa [List.append_nil]

theorem Whole.booked (h : Whole o.loud s.ended s.reports) (hbuffered : o.buffered = true)
    (hbooked : Booked o s t) : Whole o.loud t.ended t.reports := by
  cases hbooked with
  | same hsame => rwa [hsame.ended, hsame.reports]
  | launched => exact h.launched hbuffered
  | @reaped s' i r ending left hsame =>
    have hended : (reaped o i r ending left s').ended = s.ended ++ [(r, ending)] :=
      congrArg (· ++ [(r, ending)]) hsame.ended
    have hreports : (reaped o i r ending left s').reports = s.reports ++ endReports o r ending :=
      congrArg (· ++ endReports o r ending) hsame.reports
    rw [hended, hreports, endReports_buffered hbuffered]
    exact h.ended (r, ending)

/-- With buffered output the reports of children that run at the same time do not mix. -/
theorem pan_reports {file : Text} {others : List Pid} (hbuffered : o.buffered = true)
    (h : Reaches (step o) (Ok o) (start o file others) t) : Whole o.loud t.ended t.reports :=
  @Reaches.invariant _ _ _ _ _ _ (fun s => Whole o.loud s.ended s.reports) h .nil
    fun _ _ _ hwhole hok hstep => hwhole.booked hbuffered (booked hok hstep)

theorem pan_reports_sample : ∃ t : State,
    Whole true t.ended t.reports ∧ t.ctl = .exited 1 := by
  obtain ⟨t, h, hctl⟩ := sample_reaches
  exact ⟨t, pan_reports rfl (reaches_ok h), hctl⟩

/-- The command lines with a `%f` are numbered in the order in which they are given out. -/
def Numbered (o : Options) (s : State) : Prop :=
  ∃ ns : List (CollEntry × Nat),
    s.execs.filter (·.1.pcntF) = ns.map (fun n => (n.1, substPcntF n.1 o.pid n.2)) ∧
      ns.Pairwise (·.2 < ·.2) ∧ ∀ n ∈ ns, n.2 < s.counter

theorem Numbered.launched (h : Numbered o s) {c i : Nat} {colle : CollEntry} {birth : Birth} :
    Numbered o (launch o c i colle birth s) := by
  obtain ⟨ns, hexecs, hsorted, hbelow⟩ := h
  have hexecs' : (launch o c i colle birth s).execs = s.execs ++
    if birth.forked then [(colle, substPcntF colle o.pid s.counter)] else [] := rfl
  have hcounter : (launch o c i colle birth s).counter =
    if birth.opened && colle.pcntF then s.counter + 1 else s.counter := rfl
  have hle : s.counter ≤ (launch o c i colle birth s).counter := by
    rw [hcounter]
    split <;> omega
  by_cases hnew : birth.forked = true ∧ colle.pcntF = true
  · obtain ⟨hforked, hpcnt⟩ := hnew
    have hopened : birth.opened = true := by
      cases birth <;> first | rfl | cases hforked
    refine ⟨ns ++ [(colle, s.counter)], ?_, ?_, ?_⟩
    · rw [hexecs', if_pos hforked, List.filter_append, hexecs, List.map_append]
      exact congrArg _ (List.filter_cons_of_pos hpcnt)
    · refine List.pairwise_append.mpr ⟨hsorted, List.pairwise_singleton _ _, ?_⟩
      intro n hn m hm
      rw [List.mem_singleton.mp hm]
      exact hbelow n hn
    · rw [hcounter, hopened, hpcnt]
      intro n hn
      rcases List.mem_append.mp hn with hn | hn
      · exact Nat.lt_succ_of_lt (hbelow n hn)
      · rw [List.mem_singleton.mp hn]
        exact Nat.lt_succ_self _
  · refine ⟨ns, ?_, hsorted, fun n hn => (hbelow n hn).trans_le hle⟩
    rw [hexecs', List.filter_append, hexecs]
    split
    · rename_i hforked
      have hplain : ¬colle.pcntF = true := fun hpcnt => hnew ⟨hforked, hpcnt⟩
      refine (congrArg _ (List.filter_cons_of_neg ?_)).trans (List.append_nil _)
      exact hplain
    · exact List.append_nil _

theorem Numbered.booked (h : Numbered o s) (hbooked : Booked o s t) : Numbered o t := by
  cases hbooked with
  | same hsame =>
    rw [Numbered, hsame.execs, hsame.counter]
    exact h
  | launched => exact h.launched
  | reaped hsame =>
    obtain ⟨ns, hexecs, hsorted, hbelow⟩ := h
    rw [← hsame.execs] at hexecs
    rw [← hsame.counter] at hbelow
    exact ⟨ns, hexecs, hsorted, hbelow⟩

/-- No two children that come of one test with a `%f` are given the same command line. -/
theorem pan_fresh {file : Text} {others : List Pid}
    (h : Reaches (step o) (Ok o) (start o file others) t) {name pre post : Text}
    {colle : CollEntry} (hrow : (Row.test name (pre ++ '%' :: 'f' :: post)).Plain)
    (hpct : '%' ∉ pre ∧ '%' ∉ post)
    (hread : collLine (Row.test name (pre ++ '%' :: 'f' :: post)).text = some (some colle))
    (hlength : pre.length + post.length ≤ 1004) (hpid : (o.pid : Nat) < 10 ^ 8)
    (hcounter : t.counter ≤ 2 ^ 31) :
    ((t.execs.filter (·.1 = colle)).map Prod.snd).Nodup := by
  have hstart : Numbered o (start o file others) := ⟨[], rfl, .nil, nofun⟩
  obtain ⟨ns, hexecs, hsorted, hbelow⟩ := @Reaches.invariant _ _ _ _ _ _ (Numbered o) h hstart
    fun _ _ _ hnumbered hok hstep => hnumbered.booked (booked hok hstep)
  have hpcnt : colle.pcntF = true := by rw [cmdline_of_read hrow hpct.1 hread]
  have hfilter : t.execs.filter (·.1 = colle) =
      (ns.filter (·.1 = colle)).map fun n => (n.1, substPcntF n.1 o.pid n.2) := by
    have hsub : t.execs.filter (·.1 = colle) =
        (t.execs.filter (·.1.pcntF)).filter (·.1 = colle) := by
      rw [List.filter_filter]
      refine List.filter_congr fun e _ => ?_
      by_cases he : e.1 = colle
      · simp [he, hpcnt]
      · simp [he]
    rw [hsub, hexecs, List.filter_map]
    rfl
  rw [hfilter, List.map_map]
  refine List.pairwise_map.mpr ((hsorted.filter _).imp_of_mem ?_)
  intro n m hn hm hlt
  obtain ⟨hn, hcolle⟩ := List.mem_filter.mp hn
  obtain ⟨hm, hcolle'⟩ := List.mem_filter.mp hm
  have hcolle : n.1 = colle := of_decide_eq_true hcolle
  have hcolle' : m.1 = colle := of_decide_eq_true hcolle'
  change substPcntF n.1 o.pid n.2 ≠ substPcntF m.1 o.pid m.2
  rw [hcolle, hcolle']
  intro heq
  have hn' := hbelow n hn
  have hm' := hbelow m hm
  have hsame := ((substPcntF_inj hrow hpct hread hlength hpid hpid (by omega)
    (by omega)).mp heq).2
  omega

/-- A test with a `%f` that is run twice at a time. -/
def twiceOptions : Options := { sampleOptions with
  coll := [⟨"b".toList, "y %s".toList, true⟩]
  sequential := false
  starts := 2
  commands := by decide
  plain := by decide }

theorem pan_fresh_sample : ∃ t : State,
    (t.execs.filter (·.1 = ⟨"b".toList, "y %s".toList, true⟩)).length = 2 ∧
    ((t.execs.filter (·.1 = ⟨"b".toList, "y %s".toList, true⟩)).map Prod.snd).Nodup := by
  have hrun : (run (step twiceOptions) (Ok twiceOptions) (start twiceOptions [] [])
      [.enter, .launch 3 (.started 901), .enter, .launch 7 (.started 902)]).map (fun t =>
        ((t.execs.filter (·.1 = ⟨"b".toList, "y %s".toList, true⟩)).length, t.counter)) =
      some (2, 3) := by decide +kernel
  obtain ⟨t, h, ht⟩ := exists_reaches hrun
  obtain ⟨hlength, hcounter⟩ := Prod.mk.inj ht
  exact ⟨t, hlength, @pan_fresh _ _ _ _ h "b".toList "y ".toList [] _
    ⟨⟨'b', [], rfl, by decide⟩, by simp [isDelim], by decide⟩ (by decide) rfl (by decide)
    (by decide) (by rw [hcounter]; decide)⟩

end MceTest.Pan

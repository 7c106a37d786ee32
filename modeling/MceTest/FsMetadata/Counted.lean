import MceTest.FsMetadata.Recorded

/-! The numbers in the summary of `fs-metadata.sh` against the verdicts in the file, which is still
written to while they are counted. -/

namespace MceTest.FsMetadata

open MceTest.Library.Shell MceTest.Library.Transition

def having (w : Word) (texts : List Word) : Nat := texts.countP fun text => w <:+: text

def verdicts (texts : List Word) : Nat := texts.countP isVerdict
def passes (texts : List Word) : Nat := having "pass".toList texts
def fails (texts : List Word) : Nat := having "fail".toList texts

theorem length_grep {w : String} (hw : Dateless w.toList) (s : State) :
    (grep w s.file).length = having w.toList s.texts := by
  rw [grep, ← List.countP_eq_length_filter, having, State.texts, List.countP_map]
  have hall : s.file.all = s.result.map Line.word := List.append_nil _
  rw [hall, List.countP_map]
  exact List.countP_congr fun l _ => by simp [hw.infix_word]

theorem length_verdicts (s : State) :
    (s.file.all.filter isVerdict).length = verdicts s.texts := by
  have hall : s.file.all = s.result.map Line.word := List.append_nil _
  rw [← List.countP_eq_length_filter, hall, verdicts, State.texts, List.countP_map,
    List.countP_map]
  exact List.countP_congr fun l _ => by simp [isVerdict_word]

theorem passes_add_fails {texts : List Word}
    (h : ∀ w ∈ texts, isVerdict w = true → ∃ i same, w = verdictText i same) :
    passes texts + fails texts = verdicts texts := by
  induction texts with
  | nil => rfl
  | cons w texts ih =>
    have hrest := ih fun v hv => h v (List.mem_cons_of_mem w hv)
    simp only [passes, fails, verdicts, having, List.countP_cons, decide_eq_true_eq] at hrest ⊢
    cases hw : isVerdict w with
    | true =>
      obtain ⟨i, same, rfl⟩ := h w List.mem_cons_self hw
      simp only [pass_verdictText, fail_verdictText]
      cases same
      all_goals
        simp only [Bool.false_eq_true, Bool.true_eq_false, if_true, if_false]
        omega
    | false =>
      rw [isVerdict, decide_eq_false_iff_not, not_or] at hw
      simp only [hw.1, hw.2, if_false, Bool.false_eq_true, Nat.add_zero]
      exact hrest

def Thread.pending (t : Thread) : Bool :=
  match t.pc with
  | .report (.write _) => true
  | _ => false

def Thread.settled (t : Thread) : List Bool :=
  match t.pc with
  | .work => t.rounds
  | _ => t.rounds.dropLast

structure Later (s s' : State) : Prop where
  threads : s'.threads.length = s.threads.length
  passes : passes s.texts ≤ passes s'.texts
  fails : fails s.texts ≤ fails s'.texts
  /-- Only what was about to be written is added. -/
  pending : verdicts s'.texts + s'.threads.countP Thread.pending ≤
    verdicts s.texts + s.threads.countP Thread.pending
  settled : ∀ (i : Nat) (t' : Thread), s'.threads[i]? = some t' →
    ∃ t : Thread, s.threads[i]? = some t ∧ t'.settled ⊆ t.settled

variable {cfg : Config} {s s' : State} {i : Nat} {t t' : Thread} {same : Bool} {date : Stamp}
  {runTime : Nat} {text : Option Word} {threads : List Thread}

theorem Filed.step_late {bs : List Bool} (h : Filed false i t bs)
    (hstep : t.step false i same = some (t', text)) :
    t'.pending = false ∧ (text = none ∨ t.pending = true) ∧ t'.settled ⊆ t.settled := by
  obtain ⟨pc, rounds⟩ := t
  cases pc with
  | start | generate | head =>
    cases hstep
    exact ⟨rfl, .inl rfl, List.Subset.refl _⟩
  | work =>
    cases hstep
    exact ⟨rfl, .inl rfl, by simp [Thread.settled]⟩
  | report call =>
    cases call with
    | test w =>
      cases hstep
      exact ⟨rfl, .inl rfl, List.Subset.refl _⟩
    | write w =>
      cases hstep
      exact ⟨rfl, .inr rfl, List.Subset.refl _⟩
    | retest w =>
      simp only [Thread.step, Call.step, h.1, not_true_eq_false, and_false, if_false,
        Option.some.injEq, Prod.mk.injEq] at hstep
      obtain ⟨rfl, rfl⟩ := hstep
      exact ⟨rfl, .inl rfl, List.Subset.refl _⟩
    | rewrite w => exact h.elim
  | ended => cases hstep

theorem having_append (w : Word) (texts texts' : List Word) :
    having w (texts ++ texts') = having w texts + having w texts' := List.countP_append ..

theorem verdicts_append (texts texts' : List Word) :
    verdicts (texts ++ texts') = verdicts texts + verdicts texts' := List.countP_append ..

theorem Later.thread (h : Inv cfg s) (hflag : s.flag = false) (ht : s.threads[i]? = some t)
    (hmove : t.step s.flag i same = some (t', text)) (htexts : s'.texts = s.texts ++ text.toList)
    (hthreads : s'.threads = s.threads.set i t') : Later s s' := by
  have hfiled := h.books.filed i t ht
  rw [hflag] at hmove hfiled
  obtain ⟨hpending, hwhen, hsettled⟩ := hfiled.step_late hmove
  obtain ⟨hi, hget⟩ := List.getElem?_eq_some_iff.mp ht
  refine ⟨?_, ?_, ?_, ?_, ?_⟩
  · rw [hthreads, List.length_set]
  · rw [htexts]
    exact (Nat.le_add_right ..).trans_eq (having_append ..).symm
  · rw [htexts]
    exact (Nat.le_add_right ..).trans_eq (having_append ..).symm
  · rw [htexts, verdicts_append, hthreads, List.countP_set hi, hpending, hget]
    rcases hwhen with rfl | hwhen
    · simp [verdicts]
    · have hpos : 0 < s.threads.countP Thread.pending :=
        List.countP_pos_iff.mpr ⟨t, List.mem_of_getElem? ht, hwhen⟩
      have hone : verdicts text.toList ≤ 1 := by
        cases text with
        | none => exact Nat.zero_le 1
        | some w =>
          rw [verdicts, Option.toList_some, List.countP_singleton]
          split <;> simp
      rw [if_pos hwhen]
      simp only [Bool.false_eq_true, if_false]
      omega
  · intro j u hu
    rw [hthreads, List.getElem?_set] at hu
    split at hu
    · rename_i hij
      subst hij
      cases hu
      exact ⟨t, ht, hsettled⟩
    · exact ⟨u, hu, List.Subset.refl _⟩

theorem countP_modify_le {α : Type} {p : α → Bool} {f : α → α}
    (h : ∀ x, p (f x) = true → p x = true) (xs : List α) (i : Nat) : (xs.modify i f).countP p ≤ xs.countP p := by
  induction xs generalizing i with
  | nil => simp
  | cons x xs ih =>
    cases i with
    | zero =>
      rw [List.modify_zero_cons, List.countP_cons, List.countP_cons]
      have hx := h x
      split
      · rename_i hfx
        rw [if_pos (hx hfx)]
      · omega
    | succ i =>
      rw [List.modify_succ_cons, List.countP_cons, List.countP_cons]
      exact Nat.add_le_add_right (ih i) _

theorem Later.quiet (hquiet : ∀ w ∈ text, isVerdict w = false)
    (htexts : s'.texts = s.texts ++ text.toList)
    (hthreads : s'.threads = s.threads ∨
      ∃ i, s'.threads = s.threads.modify i fun t => { t with pc := .ended }) : Later s s' := by
  have hended (t : Thread) : { t with pc := .ended : Thread }.settled ⊆ t.settled := by
    obtain ⟨pc, rounds⟩ := t
    cases pc with
    | work => exact List.dropLast_subset rounds
    | start | generate | head | report | ended => exact List.Subset.refl _
  have hnone : verdicts text.toList = 0 := by
    rw [verdicts, List.countP_eq_zero]
    intro w hw
    rw [hquiet w (Option.mem_toList.mp hw)]
    exact Bool.false_ne_true
  have hpending : s'.threads.countP Thread.pending ≤ s.threads.countP Thread.pending := by
    rcases hthreads with hthreads | ⟨i, hthreads⟩
    · rw [hthreads]
    · rw [hthreads]
      exact countP_modify_le (fun t h => by cases h) s.threads i
  refine ⟨?_, ?_, ?_, ?_, ?_⟩
  · rcases hthreads with hthreads | ⟨i, hthreads⟩
    · rw [hthreads]
    · rw [hthreads, List.length_modify]
  · rw [htexts]
    exact (Nat.le_add_right ..).trans_eq (having_append ..).symm
  · rw [htexts]
    exact (Nat.le_add_right ..).trans_eq (having_append ..).symm
  · rw [htexts, verdicts_append, hnone]
    exact Nat.add_le_add_left hpending _
  · intro j u hu
    rcases hthreads with hthreads | ⟨i, hthreads⟩
    · rw [hthreads] at hu
      exact ⟨u, hu, List.Subset.refl _⟩
    · rw [hthreads] at hu
      obtain ⟨v, hv, ⟨rfl, -⟩ | rfl⟩ := getElem?_kill hu
      · exact ⟨u, hv, List.Subset.refl _⟩
      · exact ⟨v, hv, hended v⟩

def Parent.counts : Parent → Nat
  | .starting | .sleeping | .finishing _ | .unlinking | .countingTotal => 0
  | .countingPass => 1
  | .countingFail => 2
  | .summing _ _ | .listing | .killing _ | .truncating | .gone => 3

structure Counted (s : State) : Prop where
  total : 1 ≤ s.parent.counts → s.totalNr ≤ verdicts s.texts ∧
    verdicts s.texts + s.threads.countP Thread.pending ≤ s.totalNr + s.threads.length
  pass : 2 ≤ s.parent.counts → s.passNr ≤ passes s.texts ∧
    verdicts s.texts + s.threads.countP Thread.pending ≤
      s.passNr + fails s.texts + s.threads.length
  fail : 3 ≤ s.parent.counts → s.failNr ≤ fails s.texts ∧
    verdicts s.texts + s.threads.countP Thread.pending ≤ s.passNr + s.failNr + s.threads.length
  settled : 3 ≤ s.parent.counts →
    ∀ (i : Nat) (t : Thread), s.threads[i]? = some t → false ∈ t.settled → s.failNr ≠ 0

theorem Later.killed (i : Nat) : Later s (s.kill i) := by
  have hnone : ∀ w ∈ (none : Option Word), isVerdict w = false := by simp
  exact .quiet hnone (List.append_nil _).symm (.inr ⟨i, rfl⟩)

theorem Inv.passes_add_fails (h : Inv cfg s) :
    passes s.texts + fails s.texts = verdicts s.texts := by
  refine FsMetadata.passes_add_fails fun w hw hverdict => ?_
  obtain ⟨i, same, -, heq⟩ := h.books.known w hw hverdict
  exact ⟨i, same, heq⟩

theorem Later.verdicts_le (h : Later s s') (hinv : Inv cfg s) (hinv' : Inv cfg s') :
    verdicts s.texts ≤ verdicts s'.texts := by
  rw [← hinv.passes_add_fails, ← hinv'.passes_add_fails]
  exact Nat.add_le_add h.passes h.fails

theorem Counted.later (h : Counted s) (hlater : Later s s') (hinv : Inv cfg s)
    (hinv' : Inv cfg s') (hcounts : s'.parent.counts = s.parent.counts)
    (hnrs : s'.totalNr = s.totalNr ∧ s'.passNr = s.passNr ∧ s'.failNr = s.failNr) :
    Counted s' := by
  have hverdicts := hlater.verdicts_le hinv hinv'
  obtain ⟨hthreads, hpasses, hfails, hpending, hsettled⟩ := hlater
  obtain ⟨htotal, hpass, hfail⟩ := hnrs
  refine ⟨fun hc => ?_, fun hc => ?_, fun hc => ?_, fun hc => ?_⟩
  all_goals rw [hcounts] at hc
  · have h := h.total hc
    rw [htotal, hthreads]
    omega
  · have h := h.pass hc
    rw [hpass, hthreads]
    omega
  · have h := h.fail hc
    rw [hpass, hfail, hthreads]
    omega
  · intro i t' ht' hmem
    obtain ⟨t, ht, hsub⟩ := hsettled i t' ht'
    rw [hfail]
    exact h.settled hc i t ht (hsub hmem)

theorem Counted.early (h : s.parent.counts = 0) : Counted s := by
  refine ⟨fun hc => ?_, fun hc => ?_, fun hc => ?_, fun hc => ?_⟩
  all_goals
    rw [h] at hc
    exact absurd hc (by decide)

theorem fails_of_settled (h : Inv cfg s) (ht : s.threads[i]? = some t)
    (hmem : false ∈ t.settled) : fails s.texts ≠ 0 := by
  have hfiled := h.books.filed i t ht
  have hrecorded : false ∈ recorded i s.texts := by
    have hnear := hfiled.near
    obtain ⟨pc, rounds⟩ := t
    have hdrop (hmem : false ∈ rounds.dropLast) : false ∈ recorded i s.texts := by
      rcases hnear with hsame | ⟨same, hrounds⟩
      · rw [hsame]
        exact List.dropLast_subset _ hmem
      · rw [show rounds = _ from hrounds, List.dropLast_concat] at hmem
        exact hmem
    cases pc with
    | work =>
      rw [show recorded i s.texts = rounds from hfiled]
      exact hmem
    | start | generate | head | report | ended => exact hdrop hmem
  obtain ⟨w, hw, hof⟩ := List.mem_filterMap.mp hrecorded
  have hpos : 0 < fails s.texts := by
    refine List.countP_pos_iff.mpr ⟨w, hw, ?_⟩
    rw [verdictOf_eq_some hof, decide_eq_true_iff, fail_verdictText]
  exact Nat.ne_of_gt hpos

theorem counts_early {parent : Parent} (h : parent.early = true) : parent.counts = 0 := by
  cases parent with
  | starting | sleeping | finishing | unlinking => rfl
  | countingTotal | countingPass | countingFail | summing | listing | killing | truncating
  | gone => cases h

theorem parentStep_reported (hcounts : s.parent.counts = 3)
    (h : parentStep cfg s runTime date = some s') : s'.parent.counts = 3 ∧
      s'.totalNr = s.totalNr ∧ s'.passNr = s.passNr ∧ s'.failNr = s.failNr := by
  rw [parentStep] at h
  split at h
  case h_8 call texts hparent =>
    cases hcall : call.step s.flag with
    | mk rest text =>
      rw [hcall] at h
      cases h
      cases rest with
      | none => cases texts <;> exact ⟨rfl, rfl, rfl, rfl⟩
      | some rest => exact ⟨rfl, rfl, rfl, rfl⟩
  case h_9 | h_10 | h_11 | h_12 =>
    cases h
    exact ⟨rfl, rfl, rfl, rfl⟩
  case h_13 => cases h
  all_goals
    rename_i hparent
    rw [hparent] at hcounts
    cases hcounts

theorem Counted.parent (h : Counted s) (hinv : Inv cfg s)
    (hstep : parentStep cfg s runTime date = some s') : Counted s' := by
  obtain ⟨htold, hflag, text, hquiet, htexts⟩ := parentStep_told hinv.told hinv.flag hstep
  have hinv' : Inv cfg s' :=
    ⟨hflag, htold, hinv.books.parent hquiet htexts hstep, hinv.hunted.parent hstep⟩
  have hthreads := (parentStep_frame hstep).2
  have hpending := s.threads.countP_le_length (p := Thread.pending)
  have hlater (hparent : s.parent ≠ .starting) : Later s s' :=
    .quiet hquiet htexts (hthreads.imp_right fun h => h.resolve_left fun h => hparent h.1)
  cases hparent : s.parent with
  | starting =>
    rw [parentStep, hparent] at hstep
    cases hstep
    split
    · exact .early rfl
    · exact .early rfl
  | sleeping | unlinking =>
    rw [parentStep, hparent] at hstep
    cases hstep
    exact .early rfl
  | finishing call =>
    rw [parentStep, hparent] at hstep
    cases hcall : call.step s.flag with
    | mk rest text =>
      simp only [hcall] at hstep
      cases hstep
      cases rest <;> exact .early rfl
  | countingTotal =>
    rw [parentStep, hparent] at hstep
    cases hstep
    refine ⟨fun _ => ?_, fun hc => ?_, fun hc => ?_, fun hc => ?_⟩
    · rw [length_verdicts]
      exact ⟨Nat.le_refl _, Nat.add_le_add_left hpending _⟩
    all_goals exact absurd hc (by decide : ¬ _ ≤ 1)
  | countingPass =>
    have htotal := h.total (by rw [hparent]; decide)
    rw [parentStep, hparent] at hstep
    cases hstep
    refine ⟨fun _ => htotal, fun _ => ?_, fun hc => ?_, fun hc => ?_⟩
    · rw [length_grep pass_dateless]
      refine ⟨Nat.le_refl _, ?_⟩
      change verdicts s.texts + s.threads.countP Thread.pending ≤
        passes s.texts + fails s.texts + s.threads.length
      rw [hinv.passes_add_fails]
      exact Nat.add_le_add_left hpending _
    all_goals exact absurd hc (by decide : ¬ _ ≤ 2)
  | countingFail =>
    have htotal := h.total (by rw [hparent]; decide)
    have hpass := h.pass (by rw [hparent]; decide)
    rw [parentStep, hparent] at hstep
    cases hstep
    refine ⟨fun _ => htotal, fun _ => hpass, fun _ => ?_, fun _ i t ht hmem => ?_⟩
    · rw [length_grep fail_dateless]
      exact ⟨Nat.le_refl _, hpass.2⟩
    · rw [length_grep fail_dateless]
      exact fails_of_settled hinv ht hmem
  | summing | listing | killing | truncating | gone =>
    obtain ⟨hcounts, hnrs⟩ := parentStep_reported (by rw [hparent]; rfl) hstep
    rw [hparent] at hlater
    exact h.later (hlater (by simp)) hinv hinv' (hcounts.trans (by rw [hparent]; rfl)) hnrs

theorem Counted.step {a : Action} (h : Counted s) (hinv : Inv cfg s)
    (hstep : step cfg s a = some s') : Counted s' := by
  have hinv' := hinv.step hstep
  cases a with
  | parent runTime date =>
    rw [FsMetadata.step] at hstep
    split at hstep
    · exact h.parent hinv hstep
    · cases hstep
  | thread i same date =>
    obtain ⟨t, ht, hthread⟩ := Option.bind_eq_some_iff.mp hstep
    obtain ⟨⟨t', text⟩, hmove, rfl⟩ := Option.map_eq_some_iff.mp hthread
    cases hflag : s.flag with
    | true => exact .early (counts_early (hinv.flag.symm.trans hflag))
    | false =>
      exact h.later (.thread hinv hflag ht hmove (texts_log s date text) rfl) hinv hinv' rfl
        ⟨rfl, rfl, rfl⟩
  | signal =>
    refine .early ?_
    rw [FsMetadata.step] at hstep
    split at hstep
    · cases hstep
    · split at hstep <;> cases hstep <;> rfl
  | killParent =>
    cases hstep
    exact ⟨h.total, h.pass, h.fail, h.settled⟩
  | killThread i =>
    cases hstep
    exact h.later (.killed i) hinv hinv' rfl ⟨rfl, rfl, rfl⟩

theorem reaches_counted (h : Reaches (step cfg) Any (started cfg date) s) : Counted s := by
  induction h with
  | refl => exact .early rfl
  | step h _ hstep ih => exact ih.step (reaches_inv h) hstep

/-- The numbers of the summary are at most what the file has, and it has at most one verdict more
for each thread. -/
theorem summary_bounds (h : Reaches (step cfg) Any (started cfg date) s)
    (hcounts : s.parent.counts = 3) :
    (s.totalNr ≤ (s.file.all.filter isVerdict).length ∧ s.passNr ≤ (grep "pass" s.file).length ∧
      s.failNr ≤ (grep "fail" s.file).length) ∧
    (s.file.all.filter isVerdict).length ≤ s.totalNr + s.threads.length ∧
    (grep "pass" s.file).length + (grep "fail" s.file).length ≤
      s.passNr + s.failNr + s.threads.length := by
  have hcounted := reaches_counted h
  have htotal := hcounted.total (by omega)
  have hpass := hcounted.pass (by omega)
  have hfail := hcounted.fail (by omega)
  have hboth : having "pass".toList s.texts + having "fail".toList s.texts = verdicts s.texts :=
    (reaches_inv h).passes_add_fails
  rw [length_verdicts, length_grep pass_dateless, length_grep fail_dateless, hboth]
  refine ⟨⟨htotal.1, hpass.1, hfail.1⟩, ?_, ?_⟩
  · omega
  · omega

theorem summary_bounds_sample : ∃ t : State, t.numbers = [1, 0, 1, 10] ∧
    (grep "pass" t.file).length + (grep "fail" t.file).length ≤
      t.passNr + t.failNr + t.threads.length := by
  obtain ⟨t, h, hgone, hnumbers⟩ := sample_reaches
  exact ⟨t, hnumbers, (summary_bounds h (by rw [hgone]; rfl)).2.2⟩

end MceTest.FsMetadata

import MceTest.FsMetadata.Told

/-! The result file has every verdict of every thread in order, up to its last one, in any
interleaving, and does not change once `fs-metadata.sh` is gone. -/

namespace MceTest.FsMetadata

open MceTest.Library.Shell MceTest.Library.Transition

variable {cfg : Config} {s s' : State} {i : Nat} {t t' : Thread} {flag : Bool} {runTime : Nat}
  {date : Stamp} {threads : List Thread}

def Thread.busy (t : Thread) : Bool :=
  match t.pc with
  | .work | .report _ => true
  | .start | .generate | .head | .ended => false

def Thread.listed (t : Thread) : Bool :=
  match t.pc with
  | .start | .ended => false
  | .generate | .head | .work | .report _ => true

def Hunted (parent : Parent) (pids : List Nat) (threads : List Thread) : Prop :=
  match parent with
  | .killing pids => ∀ (i : Nat) (t : Thread), threads[i]? = some t → t.busy = true → i ∈ pids
  | .truncating | .gone => ∀ (i : Nat) (t : Thread), threads[i]? = some t → t.busy = false
  | _ => ∀ (i : Nat) (t : Thread), threads[i]? = some t → t.listed = true → i ∈ pids

theorem Thread.busy_listed {t : Thread} (h : t.busy = true) : t.listed = true := by
  obtain ⟨pc, rounds⟩ := t
  cases pc with
  | work | report => rfl
  | start | generate | head | ended => cases h

theorem Thread.step_listed {same : Bool} {text : Option Word}
    (h : t.step flag i same = some (t', text)) (_ : t'.listed = true) :
    t.pc = .start ∨ t.listed = true := by
  obtain ⟨pc, rounds⟩ := t
  cases pc with
  | start => exact .inl rfl
  | generate | head | work | report => exact .inr rfl
  | ended => cases h

theorem Thread.step_busy {same : Bool} {text : Option Word}
    (h : t.step false i same = some (t', text)) (hbusy : t'.busy = true) : t.busy = true := by
  obtain ⟨pc, rounds⟩ := t
  cases pc with
  | work | report => rfl
  | start | generate | head =>
    cases h
    cases hbusy
  | ended => cases h

theorem Hunted.thread {parent : Parent} {pids : List Nat} (h : Hunted parent pids threads)
    (hflag : flag = parent.early) (ht : threads[i]? = some t) {same : Bool} {text : Option Word}
    (hstep : t.step flag i same = some (t', text)) :
    Hunted parent (pids ++ if t.pc = .start then [i] else []) (threads.set i t') := by
  have hset {j : Nat} {u : Thread} (hu : (threads.set i t')[j]? = some u) :
      i = j ∧ u = t' ∨ threads[j]? = some u := by
    rw [List.getElem?_set] at hu
    split at hu
    · rename_i hij
      split at hu
      · cases hu
        exact .inl ⟨hij, rfl⟩
      · cases hu
    · exact .inr hu
  have hearly (hrest : ∀ j u, threads[j]? = some u → u.listed = true → j ∈ pids) :
      ∀ j u, (threads.set i t')[j]? = some u → u.listed = true →
        j ∈ pids ++ if t.pc = .start then [i] else [] := by
    intro j u hu hlisted
    rcases hset hu with ⟨rfl, rfl⟩ | hu
    · rcases Thread.step_listed hstep hlisted with hstart | hlisted
      · rw [if_pos hstart]
        exact List.mem_append_right _ List.mem_cons_self
      · exact List.mem_append_left _ (hrest i t ht hlisted)
    · exact List.mem_append_left _ (hrest j u hu hlisted)
  have hbusy (hflag : flag = false) {j : Nat} {u : Thread}
      (hu : (threads.set i t')[j]? = some u) (hbusy : u.busy = true) :
      ∃ v, threads[j]? = some v ∧ v.busy = true := by
    rcases hset hu with ⟨rfl, rfl⟩ | hu
    · exact ⟨t, ht, Thread.step_busy (hflag ▸ hstep) hbusy⟩
    · exact ⟨u, hu, hbusy⟩
  cases parent with
  | killing pids =>
    intro j u hu hbusy'
    obtain ⟨v, hv, hbusy'⟩ := hbusy hflag hu hbusy'
    exact h j v hv hbusy'
  | truncating | gone =>
    intro j u hu
    by_contra hno
    obtain ⟨v, hv, hbusy'⟩ := hbusy hflag hu (Bool.eq_true_of_not_eq_false hno)
    rw [h j v hv] at hbusy'
    cases hbusy'
  | starting | sleeping | finishing | unlinking | countingTotal | countingPass | countingFail
  | summing | listing => exact hearly h

theorem getElem?_kill {j : Nat} {u : Thread}
    (hu : (threads.modify i fun t => { t with pc := .ended })[j]? = some u) :
    ∃ v, threads[j]? = some v ∧ (u = v ∧ i ≠ j ∨ u = { v with pc := .ended }) := by
  rw [List.getElem?_modify, Option.map_eq_map, Option.map_eq_some_iff] at hu
  obtain ⟨v, hv, rfl⟩ := hu
  refine ⟨v, hv, ?_⟩
  by_cases hij : i = j
  · exact .inr (if_pos hij)
  · exact .inl ⟨if_neg hij, hij⟩

theorem Hunted.kill {parent : Parent} {pids : List Nat} (h : Hunted parent pids threads) (i : Nat) :
    Hunted parent pids (threads.modify i fun t => { t with pc := .ended }) := by
  have hback {p : Nat → Thread → Prop} (hrest : ∀ j u, threads[j]? = some u → p j u)
      (hended : ∀ j (v : Thread), p j { v with pc := .ended }) :
      ∀ j u, (threads.modify i fun t => { t with pc := .ended })[j]? = some u → p j u := by
    intro j u hu
    obtain ⟨v, hv, ⟨rfl, -⟩ | rfl⟩ := getElem?_kill hu
    · exact hrest j u hv
    · exact hended j v
  cases parent with
  | killing pids => exact hback h fun j v h => by cases h
  | truncating | gone => exact hback h fun j v => rfl
  | starting | sleeping | finishing | unlinking | countingTotal | countingPass | countingFail
  | summing | listing => exact hback h fun j v h => by cases h

theorem Hunted.parent (h : Hunted s.parent s.pids s.threads)
    (hstep : parentStep cfg s runTime date = some s') : Hunted s'.parent s'.pids s'.threads := by
  rw [parentStep] at hstep
  split at hstep
  all_goals
    rename_i hparent
    rw [hparent] at h
  · cases hstep
    split
    · rw [hparent]
      intro i t ht hlisted
      by_cases hi : i < s.threads.length
      · rw [List.getElem?_append_left hi] at ht
        exact h i t ht hlisted
      · rw [List.getElem?_append_right (Nat.not_lt.mp hi), List.getElem?_singleton] at ht
        split at ht
        · cases ht
          cases hlisted
        · cases ht
    · exact h
  · cases hstep
    exact h
  · rename_i call
    cases hcall : call.step s.flag with
    | mk rest text =>
      rw [hcall] at hstep
      cases hstep
      cases rest <;> exact h
  · cases hstep
    exact h
  · cases hstep
    exact h
  · cases hstep
    exact h
  · cases hstep
    exact h
  · rename_i call texts
    cases hcall : call.step s.flag with
    | mk rest text =>
      rw [hcall] at hstep
      cases hstep
      cases rest with
      | none => cases texts <;> exact h
      | some rest => exact h
  · cases hstep
    exact fun i t ht hbusy => h i t ht (Thread.busy_listed hbusy)
  · cases hstep
    intro i t ht
    by_contra hno
    exact List.not_mem_nil (h i t ht (Bool.eq_true_of_not_eq_false hno))
  · rename_i i pids
    cases hstep
    intro j u hu hbusy
    obtain ⟨v, hv, ⟨rfl, hij⟩ | rfl⟩ := getElem?_kill hu
    · exact (List.mem_cons.mp (h j u hv hbusy)).resolve_left (Ne.symm hij)
    · cases hbusy
  · cases hstep
    exact h
  · cases hstep

theorem parentStep_frame (h : parentStep cfg s runTime date = some s') :
    (s'.flag = s.flag ∨ s'.flag = false) ∧
      (s'.threads = s.threads ∨
        s.parent = .starting ∧ s'.threads = s.threads ++ [{ pc := .start }] ∨
        ∃ i, s'.threads = s.threads.modify i fun t => { t with pc := .ended }) := by
  rw [parentStep] at h
  split at h
  · rename_i hparent
    cases h
    split
    · exact ⟨.inl rfl, .inr (.inl ⟨hparent, rfl⟩)⟩
    · exact ⟨.inl rfl, .inl rfl⟩
  all_goals cases h
  all_goals first
    | exact ⟨.inl rfl, .inl rfl⟩
    | exact ⟨.inr rfl, .inl rfl⟩
    | exact ⟨.inl rfl, .inr (.inr ⟨_, rfl⟩)⟩

theorem Books.parent (h : Books s.flag s.threads s.texts) {text : Option Word}
    (hquiet : ∀ w ∈ text, isVerdict w = false) (htexts : s'.texts = s.texts ++ text.toList)
    (hstep : parentStep cfg s runTime date = some s') : Books s'.flag s'.threads s'.texts := by
  obtain ⟨hflag, hthreads⟩ := parentStep_frame hstep
  have hbooks : Books s'.flag s.threads s'.texts := by
    rw [htexts]
    rcases hflag with hflag | hflag
    · rw [hflag]
      exact h.quiet hquiet
    · rw [hflag]
      exact h.lower.quiet hquiet
  rcases hthreads with h | ⟨-, h⟩ | ⟨i, h⟩
  · rwa [h]
  · rw [h]
    exact hbooks.launch
  · rw [h]
    exact hbooks.kill i

theorem Told.of_eq (h : Told cfg s) (hparent : s'.parent = s.parent) (hown : s'.own = s.own)
    (hnrs : s'.totalNr = s.totalNr ∧ s'.passNr = s.passNr ∧ s'.failNr = s.failNr) :
    Told cfg s' := by
  rw [Told] at h ⊢
  rw [hparent, hown, hnrs.1, hnrs.2.1, hnrs.2.2]
  exact h

structure Inv (cfg : Config) (s : State) : Prop where
  flag : s.flag = s.parent.early
  told : Told cfg s
  books : Books s.flag s.threads s.texts
  hunted : Hunted s.parent s.pids s.threads

theorem started_texts (cfg : Config) (date : Stamp) :
    (started cfg date).texts = beginTexts cfg := by
  rw [State.texts, started, beginTexts, quiet]
  cases hbegin : isVerdict (beginText cfg) <;> simp [hbegin]

theorem beginTexts_quiet (cfg : Config) : ∀ w ∈ beginTexts cfg, isVerdict w = false := by
  intro w hw
  have hquiet := (List.mem_filter.mp hw).2
  simpa using hquiet

theorem started_inv (cfg : Config) (date : Stamp) : Inv cfg (started cfg date) where
  flag := rfl
  told := by
    change quiet (started cfg date).texts = _
    rw [started_texts]
    exact quiet_of_forall (beginTexts_quiet cfg)
  books := by
    rw [started_texts]
    constructor
    · intro w hw hverdict
      rw [beginTexts_quiet cfg w hw] at hverdict
      cases hverdict
    · intro i t ht
      cases ht
  hunted := fun i t ht => by cases ht

theorem Inv.thread {same : Bool} {text : Option Word} (h : Inv cfg s)
    (ht : s.threads[i]? = some t) (hmove : t.step s.flag i same = some (t', text)) :
    Inv cfg { s.log date text with
      threads := s.threads.set i t'
      pids := s.pids ++ if t.pc = .start then [i] else [] } := by
  have htexts := texts_log s date text
  obtain ⟨-, hverdict⟩ := (h.books.filed i t ht).step hmove
  refine ⟨h.flag, h.told.of_eq rfl ?_ ⟨rfl, rfl, rfl⟩, ?_, h.hunted.thread h.flag ht hmove⟩
  · have hnone : quiet text.toList = [] := by
      rw [quiet, List.filter_eq_nil_iff]
      intro w hw
      obtain ⟨same, rfl⟩ := hverdict w (Option.mem_toList.mp hw)
      rw [isVerdict_verdictText]
      simp
    have hown := congrArg quiet htexts
    rw [quiet_append, hnone, List.append_nil] at hown
    exact hown
  · have hbooks := h.books.thread ht hmove
    rw [← htexts] at hbooks
    exact hbooks

theorem Inv.step {a : Action} (h : Inv cfg s) (hstep : step cfg s a = some s') : Inv cfg s' := by
  cases a with
  | parent runTime date =>
    rw [FsMetadata.step] at hstep
    split at hstep
    · obtain ⟨htold, hflag, text, hquiet, htexts⟩ := parentStep_told h.told h.flag hstep
      exact ⟨hflag, htold, h.books.parent hquiet htexts hstep, h.hunted.parent hstep⟩
    · cases hstep
  | thread i same date =>
    obtain ⟨t, ht, hstep⟩ := Option.bind_eq_some_iff.mp hstep
    obtain ⟨⟨t', text⟩, hmove, rfl⟩ := Option.map_eq_some_iff.mp hstep
    exact h.thread ht hmove
  | signal =>
    have htest (sec : Option Word) (hsec : ∀ w ∈ sec, w = cfg.sec) :
        (Call.test (finishText sec)).Quiet true := test_quiet fun _ => finishText_quiet cfg hsec
    have hflag := h.flag
    have htold := h.told
    have hhunted := h.hunted
    rw [Told] at htold
    rw [FsMetadata.step] at hstep
    split at hstep
    · cases hstep
    · split at hstep
      · rename_i hparent
        rw [hparent] at hflag htold hhunted
        cases hstep
        refine ⟨hflag, ⟨htest none (by simp), none, by simp, ?_⟩, h.books, hhunted⟩
        exact congrArg (· ++ [finishText none]) htold
      · rename_i hparent
        rw [hparent] at hflag htold hhunted
        cases hstep
        refine ⟨hflag, ⟨htest (some cfg.sec) (by simp), some cfg.sec, by simp, ?_⟩, h.books,
          hhunted⟩
        exact congrArg (· ++ [finishText (some cfg.sec)]) htold
      · cases hstep
  | killParent =>
    cases hstep
    exact ⟨h.flag, h.told, h.books, h.hunted⟩
  | killThread i =>
    cases hstep
    exact ⟨h.flag, h.told, h.books.kill i, h.hunted.kill i⟩

theorem reaches_inv (h : Reaches (step cfg) Any (started cfg date) s) : Inv cfg s :=
  h.invariant (started_inv cfg date) fun _ _ _ h _ hstep => h.step hstep

/-- One thread for a minute. -/
def sampleConfig : Config where
  params := "6 5 1 60 /t/result /t/fs /t/log".toList
  threads := 1
  sec := "60".toList
  kResult := "/t/result".toList
  kLog := "/t/log".toList
  sec_quiet := by decide

def sampleDate : Stamp := ⟨1, 2, 3, 4, 5⟩

/-- The thread is about to write its second verdict when the flag is removed, and writes it after
the verdicts have been counted. -/
def sampleActions : List Action :=
  let parent (n : Nat) : List Action := List.replicate n (.parent 61 sampleDate)
  let thread (n : Nat) : List Action := List.replicate n (.thread 0 true sampleDate)
  parent 2 ++ thread 10 ++ parent 8 ++ thread 1 ++ parent 22

/-- The counts in the summary, and how much there is of threads and lines. -/
def State.numbers (s : State) : List Nat :=
  [s.passNr, s.failNr, s.threads.length, s.result.length]

theorem sample_reaches : ∃ t, Reaches (step sampleConfig) Any (started sampleConfig sampleDate) t ∧
    t.parent = .gone ∧ t.numbers = [1, 0, 1, 10] := by
  have hrun : (run (step sampleConfig) Any (started sampleConfig sampleDate) sampleActions).map
      (fun t => (t.parent, t.numbers)) = some (.gone, [1, 0, 1, 10]) := by decide +kernel
  obtain ⟨t, h, hend⟩ := exists_reaches hrun
  exact ⟨t, h, Prod.mk.inj hend⟩

/-- Every verdict in the file is of a thread that was started.  The file has the verdicts of a
thread once each and in order, except that its last one may be missing, and has them all as
long as the flag is there and the thread is not reporting. -/
theorem verdicts_recorded (h : Reaches (step cfg) Any (started cfg date) s) :
    (∀ w ∈ s.texts, isVerdict w = true →
      ∃ i same, i < s.threads.length ∧ w = verdictText i same) ∧
    ∀ i t, s.threads[i]? = some t →
      recorded i s.texts <+: t.rounds ∧ t.rounds.length ≤ (recorded i s.texts).length + 1 ∧
        (s.flag = true → t.pc = .head ∨ t.pc = .work → recorded i s.texts = t.rounds) := by
  have hbooks := (reaches_inv h).books
  refine ⟨hbooks.known, fun i t ht => ?_⟩
  have hfiled := hbooks.filed i t ht
  have hnear : recorded i s.texts <+: t.rounds ∧
      t.rounds.length ≤ (recorded i s.texts).length + 1 := by
    rcases hfiled.near with hsame | ⟨same, hrounds⟩
    · rw [hsame]
      exact ⟨List.prefix_rfl, Nat.le_succ _⟩
    · rw [hrounds]
      exact ⟨List.prefix_append _ _, by simp⟩
  refine ⟨hnear.1, hnear.2, fun hflag hpc => ?_⟩
  rw [hflag] at hfiled
  obtain ⟨pc, rounds⟩ := t
  rcases hpc with rfl | rfl
  · exact hfiled.resolve_right fun h => absurd h.1 Bool.noConfusion
  · exact hfiled

theorem verdicts_recorded_sample : ∃ t : State, t.parent = .gone ∧
    ∀ i u, t.threads[i]? = some u → recorded i t.texts <+: u.rounds := by
  obtain ⟨t, h, hgone, -⟩ := sample_reaches
  exact ⟨t, hgone, fun i u hu => ((verdicts_recorded h).2 i u hu).1⟩

theorem Thread.step_text {same : Bool} {text : Option Word}
    (h : t.step flag i same = some (t', text)) (hidle : t.busy = false) : text = none := by
  obtain ⟨pc, rounds⟩ := t
  cases pc with
  | start | generate | head =>
    cases h
    rfl
  | work | report => cases hidle
  | ended => cases h

structure Final (cfg : Config) (lines : List Line) (s : State) : Prop where
  inv : Inv cfg s
  gone : s.parent = .gone
  result : s.result = lines

theorem Final.step {lines : List Line} {a : Action} (h : Final cfg lines s)
    (hstep : step cfg s a = some s') : Final cfg lines s' := by
  have hnext := h.inv.step hstep
  obtain ⟨hinv, hgone, hresult⟩ := h
  cases a with
  | parent runTime date =>
    rw [FsMetadata.step, parentStep, hgone] at hstep
    split at hstep <;> cases hstep
  | thread i same date =>
    obtain ⟨t, ht, hthread⟩ := Option.bind_eq_some_iff.mp hstep
    obtain ⟨⟨t', text⟩, hmove, rfl⟩ := Option.map_eq_some_iff.mp hthread
    have hhunted := hinv.hunted
    rw [hgone] at hhunted
    have hnone := Thread.step_text hmove (hhunted i t ht)
    refine ⟨hnext, hgone, ?_⟩
    rw [← hresult, hnone]
    exact List.append_nil _
  | signal =>
    rw [FsMetadata.step, hgone] at hstep
    split at hstep <;> cases hstep
  | killParent | killThread i =>
    cases hstep
    exact ⟨hnext, hgone, hresult⟩

/-- Once `fs-metadata.sh` has come to its end, nothing is added to the result file, whatever
threads are left. -/
theorem result_final (h : Reaches (step cfg) Any (started cfg date) s) (hgone : s.parent = .gone)
    {u : State} (h' : Reaches (step cfg) Any s u) : u.result = s.result :=
  (h'.invariant (Final.mk (reaches_inv h) hgone rfl) fun _ _ _ h _ hstep => h.step hstep).result

/-- A thread that has not made itself known is left, and goes on until it finds no flag. -/
theorem result_final_sample : ∃ t u : State, t.parent = .gone ∧
    t.threads.map Thread.pc = [.start] ∧
    run (step sampleConfig) Any t (List.replicate 3 (.thread 0 true sampleDate)) = some u ∧
    u.threads.map Thread.pc = [.ended] ∧ u.result = t.result := by
  have hrun : ((run (step sampleConfig) Any (started sampleConfig sampleDate)
      (List.replicate 31 (.parent 61 sampleDate))).bind fun t =>
        (run (step sampleConfig) Any t (List.replicate 3 (.thread 0 true sampleDate))).map fun u =>
          (t.parent, t.threads.map Thread.pc, u.threads.map Thread.pc)) =
      some (.gone, [.start], [.ended]) := by decide +kernel
  obtain ⟨t, ht, hrun⟩ := Option.bind_eq_some_iff.mp hrun
  obtain ⟨u, hu, hend⟩ := Option.map_eq_some_iff.mp hrun
  simp only [Prod.mk.injEq] at hend
  obtain ⟨hgone, hleft, hended⟩ := hend
  exact ⟨t, u, hgone, hleft, hu, hended,
    result_final (reaches_of_run ht) hgone (reaches_of_run hu)⟩

end MceTest.FsMetadata

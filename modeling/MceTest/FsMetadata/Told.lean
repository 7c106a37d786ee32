import MceTest.FsMetadata.Books

/-! The lines that `fs-metadata.sh` writes itself, and what is left of them at each point. -/

namespace MceTest.FsMetadata

open MceTest.Library.Shell

def Call.written (flag : Bool) : Call → List Word
  | .test text => if flag ∨ isVerdict text = false then [text] else []
  | .write text => text :: if flag ∨ isVerdict text then [] else [text]
  | .retest text => if flag ∨ isVerdict text then [] else [text]
  | .rewrite text => [text]

theorem Call.step_written (flag : Bool) (call : Call) :
    call.written flag = (call.step flag).2.toList ++
      (call.step flag).1.elim [] (Call.written flag) := by
  cases call with
  | test w | retest w =>
    cases flag <;> cases hw : isVerdict w <;> simp [Call.step, Call.written, hw]
  | write w => cases flag <;> simp [Call.step, Call.written]
  | rewrite w => rfl

def quiet (texts : List Word) : List Word := texts.filter fun w => ¬ isVerdict w

def State.own (s : State) : List Word := quiet s.texts

def beginTexts (cfg : Config) : List Word := quiet [beginText cfg]

def Call.Quiet (flag : Bool) (call : Call) : Prop := ∀ w ∈ call.written flag, isVerdict w = false

theorem Call.Quiet.text {flag : Bool} {call : Call} (h : call.Quiet flag) :
    ∀ w ∈ (call.step flag).2, isVerdict w = false := by
  intro w hw
  apply h
  rw [call.step_written]
  exact List.mem_append_left _ (Option.mem_toList.mpr hw)

theorem Call.Quiet.rest {flag : Bool} {call : Call} (h : call.Quiet flag) :
    ∀ rest ∈ (call.step flag).1, rest.Quiet flag := by
  intro rest hrest w hw
  apply h
  rw [call.step_written, Option.mem_def.mp hrest]
  exact List.mem_append_right _ hw

theorem quiet_of_forall {texts : List Word} (h : ∀ w ∈ texts, isVerdict w = false) :
    quiet texts = texts := by
  rw [quiet, List.filter_eq_self]
  intro w hw
  rw [h w hw]
  rfl

theorem quiet_append (texts texts' : List Word) :
    quiet (texts ++ texts') = quiet texts ++ quiet texts' :=
  List.filter_append ..

/-- What `fs-metadata.sh` has written, and what is left of the text it writes. -/
def Told (cfg : Config) (s : State) : Prop :=
  match s.parent with
  | .starting | .sleeping => s.own = beginTexts cfg
  | .finishing call => call.Quiet true ∧ ∃ sec, (∀ w ∈ sec, w = cfg.sec) ∧
      s.own ++ call.written true = beginTexts cfg ++ [finishText sec]
  | .unlinking | .countingTotal | .countingPass | .countingFail =>
    ∃ sec, (∀ w ∈ sec, w = cfg.sec) ∧ s.own = beginTexts cfg ++ [finishText sec]
  | .summing call texts => call.Quiet false ∧ ∃ sec runTime, (∀ w ∈ sec, w = cfg.sec) ∧
      s.own ++ (call.written false ++ quiet texts) = beginTexts cfg ++ finishText sec ::
        quiet (summaryTexts cfg runTime s.totalNr s.passNr s.failNr)
  | .listing | .killing _ | .truncating | .gone =>
    ∃ sec runTime, (∀ w ∈ sec, w = cfg.sec) ∧ s.own = beginTexts cfg ++ finishText sec ::
      quiet (summaryTexts cfg runTime s.totalNr s.passNr s.failNr)

def Parent.early : Parent → Bool
  | .starting | .sleeping | .finishing _ | .unlinking => true
  | _ => false

theorem texts_log (s : State) (date : Stamp) (text : Option Word) :
    (s.log date text).texts = s.texts ++ text.toList := by
  rw [State.texts, State.log, List.map_append, Option.toList_map, List.map_map]
  exact congrArg (s.texts ++ ·) (List.map_id _)

theorem test_quiet {w : Word} {flag : Bool} (h : flag = true → isVerdict w = false) :
    (Call.test w).Quiet flag := by
  intro v hv
  simp only [Call.written] at hv
  split at hv
  · rename_i hcond
    rw [List.mem_singleton.mp hv]
    exact hcond.elim h id
  · cases hv

theorem written_test (w : Word) (texts : List Word) :
    (Call.test w).written false ++ quiet texts = quiet (w :: texts) := by
  cases hw : isVerdict w <;> simp [Call.written, quiet, hw]

variable {cfg : Config} {s s' : State} {date : Stamp} {runTime : Nat}

theorem told_toReport {texts : List Word} (hreport : s.parent = toReport texts)
    (h : ∃ sec runTime, (∀ w ∈ sec, w = cfg.sec) ∧
      s.own ++ quiet texts = beginTexts cfg ++ finishText sec ::
        quiet (summaryTexts cfg runTime s.totalNr s.passNr s.failNr)) : Told cfg s := by
  obtain ⟨sec, runTime, hsec, hown⟩ := h
  cases texts with
  | nil =>
    rw [Told, hreport]
    refine ⟨sec, runTime, hsec, ?_⟩
    rw [← hown, quiet, List.filter_nil, List.append_nil]
  | cons w texts =>
    rw [Told, hreport]
    refine ⟨test_quiet (fun h => by cases h), sec, runTime, hsec, ?_⟩
    rw [written_test]
    exact hown

theorem own_append {texts : List Word} (h : s'.texts = s.texts ++ texts)
    (hquiet : ∀ w ∈ texts, isVerdict w = false) : s'.own = s.own ++ texts := by
  rw [State.own, h, quiet_append, quiet_of_forall hquiet]
  rfl

theorem Call.Quiet.own {flag : Bool} {call : Call} (h : call.Quiet flag)
    (htexts : s'.texts = s.texts ++ (call.step flag).2.toList) :
    s'.own ++ (call.step flag).1.elim [] (Call.written flag) = s.own ++ call.written flag := by
  rw [own_append htexts fun w hw => h.text w (Option.mem_toList.mp hw), call.step_written,
    List.append_assoc]

theorem parentStep_told (htold : Told cfg s) (hflag : s.flag = s.parent.early)
    (h : parentStep cfg s runTime date = some s') :
    Told cfg s' ∧ s'.flag = s'.parent.early ∧
      ∃ text : Option Word, (∀ w ∈ text, isVerdict w = false) ∧
        s'.texts = s.texts ++ text.toList := by
  have hsame : ∃ text : Option Word, (∀ w ∈ text, isVerdict w = false) ∧
      s.texts = s.texts ++ text.toList := ⟨none, by simp, by simp⟩
  rw [parentStep] at h
  rw [Told] at htold
  split at h
  all_goals
    rename_i hparent
    rw [hparent] at htold hflag
  · cases h
    split
    · refine ⟨?_, ?_, hsame⟩
      · rw [Told, hparent]
        exact htold
      · rw [hparent]
        exact hflag
    · exact ⟨htold, hflag, hsame⟩
  · cases h
    refine ⟨⟨test_quiet fun _ => ?_, some cfg.sec, by simp, ?_⟩, hflag, hsame⟩
    · exact finishText_quiet cfg (by simp)
    · exact congrArg (· ++ [finishText (some cfg.sec)]) htold
  · rename_i call
    obtain ⟨hquiet, sec, hsec, hown⟩ := htold
    replace hflag : s.flag = true := hflag
    rw [hflag] at h
    have hown' (s' : State) (h : s'.texts = s.texts ++ (call.step true).2.toList) :=
      (hquiet.own h).trans hown
    have hrest := hquiet.rest
    have htext := hquiet.text
    cases hcall : call.step true with
    | mk rest text =>
      rw [hcall] at h hown' hrest htext
      cases h
      refine ⟨?_, ?_, text, htext, texts_log s date text⟩
      · specialize hown' _ (texts_log s date text)
        cases rest with
        | none => exact ⟨sec, hsec, (List.append_nil _).symm.trans hown'⟩
        | some rest => exact ⟨hrest rest rfl, sec, hsec, hown'⟩
      · cases rest <;> exact hflag
  · cases h
    exact ⟨htold, rfl, hsame⟩
  · cases h
    exact ⟨htold, hflag, hsame⟩
  · cases h
    exact ⟨htold, hflag, hsame⟩
  · cases h
    obtain ⟨sec, hsec, hown⟩ := htold
    let texts := summaryTexts cfg runTime s.totalNr s.passNr (grep "fail" s.file).length
    refine ⟨@told_toReport cfg _ texts rfl ⟨sec, runTime, hsec, ?_⟩, hflag, hsame⟩
    rw [List.append_cons, ← hown]
    rfl
  · rename_i call texts
    obtain ⟨hquiet, sec, runTime, hsec, hown⟩ := htold
    replace hflag : s.flag = false := hflag
    rw [hflag] at h
    rw [← List.append_assoc] at hown
    have hown' (s' : State) (h : s'.texts = s.texts ++ (call.step false).2.toList) := hquiet.own h
    have hrest := hquiet.rest
    have htext := hquiet.text
    cases hcall : call.step false with
    | mk rest text =>
      rw [hcall] at h hown' hrest htext
      cases h
      specialize hown' _ (texts_log s date text)
      refine ⟨?_, ?_, text, htext, texts_log s date text⟩
      · cases rest with
        | none =>
          refine told_toReport rfl ⟨sec, runTime, hsec, ?_⟩
          have hall := (List.append_nil _).symm.trans hown'
          exact (congrArg (· ++ quiet texts) hall).trans hown
        | some rest =>
          refine ⟨hrest rest rfl, sec, runTime, hsec, ?_⟩
          exact (List.append_assoc ..).symm.trans
            ((congrArg (· ++ quiet texts) hown').trans hown)
      · cases rest with
        | none => cases texts <;> exact hflag
        | some rest => exact hflag
  · cases h
    exact ⟨htold, hflag, hsame⟩
  · cases h
    exact ⟨htold, hflag, hsame⟩
  · cases h
    exact ⟨htold, hflag, hsame⟩
  · cases h
    exact ⟨htold, hflag, hsame⟩
  · cases h

end MceTest.FsMetadata

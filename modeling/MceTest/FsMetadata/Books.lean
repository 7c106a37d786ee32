import MceTest.FsMetadata.Verdicts

/-! The verdicts of each thread against those in the result file, and what a step of it adds. -/

namespace MceTest.FsMetadata

open MceTest.Library.Shell

def recorded (i : Nat) (texts : List Word) : List Bool := texts.filterMap (verdictOf i)

def State.texts (s : State) : List Word := s.result.map Line.text

def OneShort (recorded rounds : List Bool) : Prop := ∃ same, rounds = recorded ++ [same]

/-- What the thread `i` has found, against what the file has of it. -/
def Filed (flag : Bool) (i : Nat) (t : Thread) (recorded : List Bool) : Prop :=
  match t.pc with
  | .start | .generate => t.rounds = [] ∧ recorded = []
  | .head => recorded = t.rounds ∨ flag = false ∧ OneShort recorded t.rounds
  | .work => recorded = t.rounds
  | .report (.test text) | .report (.write text) =>
    ∃ same, text = verdictText i same ∧ t.rounds = recorded ++ [same]
  | .report (.retest text) =>
    isVerdict text = true ∧ (recorded = t.rounds ∨ flag = false ∧ OneShort recorded t.rounds)
  | .report (.rewrite _) => False
  | .ended => recorded = t.rounds ∨ OneShort recorded t.rounds

variable {flag : Bool} {i j : Nat} {t t' : Thread} {bs : List Bool} {texts : List Word}

theorem Filed.near (h : Filed flag i t bs) : bs = t.rounds ∨ OneShort bs t.rounds := by
  obtain ⟨pc, rounds⟩ := t
  cases pc with
  | start | generate => exact .inl (h.2.trans h.1.symm)
  | head => exact h.imp_right And.right
  | work => exact .inl h
  | report call =>
    cases call with
    | test text | write text =>
      obtain ⟨same, -, hrounds⟩ := h
      exact .inr ⟨same, hrounds⟩
    | retest text => exact h.2.imp_right And.right
    | rewrite text => exact h.elim
  | ended => exact h

theorem Filed.ended (h : Filed flag i t bs) : Filed flag i { t with pc := .ended } bs := h.near

theorem Filed.lower (h : Filed flag i t bs) : Filed false i t bs := by
  obtain ⟨pc, rounds⟩ := t
  cases pc with
  | head => exact h.imp_right fun h => ⟨rfl, h.2⟩
  | report call =>
    cases call with
    | retest text => exact ⟨h.1, h.2.imp_right fun h => ⟨rfl, h.2⟩⟩
    | test text | write text | rewrite text => exact h
  | start | generate | work | ended => exact h

theorem Filed.step {same : Bool} {text : Option Word} (h : Filed flag i t bs)
    (hstep : t.step flag i same = some (t', text)) :
    Filed flag i t' (bs ++ (text.bind (verdictOf i)).toList) ∧
      ∀ w ∈ text, ∃ same, w = verdictText i same := by
  obtain ⟨pc, rounds⟩ := t
  cases pc with
  | start =>
    cases hstep
    exact ⟨⟨h.1, by rw [h.2]; rfl⟩, by simp⟩
  | generate =>
    cases hstep
    exact ⟨.inl (by simpa using h.2.trans h.1.symm), by simp⟩
  | head =>
    cases hstep
    refine ⟨?_, by simp⟩
    rw [Option.bind_none, Option.toList_none, List.append_nil]
    cases flag with
    | true => exact h.resolve_right fun h => absurd h.1 Bool.noConfusion
    | false => exact h.imp_right And.right
  | work =>
    cases hstep
    refine ⟨⟨same, rfl, ?_⟩, by simp⟩
    rw [Option.bind_none, Option.toList_none, List.append_nil]
    exact congrArg (· ++ [same]) h.symm
  | report call =>
    cases call with
    | test text =>
      obtain ⟨same, rfl, hrounds⟩ := h
      cases hstep
      refine ⟨?_, by simp⟩
      rw [Option.bind_none, Option.toList_none, List.append_nil]
      cases flag with
      | true => exact ⟨same, rfl, hrounds⟩
      | false => exact ⟨isVerdict_verdictText i same, .inr ⟨rfl, same, hrounds⟩⟩
    | write text =>
      obtain ⟨same, rfl, hrounds⟩ := h
      cases hstep
      refine ⟨⟨isVerdict_verdictText i same, .inl ?_⟩, fun w hw => ⟨same, ?_⟩⟩
      · rw [Option.bind_some, verdictOf_verdictText, if_pos rfl]
        exact hrounds.symm
      · exact (Option.mem_some.mp hw).symm
    | retest text =>
      simp only [Thread.step, Call.step, h.1, not_true_eq_false, and_false, if_false,
        Option.some.injEq, Prod.mk.injEq] at hstep
      obtain ⟨rfl, rfl⟩ := hstep
      refine ⟨?_, by simp⟩
      rw [Option.bind_none, Option.toList_none, List.append_nil]
      exact h.2
    | rewrite text => exact h.elim
  | ended => cases hstep

/-- Every verdict in the file is of a thread, and has been found by it. -/
structure Books (flag : Bool) (threads : List Thread) (texts : List Word) : Prop where
  known : ∀ w ∈ texts, isVerdict w = true → ∃ i same, i < threads.length ∧ w = verdictText i same
  filed : ∀ i t, threads[i]? = some t → Filed flag i t (recorded i texts)

variable {threads : List Thread}

theorem recorded_append (i : Nat) (texts : List Word) (text : Option Word) :
    recorded i (texts ++ text.toList) = recorded i texts ++ (text.bind (verdictOf i)).toList := by
  rw [recorded, List.filterMap_append]
  cases text with
  | none => rfl
  | some w =>
    rw [Option.bind_some, Option.toList_some, List.filterMap_cons]
    cases verdictOf i w <;> rfl

theorem verdictOf_quiet {w : Word} (h : isVerdict w = false) (i : Nat) : verdictOf i w = none := by
  cases hw : verdictOf i w with
  | none => rfl
  | some same =>
    rw [verdictOf_eq_some hw, isVerdict_verdictText] at h
    cases h

theorem Books.quiet (h : Books flag threads texts) {text : Option Word}
    (htext : ∀ w ∈ text, isVerdict w = false) : Books flag threads (texts ++ text.toList) := by
  constructor
  · intro w hw hverdict
    rcases List.mem_append.mp hw with hw | hw
    · exact h.known w hw hverdict
    · rw [htext w (Option.mem_toList.mp hw)] at hverdict
      cases hverdict
  · intro i t ht
    have hnone : text.bind (verdictOf i) = none :=
      Option.bind_eq_none_iff.mpr fun w hw => verdictOf_quiet (htext w hw) i
    rw [recorded_append, hnone, Option.toList_none, List.append_nil]
    exact h.filed i t ht

theorem Books.lower (h : Books flag threads texts) : Books false threads texts :=
  ⟨h.known, fun i t ht => (h.filed i t ht).lower⟩

theorem Books.launch (h : Books flag threads texts) :
    Books flag (threads ++ [{ pc := .start }]) texts := by
  constructor
  · intro w hw hverdict
    obtain ⟨i, same, hi, rfl⟩ := h.known w hw hverdict
    exact ⟨i, same, by rw [List.length_append]; omega, rfl⟩
  · intro i t ht
    by_cases hi : i < threads.length
    · rw [List.getElem?_append_left hi] at ht
      exact h.filed i t ht
    · rw [List.getElem?_append_right (Nat.not_lt.mp hi), List.getElem?_singleton] at ht
      split at ht
      · cases ht
        have hnone : recorded i texts = [] := by
          rw [recorded, List.filterMap_eq_nil_iff]
          intro w hw
          cases hof : verdictOf i w with
          | none => rfl
          | some same =>
            have hverdict := verdictOf_eq_some hof
            obtain ⟨j, same', hj, heq⟩ :=
              h.known w hw (hverdict ▸ isVerdict_verdictText i same)
            exact absurd ((verdictText_inj.mp (hverdict.symm.trans heq)).1 ▸ hj) hi
        exact ⟨rfl, hnone⟩
      · cases ht

theorem Books.kill (h : Books flag threads texts) (j : Nat) :
    Books flag (threads.modify j fun t => { t with pc := .ended }) texts := by
  constructor
  · intro w hw hverdict
    rw [List.length_modify]
    exact h.known w hw hverdict
  · intro i t ht
    rw [List.getElem?_modify, Option.map_eq_map, Option.map_eq_some_iff] at ht
    obtain ⟨t, hold, rfl⟩ := ht
    split
    · exact (h.filed i t hold).ended
    · exact h.filed i t hold

theorem Books.thread (h : Books flag threads texts) (ht : threads[i]? = some t) {same : Bool}
    {text : Option Word} (hstep : t.step flag i same = some (t', text)) :
    Books flag (threads.set i t') (texts ++ text.toList) := by
  obtain ⟨hfiled, htext⟩ := (h.filed i t ht).step hstep
  have hi : i < threads.length := (List.getElem?_eq_some_iff.mp ht).1
  constructor
  · intro w hw hverdict
    rw [List.length_set]
    rcases List.mem_append.mp hw with hw | hw
    · exact h.known w hw hverdict
    · obtain ⟨same, rfl⟩ := htext w (Option.mem_toList.mp hw)
      exact ⟨i, same, hi, rfl⟩
  · intro j u hu
    rw [recorded_append]
    rw [List.getElem?_set] at hu
    split at hu
    · rename_i hij
      subst hij
      cases hu
      exact hfiled
    · rename_i hij
      have hnone : text.bind (verdictOf j) = none := by
        rw [Option.bind_eq_none_iff]
        intro w hw
        obtain ⟨same, rfl⟩ := htext w hw
        rw [verdictOf_verdictText, if_neg (Ne.symm hij)]
      rw [hnone, Option.toList_none, List.append_nil]
      exact h.filed j u hu

end MceTest.FsMetadata

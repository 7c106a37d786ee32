import MceTest.FsMetadata.Threads

/-! The lines of the result file: which of them are verdicts, and of which thread. -/

namespace MceTest.FsMetadata

open MceTest.Library MceTest.Library.Shell MceTest.PageTypes

theorem decText_ne_nil (n : Nat) : decText n ≠ [] := by
  obtain ⟨d, ds, htext, -⟩ := (Numeral.cNumber_decimal n).head
  rw [decText, htext]
  exact List.cons_ne_nil d ds

theorem digitVal_decText {n : Nat} {c : Char} (h : c ∈ decText n) : Numeral.digitVal c < 10 :=
  Numeral.digits_toDigits (by decide) (by decide) n c h

def Lettered (w : Word) : Prop := w ≠ [] ∧ ∀ c ∈ w, 10 ≤ Numeral.digitVal c

instance (w : Word) : Decidable (Lettered w) :=
  @instDecidableAnd _ _ inferInstance (List.decidableBAll _ w)

variable {w : Word}

theorem Lettered.infix_decText (hw : Lettered w) (n : Nat) (text rest : Word) :
    w <:+: text ++ (decText n ++ rest) ↔ w <:+: text ∨ w <:+: rest := by
  refine Grep.infix_run hw.1 (decText_ne_nil n) (fun d hd hin => ?_) text rest
  exact absurd (hw.2 d hin) (Nat.not_le.mpr (digitVal_decText hd))

theorem digitVal_twoDigits {n : Nat} {c : Char} (h : c ∈ twoDigits n) :
    Numeral.digitVal c < 10 := by
  have hdigit (d : Nat) (hd : d < 10) : Numeral.digitVal (Nat.digitChar d) < 10 := by
    rw [Numeral.digitVal_digitChar (by omega)]
    exact hd
  simp only [twoDigits, List.mem_cons, List.not_mem_nil, or_false] at h
  rcases h with rfl | rfl
  · exact hdigit _ (Nat.mod_lt _ (by decide))
  · exact hdigit _ (Nat.mod_lt _ (by decide))

def Dateless (w : Word) : Prop := IsWord w ∧ ∃ c ∈ w, c = 'a' ∨ c = 'A'

theorem not_mem_stamp (date : Stamp) {c : Char} (hc : c = 'a' ∨ c = 'A') : c ∉ date.text := by
  have hval : 10 ≤ Numeral.digitVal c := by
    rcases hc with rfl | rfl <;> decide
  have htwo (n : Nat) : c ∉ twoDigits n := fun h =>
    absurd (digitVal_twoDigits h) (Nat.not_lt.mpr hval)
  simp only [Stamp.text, List.mem_append, List.mem_singleton, htwo, or_false]
  rcases hc with rfl | rfl <;> decide

theorem Dateless.infix_word (hw : Dateless w) (l : Line) : w <:+: l.word ↔ w <:+: l.text := by
  obtain ⟨hword, c, hc, hletter⟩ := hw
  rw [Line.word, infix_blank hword (by decide)]
  exact or_iff_right fun h => not_mem_stamp l.stamp hletter (h.subset hc)

theorem pass_dateless : Dateless "pass".toList := ⟨by decide, 'a', by decide, .inl rfl⟩
theorem fail_dateless : Dateless "fail".toList := ⟨by decide, 'a', by decide, .inl rfl⟩
theorem PASS_dateless : Dateless "PASS".toList := ⟨by decide, 'A', by decide, .inr rfl⟩
theorem FAIL_dateless : Dateless "FAIL".toList := ⟨by decide, 'A', by decide, .inr rfl⟩

theorem isVerdict_word (l : Line) : isVerdict l.word = isVerdict l.text := by
  rw [isVerdict, isVerdict, decide_eq_decide, pass_dateless.infix_word, fail_dateless.infix_word]

theorem Lettered.infix_three (hw : Lettered w) (n : Nat) (a b c d : Word) :
    w <:+: a ++ (decText n ++ (b ++ (decText n ++ (c ++ (decText n ++ d))))) ↔
      w <:+: a ∨ w <:+: b ∨ w <:+: c ∨ w <:+: d := by
  rw [hw.infix_decText, hw.infix_decText, hw.infix_decText]

def verdictPart (same : Bool) : Word :=
  ": ".toList ++ (if same then "pass" else "fail").toList ++
    " to compare result between dir ".toList

theorem append_regroup (a n b c d e f : Word) :
    a ++ n ++ b ++ c ++ d ++ n ++ e ++ n ++ f =
      a ++ (n ++ ((b ++ c ++ d) ++ (n ++ (e ++ (n ++ f))))) := by
  simp only [List.append_assoc]

theorem verdictText_eq (i : Nat) (same : Bool) :
    verdictText i same = "thread ".toList ++ (decText i ++ (verdictPart same ++
      (decText i ++ (" and ".toList ++ (decText i ++ "-new".toList))))) := by
  unfold verdictText verdictPart
  exact append_regroup _ _ _ _ _ _ _

theorem Lettered.infix_verdictText (hw : Lettered w) (i : Nat) (same : Bool) :
    w <:+: verdictText i same ↔ w <:+: "thread ".toList ∨ w <:+: verdictPart same ∨
      w <:+: " and ".toList ∨ w <:+: "-new".toList := by
  rw [verdictText_eq]
  exact hw.infix_three i _ _ _ _

theorem pass_verdictText (i : Nat) (same : Bool) :
    "pass".toList <:+: verdictText i same ↔ same = true := by
  rw [Lettered.infix_verdictText (by decide)]
  cases same <;> decide

theorem fail_verdictText (i : Nat) (same : Bool) :
    "fail".toList <:+: verdictText i same ↔ same = false := by
  rw [Lettered.infix_verdictText (by decide)]
  cases same <;> decide

theorem isVerdict_verdictText (i : Nat) (same : Bool) : isVerdict (verdictText i same) = true := by
  rw [isVerdict, decide_eq_true_iff, pass_verdictText, fail_verdictText]
  cases same <;> simp

theorem verdictText_inj {i j : Nat} {same same' : Bool} :
    verdictText i same = verdictText j same' ↔ i = j ∧ same = same' := by
  constructor
  · intro h
    have hnumber (n : Nat) (b : Bool) (rest : Word) :
        Numeral.digitPrefix 10 (decText n ++ (verdictPart b ++ rest)) = decText n := by
      refine Numeral.digitPrefix_append (Numeral.digits_toDigits (by decide) (by decide) n) ?_
      cases b <;> simp [Numeral.Stops, verdictPart] <;> decide
    have hsame : same = same' := by
      rw [Bool.eq_iff_iff, ← pass_verdictText i, h, pass_verdictText]
    rw [verdictText_eq, verdictText_eq] at h
    have hij := congrArg (Numeral.digitPrefix 10) (List.append_cancel_left h)
    rw [hnumber, hnumber] at hij
    exact ⟨Numeral.toDigits_injective (by decide) (by decide) hij, hsame⟩
  · rintro ⟨rfl, rfl⟩
    rfl

def verdictOf (i : Nat) (text : Word) : Option Bool :=
  if text = verdictText i true then some true
  else if text = verdictText i false then some false
  else none

@[simp] theorem verdictOf_verdictText (i j : Nat) (same : Bool) :
    verdictOf i (verdictText j same) = if i = j then some same else none := by
  simp only [verdictOf, verdictText_inj]
  by_cases hij : i = j
  · subst hij
    cases same <;> simp
  · simp [hij, Ne.symm hij]

theorem verdictOf_eq_some {i : Nat} {text : Word} {same : Bool}
    (h : verdictOf i text = some same) : text = verdictText i same := by
  rw [verdictOf] at h
  split at h
  · rename_i htext
    cases h
    exact htext
  · split at h
    · rename_i htext
      cases h
      exact htext
    · cases h

theorem append_blanks (a b c : Word) :
    a ++ [' '] ++ (b ++ [' ']) ++ c = a ++ ' ' :: (b ++ ' ' :: c) := by
  simp only [List.append_assoc, List.cons_append, List.nil_append]

theorem infix_finishText (hw : IsWord w) {sec : Word} (h : w <:+: finishText (some sec)) :
    w <:+: "finish".toList ∨ w <:+: sec ∨
      w <:+: "secs fs stress testing, clean up the envirnment".toList := by
  have hshape : finishText (some sec) = "finish".toList ++ ' ' :: (sec ++ ' ' ::
      "secs fs stress testing, clean up the envirnment".toList) := by
    have hblank : "finish ".toList = "finish".toList ++ [' '] := by decide
    unfold finishText
    rw [hblank]
    exact append_blanks _ _ _
  have hblank := infix_blank hw (b := ' ') rfl
  rw [hshape, hblank "finish".toList, hblank sec] at h
  exact h

theorem finishText_quiet (cfg : Config) {sec : Option Word} (hsec : ∀ w ∈ sec, w = cfg.sec) :
    isVerdict (finishText sec) = false := by
  cases sec with
  | none => decide
  | some sec =>
    have hquiet := cfg.sec_quiet
    rw [← hsec sec rfl, isVerdict, decide_eq_false_iff_not, not_or] at hquiet
    rw [isVerdict, decide_eq_false_iff_not]
    rintro (h | h)
    · rcases infix_finishText (by decide) h with h | h | h
      · exact absurd h (by decide)
      · exact hquiet.1 h
      · exact absurd h (by decide)
    · rcases infix_finishText (by decide) h with h | h | h
      · exact absurd h (by decide)
      · exact hquiet.2 h
      · exact absurd h (by decide)

end MceTest.FsMetadata

import MceTest.FsMetadata.Counted
import MceTest.Hwpoison.Verdict

/-! What `hwpoison.sh` reads in the result file, whenever it does. -/

namespace MceTest.FsMetadata

open MceTest.Library MceTest.Library.Shell MceTest.Library.Transition MceTest.PageTypes
open MceTest.Hwpoison

variable {cfg : Config} {s : State} {date : Stamp}

def Config.Without (cfg : Config) (w : Word) : Prop :=
  ¬ w <:+: cfg.params ∧ ¬ w <:+: cfg.sec ∧ ¬ w <:+: cfg.kResult ∧ ¬ w <:+: cfg.kLog

structure Capital (w : Word) : Prop where
  word : IsWord w
  lettered : Lettered w
  comma : ',' ∉ w
  dateless : Dateless w
  fixed : ∀ text ∈ ["[begin] fs-stress testing start with parameters:".toList,
    "finish".toList, "secs fs stress testing, clean up the envirnment".toList,
    "finish secs fs stress testing, clean up the envirnment".toList,
    "Finish fs-metadata testing within ".toList, " secs, ".toList, " metadata".toList,
    "testing finished.".toList, "You can refer to result file".toList, "and log file".toList,
    "for details.".toList, "thread ".toList, verdictPart true, verdictPart false,
    " and ".toList, "-new".toList], ¬ w <:+: text

theorem PASS_capital : Capital "PASS".toList where
  word := by decide
  lettered := by decide
  comma := by decide
  dateless := PASS_dateless
  fixed := by decide

theorem FAIL_capital : Capital "FAIL".toList where
  word := by decide
  lettered := by decide
  comma := by decide
  dateless := FAIL_dateless
  fixed := by decide

variable {w : Word}

theorem Capital.not_verdictText (hw : Capital w) (i : Nat) (same : Bool) :
    ¬ w <:+: verdictText i same := by
  rw [hw.lettered.infix_verdictText]
  rintro (h | h | h | h)
  · exact hw.fixed _ (by simp) h
  · cases same <;> exact hw.fixed _ (by simp) h
  · exact hw.fixed _ (by simp) h
  · exact hw.fixed _ (by simp) h

theorem append_blank (a b : Word) : a ++ [' '] ++ b = a ++ ' ' :: b := List.append_cons .. |>.symm

theorem Capital.not_beginText (hw : Capital w) (hcfg : cfg.Without w) : ¬ w <:+: beginText cfg := by
  have hblank : "[begin] fs-stress testing start with parameters: ".toList =
      "[begin] fs-stress testing start with parameters:".toList ++ [' '] := by decide
  unfold beginText
  rw [hblank, append_blank, infix_blank hw.word rfl]
  exact fun h => h.elim (hw.fixed _ (by simp)) hcfg.1

theorem Capital.not_finishText (hw : Capital w) (hcfg : cfg.Without w) {sec : Option Word}
    (hsec : ∀ v ∈ sec, v = cfg.sec) : ¬ w <:+: finishText sec := by
  cases sec with
  | none =>
    have hnone : finishText none =
        "finish secs fs stress testing, clean up the envirnment".toList := by decide
    rw [hnone]
    exact hw.fixed _ (by simp)
  | some sec =>
    intro h
    rcases infix_finishText hw.word h with h | h | h
    · exact hw.fixed _ (by simp) h
    · exact hcfg.2.1 (hsec sec rfl ▸ h)
    · exact hw.fixed _ (by simp) h

def summaryHead (runTime totalNr : Nat) : List Word :=
  ["Finish fs-metadata testing within ".toList ++ decText runTime ++ " secs, ".toList ++
    decText totalNr ++ " metadata".toList, "testing finished.".toList]

def summaryTail (cfg : Config) : List Word :=
  ["You can refer to result file ".toList ++ cfg.kResult ++ [','],
    "and log file ".toList ++ cfg.kLog ++ " for details.".toList]

theorem append_two (a n b m c : Word) :
    a ++ n ++ b ++ m ++ c = a ++ (n ++ (b ++ (m ++ c))) := by
  simp only [List.append_assoc]

theorem Capital.not_summaryHead (hw : Capital w) (runTime totalNr : Nat) :
    ∀ text ∈ summaryHead runTime totalNr, ¬ w <:+: text := by
  intro text htext
  rw [summaryHead, List.mem_cons, List.mem_singleton] at htext
  rcases htext with rfl | rfl
  · rw [append_two, hw.lettered.infix_decText runTime _ (_ ++ (decText totalNr ++ _)),
      hw.lettered.infix_decText totalNr]
    rintro (h | h | h)
    · exact hw.fixed _ (by simp) h
    · exact hw.fixed _ (by simp) h
    · exact hw.fixed _ (by simp) h
  · exact hw.fixed _ (by simp)

theorem Capital.not_summaryTail (hw : Capital w) (hcfg : cfg.Without w) :
    ∀ text ∈ summaryTail cfg, ¬ w <:+: text := by
  intro text htext
  rw [summaryTail, List.mem_cons, List.mem_singleton] at htext
  rcases htext with rfl | rfl
  · have hblank : "You can refer to result file ".toList =
        "You can refer to result file".toList ++ [' '] := by decide
    rw [hblank, append_blank, List.append_assoc, List.cons_append, infix_blank hw.word rfl]
    rintro (h | h)
    · exact hw.fixed _ (by simp) h
    · rw [Grep.infix_split hw.word.1 hw.comma, List.infix_nil] at h
      exact h.elim hcfg.2.2.1 hw.word.1
  · have hblank : "and log file ".toList = "and log file".toList ++ [' '] := by decide
    have hblank' : " for details.".toList = ' ' :: "for details.".toList := by decide
    rw [hblank, hblank', append_blank, List.append_assoc, List.cons_append,
      infix_blank hw.word rfl, infix_blank hw.word rfl cfg.kLog]
    rintro (h | h | h)
    · exact hw.fixed _ (by simp) h
    · exact hcfg.2.2.2 h
    · exact hw.fixed _ (by simp) h

def Harmless (cfg : Config) : Prop := cfg.Without "PASS".toList ∧ cfg.Without "FAIL".toList

/-- `hwpoison.sh` looks for neither of its two words and finds one. -/
def Unshouted (text : Word) : Prop := ¬ "PASS".toList <:+: text ∧ ¬ "FAIL".toList <:+: text

theorem number_quiet (n : Nat) :
    isVerdict (passText n) = false ∧ isVerdict (failText n) = false := by
  have hnot {v t : Word} (hv : Lettered v) (h : ¬ v <:+: t) : ¬ v <:+: t ++ decText n := by
    have hsplit := hv.infix_decText n t []
    rw [List.append_nil, List.infix_nil] at hsplit
    exact fun hin => (hsplit.mp hin).elim h hv.1
  rw [isVerdict, isVerdict, decide_eq_false_iff_not, decide_eq_false_iff_not, not_or, not_or]
  exact ⟨⟨hnot (by decide) (by decide), hnot (by decide) (by decide)⟩,
    hnot (by decide) (by decide), hnot (by decide) (by decide)⟩

theorem quiet_summaryTexts (cfg : Config) (runTime totalNr passNr failNr : Nat) :
    quiet (summaryTexts cfg runTime totalNr passNr failNr) =
      quiet (summaryHead runTime totalNr) ++ passText passNr :: failText failNr ::
        quiet (summaryTail cfg) := by
  have hparts : summaryTexts cfg runTime totalNr passNr failNr =
      summaryHead runTime totalNr ++ ([passText passNr, failText failNr] ++ summaryTail cfg) := rfl
  have hnumbers : quiet [passText passNr, failText failNr] = [passText passNr, failText failNr] :=
    quiet_of_forall fun v hv => by
      rcases List.mem_cons.mp hv with rfl | hv
      · exact (number_quiet passNr).1
      · exact List.mem_singleton.mp hv ▸ (number_quiet failNr).2
  rw [hparts, quiet_append, quiet_append, hnumbers]
  rfl

/-- The lines of `fs-metadata.sh` are those before the two numbers, or have them both in their
place, or only the first one. -/
theorem own_cases (hcfg : Harmless cfg) (htold : Told cfg s) :
    ∃ A B, (∀ text ∈ A ++ B, Unshouted text) ∧
      (s.own <+: A ∨ s.parent.counts = 3 ∧
        s.own <+: A ++ passText s.passNr :: failText s.failNr :: B) ∧
      (s.parent = .gone → s.own = A ++ passText s.passNr :: failText s.failNr :: B) := by
  have hpair {text : Word} (hpass : ∀ w, Capital w → cfg.Without w → ¬ w <:+: text) :
      Unshouted text := ⟨hpass _ PASS_capital hcfg.1, hpass _ FAIL_capital hcfg.2⟩
  have hall (sec : Option Word) (hsec : ∀ v ∈ sec, v = cfg.sec) (runTime : Nat) :
      ∀ text ∈ (beginTexts cfg ++ finishText sec :: quiet (summaryHead runTime s.totalNr)) ++
        quiet (summaryTail cfg), Unshouted text := by
    intro text htext
    rw [List.mem_append, List.mem_append, List.mem_cons] at htext
    rcases htext with (h | rfl | h) | h
    · rw [beginTexts, quiet] at h
      have hbegin : text ∈ [beginText cfg] := List.mem_of_mem_filter h
      exact List.mem_singleton.mp hbegin ▸ hpair fun w hw hwithout => hw.not_beginText hwithout
    · exact hpair fun w hw hwithout => hw.not_finishText hwithout hsec
    · exact hpair fun w hw _ => hw.not_summaryHead _ _ text (List.mem_of_mem_filter h)
    · exact hpair fun w hw hwithout => hw.not_summaryTail hwithout text (List.mem_of_mem_filter h)
  have hsummary (sec : Option Word) (runTime : Nat) (rest : List Word)
      (hown : s.own ++ rest = beginTexts cfg ++ finishText sec ::
        quiet (summaryTexts cfg runTime s.totalNr s.passNr s.failNr)) :
      s.own ++ rest = (beginTexts cfg ++ finishText sec ::
        quiet (summaryHead runTime s.totalNr)) ++ passText s.passNr :: failText s.failNr ::
          quiet (summaryTail cfg) := by
    rw [hown, quiet_summaryTexts, List.append_assoc, List.cons_append]
  have hfinish (sec : Option Word) (rest : List Word) :
      beginTexts cfg ++ [finishText sec] <+: beginTexts cfg ++ finishText sec :: rest :=
    (List.prefix_append_right_inj _).mpr ⟨rest, rfl⟩
  rw [Told] at htold
  cases hparent : s.parent with
  | starting | sleeping =>
    rw [hparent] at htold
    refine ⟨_, _, hall none (by simp) 0, .inl ?_, fun h => by cases h⟩
    rw [show s.own = _ from htold]
    exact List.prefix_append _ _
  | finishing call =>
    rw [hparent] at htold
    obtain ⟨-, sec, hsec, hown⟩ := htold
    refine ⟨_, _, hall sec hsec 0, .inl ?_, fun h => by cases h⟩
    exact List.IsPrefix.trans ⟨call.written true, hown⟩ (hfinish sec _)
  | unlinking | countingTotal | countingPass | countingFail =>
    rw [hparent] at htold
    obtain ⟨sec, hsec, hown⟩ := htold
    refine ⟨_, _, hall sec hsec 0, .inl ?_, fun h => by cases h⟩
    rw [hown]
    exact hfinish sec _
  | summing call texts =>
    rw [hparent] at htold
    obtain ⟨-, sec, runTime, hsec, hown⟩ := htold
    refine ⟨_, _, hall sec hsec runTime, .inr ⟨rfl, ?_⟩, fun h => by cases h⟩
    exact ⟨_, hsummary sec runTime _ hown⟩
  | listing | killing | truncating | gone =>
    rw [hparent] at htold
    obtain ⟨sec, runTime, hsec, hown⟩ := htold
    have hown := hsummary sec runTime [] ((List.append_nil _).trans hown)
    refine ⟨_, _, hall sec hsec runTime, .inr ⟨rfl, [], hown⟩, fun _ => ?_⟩
    exact (List.append_nil _).symm.trans hown

theorem prefix_two {α : Type} {xs as bs : List α} {x y : α} (h : xs <+: as ++ x :: y :: bs) :
    xs <+: as ++ [x] ∨ ∃ rest, rest <+: bs ∧ xs = as ++ x :: y :: rest := by
  have hfirst : as ++ [x] <+: as ++ x :: y :: bs :=
    (List.prefix_append_right_inj _).mpr ⟨y :: bs, rfl⟩
  rcases List.prefix_or_prefix_of_prefix h hfirst with hxs | ⟨rest, rfl⟩
  · exact .inl hxs
  · rw [List.append_assoc, List.prefix_append_right_inj, List.singleton_append,
      List.cons_prefix_cons] at h
    cases rest with
    | nil => exact .inl (by rw [List.append_nil])
    | cons z rest =>
      obtain ⟨rfl, hrest⟩ := List.cons_prefix_cons.mp h.2
      exact .inr ⟨rest, hrest, by rw [List.append_assoc, List.singleton_append]⟩

theorem lastField_colon (a : Word) {b : Word} (hb : ':' ∉ b) : lastField (a ++ ':' :: b) = b := by
  have hall : ∀ c ∈ b.reverse, decide (c ≠ ':') = true := fun c hc =>
    decide_eq_true fun h => hb (h ▸ List.mem_reverse.mp hc)
  rw [lastField, List.reverse_append, List.reverse_cons, List.append_assoc,
    List.takeWhile_append_of_pos hall]
  simp

theorem substitution_one {v : Word} (hv : '\n' ∉ v) : substitution [v] = v := by
  have hhead : v.reverse.dropWhile (fun c => decide (c = '\n')) = v.reverse := by
    cases hrev : v.reverse with
    | nil => rfl
    | cons c cs =>
      have hc : c ≠ '\n' := fun h => hv (List.mem_reverse.mp (hrev ▸ h ▸ List.mem_cons_self))
      rw [List.dropWhile_cons_of_neg (by simpa using hc)]
  rw [substitution, List.flatMap_singleton, List.reverse_append, List.reverse_singleton,
    List.singleton_append, List.dropWhile_cons_of_pos (by simp), hhead, List.reverse_reverse]

theorem Capital.filter_texts (hw : Capital w) (h : Inv cfg s) :
    s.texts.filter (fun text => w <:+: text) = s.own.filter fun text => w <:+: text := by
  rw [State.own, quiet, List.filter_filter]
  refine List.filter_congr fun text htext => ?_
  cases hverdict : isVerdict text with
  | false => simp
  | true =>
    obtain ⟨i, same, -, rfl⟩ := h.books.known text htext hverdict
    simp [hw.not_verdictText i same]

theorem lastFields {w : String} (hw : Capital w.toList) (h : Inv cfg s) {a : Word} {n : Nat}
    {texts : List Word} (hown : s.own.filter (fun text => w.toList <:+: text) = texts)
    (htexts : ∀ text ∈ texts, text = a ++ ':' :: decText n) :
    (grep w s.file).map lastField = List.replicate texts.length (decText n) := by
  have hfilter := (hw.filter_texts h).trans hown
  rw [List.eq_replicate_iff, List.length_map, length_grep hw.dateless, having,
    List.countP_eq_length_filter, hfilter]
  refine ⟨rfl, fun field hfield => ?_⟩
  obtain ⟨line, hline, rfl⟩ := List.mem_map.mp hfield
  obtain ⟨hmem, hin⟩ := List.mem_filter.mp hline
  have hall : s.file.all = s.result.map Line.word := List.append_nil _
  rw [hall] at hmem
  obtain ⟨l, hl, rfl⟩ := List.mem_map.mp hmem
  have htext : l.text ∈ texts := by
    rw [← hfilter, List.mem_filter, decide_eq_true_iff]
    exact ⟨List.mem_map_of_mem hl, (hw.dateless.infix_word l).mp (of_decide_eq_true hin)⟩
  have hcolon : ':' ∉ decText n := fun h => absurd (digitVal_decText h) (by decide)
  rw [Line.word, htexts _ htext, ← List.cons_append, ← List.append_assoc]
  exact lastField_colon _ hcolon

theorem filter_unshouted {texts : List Word} (h : ∀ text ∈ texts, Unshouted text) :
    texts.filter (fun text => "PASS".toList <:+: text) = [] ∧
      texts.filter (fun text => "FAIL".toList <:+: text) = [] := by
  rw [List.filter_eq_nil_iff, List.filter_eq_nil_iff]
  exact ⟨fun text htext hin => (h text htext).1 (of_decide_eq_true hin),
    fun text htext hin => (h text htext).2 (of_decide_eq_true hin)⟩

theorem passText_words (n : Nat) :
    "PASS".toList <:+: passText n ∧ ¬ "FAIL".toList <:+: passText n := by
  refine ⟨⟨[], ':' :: decText n, rfl⟩, fun h => ?_⟩
  have hsplit := FAIL_capital.lettered.infix_decText n "PASS:".toList []
  rw [List.append_nil, List.infix_nil] at hsplit
  exact (hsplit.mp h).elim (by decide) (by decide)

theorem failText_words (n : Nat) :
    "FAIL".toList <:+: failText n ∧ ¬ "PASS".toList <:+: failText n := by
  refine ⟨⟨[], ':' :: decText n, rfl⟩, fun h => ?_⟩
  have hsplit := PASS_capital.lettered.infix_decText n "FAIL:".toList []
  rw [List.append_nil, List.infix_nil] at hsplit
  exact (hsplit.mp h).elim (by decide) (by decide)

theorem nums_cases (hcfg : Harmless cfg) (h : Inv cfg s) :
    (metadataNums s.file = (['0'], ['0']) ∨ s.parent.counts = 3 ∧
        metadataNums s.file = (decText s.failNr, decText s.passNr)) ∧
      (s.parent = .gone → metadataNums s.file = (decText s.failNr, decText s.passNr)) := by
  have hline (n : Nat) : '\n' ∉ decText n := fun h => absurd (digitVal_decText h) (by decide)
  obtain ⟨A, B, hAB, hcases, hgone⟩ := own_cases hcfg h.told
  have hA := filter_unshouted fun text htext => hAB text (List.mem_append_left B htext)
  -- without the second number nothing is read
  have hshort (hown : s.own <+: A ++ [passText s.passNr]) :
      metadataNums s.file = (['0'], ['0']) := by
    have hnone : s.own.filter (fun text => "FAIL".toList <:+: text) = [] := by
      have hprefix := hown.filter fun text => "FAIL".toList <:+: text
      rw [List.filter_append, hA.2, List.filter_singleton,
        decide_eq_false (passText_words s.passNr).2] at hprefix
      exact List.prefix_nil.mp hprefix
    have hfields := lastFields FAIL_capital h (a := []) (n := 0) hnone (by simp)
    rw [metadataNums, hfields]
    rfl
  have hfull (rest : List Word) (hrest : ∀ text ∈ rest, Unshouted text)
      (hown : s.own = A ++ passText s.passNr :: failText s.failNr :: rest) :
      metadataNums s.file = (decText s.failNr, decText s.passNr) := by
    have hrest := filter_unshouted hrest
    have hpass : s.own.filter (fun text => "PASS".toList <:+: text) = [passText s.passNr] := by
      rw [hown, List.filter_append, hA.1, List.filter_cons, List.filter_cons, hrest.1,
        decide_eq_true (passText_words s.passNr).1, decide_eq_false (failText_words s.failNr).2]
      rfl
    have hfail : s.own.filter (fun text => "FAIL".toList <:+: text) = [failText s.failNr] := by
      rw [hown, List.filter_append, hA.2, List.filter_cons, List.filter_cons, hrest.2,
        decide_eq_false (passText_words s.passNr).2, decide_eq_true (failText_words s.failNr).1]
      rfl
    have hpasses := lastFields PASS_capital h (a := "PASS".toList) (n := s.passNr) hpass
      (by simp [passText])
    have hfails := lastFields FAIL_capital h (a := "FAIL".toList) (n := s.failNr) hfail
      (by simp [failText])
    rw [metadataNums, hpasses, hfails]
    simp only [List.length_singleton, List.replicate_one]
    rw [substitution_one (hline _), substitution_one (hline _), if_neg (decText_ne_nil _)]
  refine ⟨?_, fun hparent => hfull B ?_ (hgone hparent)⟩
  · rcases hcases with hown | ⟨hcounts, hown⟩
    · exact .inl (hshort (hown.trans (List.prefix_append _ _)))
    · rcases prefix_two hown with hown | ⟨rest, hrest, hown⟩
      · exact .inl (hshort hown)
      · refine .inr ⟨hcounts, hfull rest (fun text htext => ?_) hown⟩
        exact hAB text (List.mem_append_right A (hrest.subset htext))
  · exact fun text htext => hAB text (List.mem_append_right A htext)

theorem decText_isWord (n : Nat) : IsWord (decText n) := by
  refine ⟨decText_ne_nil n, fun c hc => ?_⟩
  have hval := digitVal_decText hc
  rw [isBlank, decide_eq_false_iff_not]
  rintro (rfl | rfl | rfl) <;> exact absurd hval (by decide)

theorem intWord?_decText {n : Nat} (hn : n < 2 ^ 63) : intWord? (decText n) = some (n : Int) := by
  have hdigit : (decText n).all isDigit = true := by
    rw [List.all_eq_true]
    intro c hc
    have hval := Numeral.toNat_of_digitVal (digitVal_decText hc)
    rw [isDigit, decide_eq_true_iff]
    exact hval
  have hnat : natWord? (decText n) = some n := by
    rw [natWord?, if_pos ⟨decText_ne_nil n, hdigit⟩, decText,
      Numeral.value_toDigits (by decide) (by decide)]
  have hhead : ∀ c ∈ (decText n).head?, c ≠ '-' ∧ c ≠ '+' := by
    intro c hc
    have hval := digitVal_decText (List.mem_of_mem_head? hc)
    constructor
    · rintro rfl
      exact absurd hval (by decide)
    · rintro rfl
      exact absurd hval (by decide)
  have hint : intWord? (decText n) = (some (n : Int)).filter fun n => -2 ^ 63 ≤ n ∧ n < 2 ^ 63 := by
    unfold intWord?
    split
    · rename_i heq
      exact absurd rfl (hhead '-' (by rw [heq]; rfl)).1
    · rename_i heq
      exact absurd rfl (hhead '+' (by rw [heq]; rfl)).2
    · rw [hnat]
      rfl
  rw [hint, Option.filter_some, if_pos]
  exact decide_eq_true (by omega)

theorem testZero_decText (sh : Behaviour) (op : IntOp) {n : Nat} (hn : n < 2 ^ 63) :
    testZero sh op (decText n) = op.holds n := by
  have hplain : sh.glob (decText n) = [decText n] := by
    refine sh.glob_plain _ fun c hc hspecial => ?_
    have hval := digitVal_decText hc
    simp only [List.mem_cons, List.not_mem_nil, or_false] at hspecial
    rcases hspecial with rfl | rfl | rfl | rfl <;> exact absurd hval (by decide)
  rw [testZero, splitWords_self (decText_isWord n), List.flatMap_singleton, hplain]
  simp only [intWord?_decText hn]

theorem accepted_iff (sh : Behaviour) {f p : Nat} {file : TextFile} (hf : f < 2 ^ 63)
    (hp : p < 2 ^ 63) (hnums : metadataNums file = (decText f, decText p)) :
    MetadataAccepted sh file ↔ f = 0 ∧ p ≠ 0 := by
  rw [MetadataAccepted, hnums, testZero_decText sh .ne hf, testZero_decText sh .eq hp]
  simp [IntOp.holds]

theorem dropLast_settled (t : Thread) : t.rounds.dropLast ⊆ t.settled := by
  obtain ⟨pc, rounds⟩ := t
  cases pc with
  | work => exact List.dropLast_subset rounds
  | start | generate | head | report | ended => exact List.Subset.refl _

theorem exists_pass (h : Inv cfg s) (hpass : passes s.texts ≠ 0) :
    ∃ t ∈ s.threads, true ∈ t.rounds := by
  obtain ⟨text, htext, hin⟩ := List.countP_pos_iff.mp (Nat.pos_of_ne_zero hpass)
  have hverdict : isVerdict text = true := decide_eq_true (.inl (of_decide_eq_true hin))
  obtain ⟨i, same, hi, rfl⟩ := h.books.known text htext hverdict
  have hsame := (pass_verdictText i same).mp (of_decide_eq_true hin)
  subst hsame
  have ht := List.getElem?_eq_getElem hi
  have hrecorded : true ∈ recorded i s.texts :=
    List.mem_filterMap.mpr ⟨_, htext, (verdictOf_verdictText i i true).trans (if_pos rfl)⟩
  refine ⟨s.threads[i], List.getElem_mem hi, ?_⟩
  rcases (h.books.filed i _ ht).near with hsame | ⟨same, hrounds⟩
  · exact hsame ▸ hrecorded
  · rw [hrounds]
    exact List.mem_append_left _ hrecorded

/-- Whenever `hwpoison.sh` reads the result file, it lets the workload pass only if some comparison
has found the trees the same and none but the last one of a thread has found a difference.  After
the end of `fs-metadata.sh` it goes by the two numbers. -/
theorem metadata_verdict (sh : Behaviour) (hcfg : Harmless cfg)
    (hlines : s.result.length < 2 ^ 63) (h : Reaches (step cfg) Any (started cfg date) s) :
    (MetadataAccepted sh s.file → (∃ t ∈ s.threads, true ∈ t.rounds) ∧
      ∀ t ∈ s.threads, false ∉ t.rounds.dropLast) ∧
    (s.parent = .gone → (MetadataAccepted sh s.file ↔ s.failNr = 0 ∧ s.passNr ≠ 0)) := by
  have hinv := reaches_inv h
  have hcounted := reaches_counted h
  have hsize : s.texts.length < 2 ^ 63 := by rwa [State.texts, List.length_map]
  have hiff (hcounts : s.parent.counts = 3)
      (hnums : metadataNums s.file = (decText s.failNr, decText s.passNr)) :
      MetadataAccepted sh s.file ↔ s.failNr = 0 ∧ s.passNr ≠ 0 := by
    have hfail := (hcounted.fail (by omega)).1.trans List.countP_le_length
    have hpass := (hcounted.pass (by omega)).1.trans List.countP_le_length
    exact accepted_iff sh (by omega) (by omega) hnums
  obtain ⟨hcases, hgone⟩ := nums_cases hcfg hinv
  refine ⟨fun haccepted => ?_, fun hparent => hiff (by rw [hparent]; rfl) (hgone hparent)⟩
  rcases hcases with hnums | ⟨hcounts, hnums⟩
  · have hzero := (accepted_iff sh (f := 0) (p := 0) (by decide) (by decide) hnums).mp haccepted
    exact absurd rfl hzero.2
  · obtain ⟨hfail, hpass⟩ := (hiff hcounts hnums).mp haccepted
    constructor
    · have hle := (hcounted.pass (by omega)).1
      exact exists_pass hinv (by omega)
    · intro t ht hmem
      obtain ⟨i, hi⟩ := List.mem_iff_getElem?.mp ht
      exact hcounted.settled (by omega) i t hi (dropLast_settled t hmem) hfail

theorem sampleConfig_harmless : Harmless sampleConfig := by
  unfold Harmless Config.Without
  decide

theorem metadata_verdict_sample : ∃ t : State, t.parent = .gone ∧
    MetadataAccepted strict t.file ∧ ∃ u ∈ t.threads, true ∈ u.rounds := by
  obtain ⟨t, h, hgone, hnumbers⟩ := sample_reaches
  simp only [State.numbers, List.cons.injEq, and_true] at hnumbers
  obtain ⟨hpass, hfail, -, hlength⟩ := hnumbers
  obtain ⟨hsound, hiff⟩ := metadata_verdict strict sampleConfig_harmless (by rw [hlength]; decide) h
  have haccepted := (hiff hgone).mpr ⟨hfail, by rw [hpass]; decide⟩
  exact ⟨t, hgone, haccepted, (hsound haccepted).1⟩

end MceTest.FsMetadata

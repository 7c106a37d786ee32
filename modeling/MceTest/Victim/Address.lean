import MceTest.Library.CInt
import MceTest.Library.Numeral
import MceTest.Library.Subopt
import MceTest.Library.While

/-! `parse_addr_subopts` of `victim`: the address and the process of the option `-a`. -/

namespace MceTest.Victim

open MceTest.Library MceTest.Library.Numeral MceTest.Library.Subopt MceTest.Library.While

def vaddrToken : Word := "vaddr".toList

def pidToken : Word := "pid".toList

/-- The local variables; a pointer that has not been assigned is `none`. -/
structure ParseState where
  p : List Char
  err : Nat := 0
  svaddr : Option Word := none
  spid : Option Word := none
  deriving DecidableEq

/-- One turn of the loop.  A token without its value is an error like an unknown one. -/
def subopt (s : ParseState) : ParseState ⊕ ParseState :=
  if s.p ≠ [] ∧ s.err = 0 then
    let r := getsubopt [vaddrToken, pidToken] s.p
    let s := { s with p := r.rest }
    .inl <| match r.index, r.value with
      | some 0, some subval => { s with svaddr := some subval }
      | some 1, some subval => { s with spid := some subval }
      | _, _ => { s with err := s.err + 1 }
  else .inr s

/-- What is returned, and what is stored in `*virt` and `*pid`. -/
structure Parsed where
  ret : Nat
  virt : Option Nat := none
  pid : Option Int := none
  deriving DecidableEq

/-- The test behind a conversion; `errno` is set when the number is out of range. -/
def invalid (n : Int) (text : Word) : Bool :=
  n = 0 ∧ text.head? ≠ some '0' ∨ 2 ^ 64 ≤ (signedPart text).natAbs

/-- What follows the loop; `none` stands for a read of a pointer that has not been assigned. -/
def convert (s : ParseState) : Option Parsed :=
  if s.err > 0 then some { ret := 1 }
  else s.svaddr.bind fun svaddr =>
    let virt := strtoull svaddr
    if invalid virt svaddr then some { ret := 1, virt := some virt }
    else s.spid.bind fun spid =>
      let pid := CInt.toInt (strtoull spid)
      some { ret := if invalid pid spid then 1 else 0, virt := some virt, pid := some pid }

/-- Zero is returned for two values whose numbers are stored, and 1 if one is missing. -/
structure Parsed.Correct (r : Parsed) (subopts : List Char) : Prop where
  numbers : r.ret = 0 → ∃ svaddr spid,
    lastValue vaddrToken (items subopts) = some svaddr ∧
    lastValue pidToken (items subopts) = some spid ∧
    r.virt.map (fun virt => (virt : Int)) = some (signedPart svaddr) ∧
    r.pid = some (signedPart spid)
  missing : lastValue vaddrToken (items subopts) = none ∨
    lastValue pidToken (items subopts) = none → r.ret = 1

def Known (item : Word) : Prop :=
  (name item = vaddrToken ∨ name item = pidToken) ∧ value item ≠ none

instance (item : Word) : Decidable (Known item) := inferInstanceAs (Decidable (_ ∧ _))

/-- The texts that are turned down as an address and as a process. -/
def BadVaddr (text : Word) : Prop :=
  signedPart text = 0 ∧ text.head? ≠ some '0' ∨ 2 ^ 64 ≤ (signedPart text).natAbs

def BadPid (text : Word) : Prop :=
  signedPart text % 2 ^ 32 = 0 ∧ text.head? ≠ some '0' ∨ 2 ^ 64 ≤ (signedPart text).natAbs

/-- The strings that are handled as they should be. -/
def Handled (subopts : List Char) : Prop :=
  (∃ item ∈ items subopts, ¬ Known item) ∨
    ∃ svaddr, lastValue vaddrToken (items subopts) = some svaddr ∧
      (BadVaddr svaddr ∨ ∃ spid, lastValue pidToken (items subopts) = some spid ∧
        (BadPid spid ∨ 0 ≤ signedPart svaddr ∧ CInt.IsInt (signedPart spid)))

theorem vaddrToken_ne_pidToken : vaddrToken ≠ pidToken := by decide

theorem subopt_known {s : ParseState} (hne : s.p ≠ []) (herr : s.err = 0)
    (hknown : Known (item s.p)) :
    subopt s = .inl { s with
      p := next s.p
      svaddr := (if name (item s.p) = vaddrToken then value (item s.p) else none).or s.svaddr
      spid := (if name (item s.p) = pidToken then value (item s.p) else none).or s.spid } := by
  obtain ⟨hname, hvalue⟩ := hknown
  obtain ⟨v, hv⟩ := Option.ne_none_iff_exists'.mp hvalue
  rw [subopt, if_pos ⟨hne, herr⟩]
  rcases hname with hname | hname
  · have hindex : [vaddrToken, pidToken].idxOf? (name (item s.p)) = some 0 := by
      rw [hname]
      decide
    simp only [getsubopt, hindex, hv]
    rw [hname, if_pos rfl, if_neg vaddrToken_ne_pidToken]
    rfl
  · have hindex : [vaddrToken, pidToken].idxOf? (name (item s.p)) = some 1 := by
      rw [hname]
      decide
    simp only [getsubopt, hindex, hv]
    rw [hname, if_pos rfl, if_neg vaddrToken_ne_pidToken.symm]
    rfl

theorem subopt_unknown {s : ParseState} (hne : s.p ≠ []) (herr : s.err = 0)
    (hbad : ¬ Known (item s.p)) :
    subopt s = .inl { s with p := next s.p, err := s.err + 1 } := by
  rw [subopt, if_pos ⟨hne, herr⟩]
  cases hindex : [vaddrToken, pidToken].idxOf? (name (item s.p)) with
  | none => simp only [getsubopt, hindex]
  | some index =>
    have hname : name (item s.p) ∈ [vaddrToken, pidToken] :=
      List.isSome_idxOf?.mp (by rw [hindex]; rfl)
    have hvalue : value (item s.p) = none := by
      by_contra hvalue
      exact hbad ⟨List.mem_pair.mp hname, hvalue⟩
    simp only [getsubopt, hindex, hvalue]

theorem subopt_ends (s : ParseState) (herr : s.err = 0) :
    ∃ t, Ends subopt s t ∧ (t.err ≠ 0 ↔ ∃ item ∈ items s.p, ¬ Known item) ∧
      (t.err = 0 → t.svaddr = (lastValue vaddrToken (items s.p)).or s.svaddr ∧
        t.spid = (lastValue pidToken (items s.p)).or s.spid) := by
  induction hn : s.p.length using Nat.strongRecOn generalizing s with
  | ind n ih =>
    by_cases hne : s.p = []
    · refine ⟨s, .stop (if_neg fun h => h.1 hne), ?_, fun _ => ?_⟩
      · rw [hne, items_nil]
        exact iff_of_false (not_not_intro herr) (by simp)
      · rw [hne, items_nil]
        exact ⟨rfl, rfl⟩
    · rw [items_next hne, lastValue_cons, lastValue_cons, Option.or_assoc, Option.or_assoc]
      simp only [List.exists_mem_cons_iff]
      by_cases hknown : Known (item s.p)
      · obtain ⟨t, hends, hiff, hlast⟩ := ih _ (hn ▸ length_next_lt hne) { s with
          p := next s.p
          svaddr := (if name (item s.p) = vaddrToken then value (item s.p) else none).or s.svaddr
          spid := (if name (item s.p) = pidToken then value (item s.p) else none).or s.spid }
          herr rfl
        refine ⟨t, .next (subopt_known hne herr hknown) hends, ?_, hlast⟩
        rw [hiff]
        exact (or_iff_right (not_not_intro hknown)).symm
      · refine ⟨_, .next (subopt_unknown hne herr hknown) (.stop (if_neg ?_)), ?_, ?_⟩
        · exact fun h => Nat.succ_ne_zero _ h.2
        · exact iff_of_true (Nat.succ_ne_zero _) (Or.inl hknown)
        · exact fun h => absurd h (Nat.succ_ne_zero _)

theorem strtoull_eq {text : Word} (h : (signedPart text).natAbs < 2 ^ 64) :
    (strtoull text : Int) = signedPart text % 2 ^ 64 := by
  simp only [strtoull, if_neg h.not_ge]
  omega

theorem invalid_vaddr_iff (text : Word) : invalid (strtoull text) text = true ↔ BadVaddr text := by
  rw [invalid, decide_eq_true_iff, BadVaddr]
  by_cases hrange : 2 ^ 64 ≤ (signedPart text).natAbs
  · exact iff_of_true (Or.inr hrange) (Or.inr hrange)
  · have hread := strtoull_eq (Nat.lt_of_not_ge hrange)
    rw [or_iff_left hrange, or_iff_left hrange, hread]
    exact and_congr_left fun _ => ⟨fun h => by omega, fun h => by omega⟩

theorem invalid_pid_iff (text : Word) :
    invalid (CInt.toInt (strtoull text)) text = true ↔ BadPid text := by
  rw [invalid, decide_eq_true_iff, BadPid]
  by_cases hrange : 2 ^ 64 ≤ (signedPart text).natAbs
  · exact iff_of_true (Or.inr hrange) (Or.inr hrange)
  · have hread := strtoull_eq (Nat.lt_of_not_ge hrange)
    rw [or_iff_left hrange, or_iff_left hrange, hread, CInt.toInt, Int.bmod_def]
    refine and_congr_left fun _ => ?_
    split <;> omega

theorem vaddr_number_iff {text : Word} (h : ¬ BadVaddr text) :
    (strtoull text : Int) = signedPart text ↔ 0 ≤ signedPart text := by
  have hrange := Nat.lt_of_not_ge fun hrange => h (Or.inr hrange)
  rw [strtoull_eq hrange]
  omega

theorem pid_number_iff {text : Word} (h : ¬ BadPid text) :
    CInt.toInt (strtoull text) = signedPart text ↔ CInt.IsInt (signedPart text) := by
  have hrange := Nat.lt_of_not_ge fun hrange => h (Or.inr hrange)
  rw [strtoull_eq hrange, CInt.toInt, Int.bmod_def, CInt.IsInt]
  split <;> omega

theorem Parsed.correct_of_ret {r : Parsed} {subopts : List Char} (h : r.ret = 1) :
    r.Correct subopts :=
  ⟨fun hzero => absurd (h.symm.trans hzero) (by decide), fun _ => h⟩

theorem convert_correct_iff {s : ParseState} {subopts : List Char} (herr : s.err = 0)
    (hvaddr : s.svaddr = lastValue vaddrToken (items subopts))
    (hpid : s.spid = lastValue pidToken (items subopts)) :
    (∃ r, convert s = some r ∧ r.Correct subopts) ↔
      ∃ svaddr, lastValue vaddrToken (items subopts) = some svaddr ∧
        (BadVaddr svaddr ∨ ∃ spid, lastValue pidToken (items subopts) = some spid ∧
          (BadPid spid ∨ 0 ≤ signedPart svaddr ∧ CInt.IsInt (signedPart spid))) := by
  rw [convert, if_neg (by omega), hvaddr, hpid]
  cases hv : lastValue vaddrToken (items subopts) with
  | none => simp
  | some v =>
    simp only [Option.bind_some, Option.some.injEq, exists_eq_left']
    by_cases hbad : BadVaddr v
    · rw [if_pos ((invalid_vaddr_iff v).mpr hbad)]
      exact iff_of_true ⟨_, rfl, Parsed.correct_of_ret rfl⟩ (Or.inl hbad)
    · rw [if_neg (mt (invalid_vaddr_iff v).mp hbad), or_iff_right hbad]
      cases hw : lastValue pidToken (items subopts) with
      | none => simp
      | some w =>
        simp only [Option.bind_some, Option.some.injEq, exists_eq_left']
        by_cases hbadPid : BadPid w
        · rw [if_pos ((invalid_pid_iff w).mpr hbadPid)]
          exact iff_of_true (Parsed.correct_of_ret rfl) (Or.inl hbadPid)
        · rw [if_neg (mt (invalid_pid_iff w).mp hbadPid), or_iff_right hbadPid,
            ← vaddr_number_iff hbad, ← pid_number_iff hbadPid]
          constructor
          · intro h
            obtain ⟨v', w', hv', hw', hvirt, hpid'⟩ := h.numbers rfl
            obtain rfl := Option.some.inj (hv.symm.trans hv')
            obtain rfl := Option.some.inj (hw.symm.trans hw')
            exact ⟨Option.some.inj hvirt, Option.some.inj hpid'⟩
          · rintro ⟨hvirt, hpid'⟩
            refine ⟨fun _ => ⟨v, w, hv, hw, congrArg some hvirt, congrArg some hpid'⟩, ?_⟩
            rintro (hnone | hnone)
            · exact absurd (hv.symm.trans hnone) (Option.some_ne_none v)
            · exact absurd (hw.symm.trans hnone) (Option.some_ne_none w)

/-- For every string the loop ends; no pointer is read before it is assigned, and what is
returned and stored is right, iff the string is handled. -/
theorem parse_handled_iff (subopts : List Char) :
    (∃ s r, Ends subopt { p := subopts } s ∧ convert s = some r ∧ r.Correct subopts) ↔
      Handled subopts := by
  obtain ⟨t, hends, hiff, hlast⟩ := subopt_ends { p := subopts } rfl
  have hthis : (∃ s r, Ends subopt { p := subopts } s ∧ convert s = some r ∧ r.Correct subopts) ↔
      ∃ r, convert t = some r ∧ r.Correct subopts := by
    constructor
    · rintro ⟨s, r, hs, hr⟩
      exact ⟨r, (hends.unique hs) ▸ hr⟩
    · rintro ⟨r, hr⟩
      exact ⟨t, r, hends, hr⟩
  rw [hthis, Handled, ← hiff]
  by_cases herr : t.err = 0
  · obtain ⟨hvaddr, hpid⟩ := hlast herr
    rw [Option.or_none] at hvaddr hpid
    rw [or_iff_right (not_not_intro herr)]
    exact convert_correct_iff herr hvaddr hpid
  · refine iff_of_true ⟨{ ret := 1 }, ?_, Parsed.correct_of_ret rfl⟩ (Or.inl herr)
    rw [convert, if_pos (Nat.pos_of_ne_zero herr)]

example : (loop subopt 3 { p := "pid=7,vaddr=0x1000".toList }).bind convert =
    some ⟨0, some 4096, some 7⟩ := by decide +kernel

/-- The address alone: the other pointer is read without a value. -/
theorem parse_vaddr_alone :
    ¬ ∃ s r, Ends subopt { p := "vaddr=0x1000".toList } s ∧ convert s = some r ∧
      r.Correct "vaddr=0x1000".toList := by
  rintro ⟨s, r, hs, hr, -⟩
  have hend : Ends subopt { p := "vaddr=0x1000".toList }
      { p := [], svaddr := some "0x1000".toList } :=
    ⟨2, by decide +kernel⟩
  have hundefined : convert { p := [], svaddr := some "0x1000".toList } = none := by
    decide +kernel
  rw [← hend.unique hs, hundefined] at hr
  cases hr

end MceTest.Victim

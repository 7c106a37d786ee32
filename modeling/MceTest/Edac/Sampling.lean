import MceTest.Library.Transition
import Mathlib.Data.Finset.Card
import Mathlib.Data.List.Range
import Mathlib.Logic.Function.Basic
import Mathlib.Order.Interval.Finset.Nat

/-! `save_edac_info` of `edac.sh`: messages are drawn at random until enough have been saved. -/

namespace MceTest.Edac

open MceTest.Library.Transition

def numTosave : Nat := 20

/-- Four bytes, as `get_random` reads them. -/
abbrev Urandom := Fin (2 ^ 32)

abbrev Message := List Char

/-- The variables of the loop, and the messages in the reference file. -/
structure State where
  lineRec : Nat → Option Nat
  saved : Nat
  ref : List Message

def randLine (urandom : Urandom) (lines : Nat) : Nat :=
  if urandom.val % lines = 0 then 1 else urandom.val % lines

/-- 1 if one of the first lines recorded is the one given. -/
def checkSameValue (lineRec : Nat → Option Nat) (saved randLine : Nat) : Nat :=
  if (List.range saved).any fun i => lineRec i == some randLine then 1 else 0

/-- `sed -n "${rand_line}p"` -/
def printLine (randLine : Nat) (tmpfile : List Message) : List Message :=
  (tmpfile[randLine - 1]?).toList

def State.save (s : State) (tmpfile : List Message) (randLine : Nat) : State where
  lineRec := Function.update s.lineRec s.saved (some randLine)
  saved := s.saved + 1
  ref := s.ref ++ printLine randLine tmpfile

/-- One turn of the loop, with the number that is drawn. -/
def step (tmpfile : List Message) (s : State) (urandom : Urandom) : Option State :=
  if s.saved < numTosave then
    let r := randLine urandom tmpfile.length
    if s.saved = 0 then some (s.save tmpfile r)
    else if checkSameValue s.lineRec s.saved r = 1 then some s
    else some (s.save tmpfile r)
  else none

def init : State := ⟨fun _ => none, 0, []⟩

def State.recorded (s : State) : List Nat := (List.range s.saved).filterMap s.lineRec

/-- The loop records different lines of the file, and it can always go on and finish. -/
structure Samples (tmpfile : List Message) : Prop where
  distinct : ∀ s, Reaches (step tmpfile) (fun _ _ => True) init s →
    s.recorded.Nodup ∧ ∀ r ∈ s.recorded, 1 ≤ r ∧ r ≤ tmpfile.length
  progress : ∀ s, Reaches (step tmpfile) (fun _ _ => True) init s → s.saved < numTosave →
    ∃ urandom t, step tmpfile s urandom = some t ∧ t.saved = s.saved + 1
  finishes : ∀ s, Reaches (step tmpfile) (fun _ _ => True) init s →
    ∃ t, Reaches (step tmpfile) (fun _ _ => True) s t ∧ (∀ urandom, step tmpfile t urandom = none) ∧
      t.recorded.length = min numTosave tmpfile.length ∧
      t.ref = t.recorded.flatMap fun r => printLine r tmpfile

def lastDrawn (lines : Nat) : Nat := max 1 (lines - 1)

theorem randLine_bounds {lines : Nat} (h : 0 < lines) (urandom : Urandom) :
    1 ≤ randLine urandom lines ∧ randLine urandom lines ≤ lastDrawn lines := by
  have hlt := Nat.mod_lt urandom.val h
  rw [randLine, lastDrawn]
  split_ifs <;> omega

theorem randLine_self {lines v : Nat} (hv : 0 < v) (hlt : v < lines) (h : v < 2 ^ 32) :
    randLine ⟨v, h⟩ lines = v := by
  rw [randLine, Nat.mod_eq_of_lt hlt, if_neg hv.ne']

variable {tmpfile : List Message} {s t : State}

structure Inv (tmpfile : List Message) (s : State) : Prop where
  length : s.recorded.length = s.saved
  nodup : s.recorded.Nodup
  bounds : ∀ r ∈ s.recorded, 1 ≤ r ∧ r ≤ lastDrawn tmpfile.length
  ref : s.ref = s.recorded.flatMap fun r => printLine r tmpfile
  saved_le : s.saved ≤ numTosave

theorem saved_save (s : State) (tmpfile : List Message) (r : Nat) :
    (s.save tmpfile r).saved = s.saved + 1 := rfl

theorem recorded_save (s : State) (tmpfile : List Message) (r : Nat) :
    (s.save tmpfile r).recorded = s.recorded ++ [r] := by
  have hsame : ∀ i ∈ List.range s.saved,
      Function.update s.lineRec s.saved (some r) i = s.lineRec i := by
    intro i hi
    exact Function.update_of_ne (List.mem_range.mp hi).ne ..
  rw [State.recorded, State.save, List.range_succ, List.filterMap_append,
    List.filterMap_congr hsame]
  simp [State.recorded]

theorem checkSameValue_eq_one_iff {lineRec : Nat → Option Nat} {saved r : Nat} :
    checkSameValue lineRec saved r = 1 ↔ r ∈ (List.range saved).filterMap lineRec := by
  rw [checkSameValue, List.mem_filterMap]
  simp [List.any_eq_true]

theorem step_eq (s : State) (urandom : Urandom) :
    step tmpfile s urandom =
      if s.saved < numTosave then
        if randLine urandom tmpfile.length ∈ s.recorded then some s
        else some (s.save tmpfile (randLine urandom tmpfile.length))
      else none := by
  simp only [step, checkSameValue_eq_one_iff]
  by_cases hzero : s.saved = 0
  · have hnone : s.recorded = [] := by rw [State.recorded, hzero]; rfl
    rw [if_pos hzero, hnone, if_neg List.not_mem_nil]
  · rw [if_neg hzero]
    rfl

theorem step_inv (hlines : 0 < tmpfile.length) {urandom : Urandom} (hinv : Inv tmpfile s)
    (h : step tmpfile s urandom = some t) : Inv tmpfile t := by
  rw [step_eq] at h
  split_ifs at h with hlt hsame
  · cases h
    exact hinv
  · cases h
    have hrecorded := recorded_save s tmpfile (randLine urandom tmpfile.length)
    refine ⟨?_, ?_, ?_, ?_, hlt⟩
    · rw [hrecorded, List.length_append, hinv.length]
      rfl
    · rw [hrecorded]
      exact List.nodup_append.mpr ⟨hinv.nodup, List.nodup_singleton _, fun r hr r' hr' heq =>
        hsame (List.mem_singleton.mp hr' ▸ heq ▸ hr)⟩
    · rw [hrecorded]
      intro r hr
      rcases List.mem_append.mp hr with hr | hr
      · exact hinv.bounds r hr
      · rw [List.mem_singleton.mp hr]
        exact randLine_bounds hlines urandom
    · rw [hrecorded, List.flatMap_append, ← hinv.ref]
      simp [State.save]

theorem reaches_inv (hlines : 0 < tmpfile.length)
    (h : Reaches (step tmpfile) (fun _ _ => True) init s) : Inv tmpfile s := by
  induction h with
  | refl => exact ⟨rfl, List.nodup_nil, nofun, rfl, Nat.zero_le _⟩
  | step _ _ hstep ih => exact step_inv hlines ih hstep

theorem Inv.saved_le_lastDrawn (hinv : Inv tmpfile s) : s.saved ≤ lastDrawn tmpfile.length := by
  have hsubset : s.recorded.toFinset ⊆ Finset.Icc 1 (lastDrawn tmpfile.length) := by
    intro r hr
    exact Finset.mem_Icc.mpr (hinv.bounds r (List.mem_toFinset.mp hr))
  have hcard := Finset.card_le_card hsubset
  rw [List.toFinset_card_of_nodup hinv.nodup, hinv.length, Nat.card_Icc] at hcard
  omega

theorem Inv.exists_draw (hinv : Inv tmpfile s) (hlines : numTosave < tmpfile.length)
    (hlt : s.saved < numTosave) :
    ∃ urandom, step tmpfile s urandom =
      some (s.save tmpfile (randLine urandom tmpfile.length)) := by
  have hcard : s.recorded.toFinset.card < (Finset.Icc 1 numTosave).card := by
    rw [List.toFinset_card_of_nodup hinv.nodup, hinv.length, Nat.card_Icc]
    exact hlt
  obtain ⟨v, hv, hnew⟩ := Finset.exists_mem_notMem_of_card_lt_card hcard
  obtain ⟨hpos, hle⟩ := Finset.mem_Icc.mp hv
  have hsmall : v < 2 ^ 32 := hle.trans_lt (by decide)
  refine ⟨⟨v, hsmall⟩, ?_⟩
  have hdraw : randLine ⟨v, hsmall⟩ tmpfile.length = v :=
    randLine_self hpos (hle.trans_lt hlines) hsmall
  rw [step_eq, if_pos hlt, if_neg]
  rwa [hdraw, ← List.mem_toFinset]

theorem exists_finish (hlines : numTosave < tmpfile.length) (hinv : Inv tmpfile s) :
    ∃ t, Reaches (step tmpfile) (fun _ _ => True) s t ∧ t.saved = numTosave := by
  induction hn : numTosave - s.saved generalizing s with
  | zero =>
    have := hinv.saved_le
    exact ⟨s, .refl, by omega⟩
  | succ n ih =>
    obtain ⟨urandom, hstep⟩ := hinv.exists_draw hlines (by omega)
    have hnext := step_inv (Nat.zero_lt_of_lt hlines) hinv hstep
    have hsaved := saved_save s tmpfile (randLine urandom tmpfile.length)
    obtain ⟨t, hreaches, hsaved⟩ := ih hnext (by omega)
    exact ⟨t, (Reaches.refl.step trivial hstep).trans hreaches, hsaved⟩

theorem step_eq_none_iff {urandom : Urandom} :
    step tmpfile s urandom = none ↔ ¬ s.saved < numTosave := by
  rw [step_eq]
  split_ifs with hlt <;> simp [hlt]

/-- The sampling works exactly when the file has more lines than are wanted. -/
theorem samples_iff (hlines : 0 < tmpfile.length) :
    Samples tmpfile ↔ numTosave < tmpfile.length := by
  have hwanted : numTosave = 20 := rfl
  constructor
  · intro hsamples
    obtain ⟨t, hreaches, hend, -, -⟩ := hsamples.finishes init .refl
    have hinv := reaches_inv hlines hreaches
    have hdrawn := hinv.saved_le_lastDrawn
    have hsaved := step_eq_none_iff.mp (hend 0)
    rw [lastDrawn] at hdrawn
    omega
  · intro hmore
    refine ⟨fun s hs => ?_, fun s hs hlt => ?_, fun s hs => ?_⟩
    · have hinv := reaches_inv hlines hs
      refine ⟨hinv.nodup, fun r hr => ?_⟩
      have hbounds := hinv.bounds r hr
      rw [lastDrawn] at hbounds
      omega
    · obtain ⟨urandom, hstep⟩ := (reaches_inv hlines hs).exists_draw hmore hlt
      exact ⟨urandom, _, hstep, rfl⟩
    · obtain ⟨t, hreaches, hsaved⟩ := exists_finish hmore (reaches_inv hlines hs)
      have hinv := reaches_inv hlines (hs.trans hreaches)
      refine ⟨t, hreaches, fun urandom => step_eq_none_iff.mpr (by omega), ?_, hinv.ref⟩
      rw [hinv.length]
      omega

theorem samples_twenty_one :
    Samples (List.replicate 21 "EDAC MC0: 1 CE on unknown memory (page:0x1)".toList) :=
  (samples_iff (by decide)).mpr (by decide)

/-- One message is saved, and then every draw is rejected. -/
theorem sampling_stuck : ∃ s,
    Reaches (step ["EDAC MC0: 1 CE on unknown memory (page:0x1)".toList]) (fun _ _ => True) init s ∧
    s.saved < numTosave ∧
    ∀ urandom, step ["EDAC MC0: 1 CE on unknown memory (page:0x1)".toList] s urandom = some s := by
  generalize "EDAC MC0: 1 CE on unknown memory (page:0x1)".toList = message
  have hlt : (init.save [message] 1).saved < numTosave := (by decide : 1 < 20)
  refine ⟨init.save [message] 1, Reaches.refl.step (a := 0) trivial rfl, hlt, fun urandom => ?_⟩
  have hdraw : randLine urandom [message].length = 1 := by
    rw [randLine]
    simp [Nat.mod_one]
  rw [step_eq, hdraw, if_pos hlt, if_pos]
  simp [recorded_save]

end MceTest.Edac

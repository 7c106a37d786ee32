import MceTest.Library.Budget
import Mathlib.Data.List.Infix

/-! `victim -k 0`: waiting for the trigger file before the page is used. -/

namespace MceTest.Victim

open MceTest.Library

/-- What a poll meets: no file, or the contents of one. -/
abbrev Polls := Nat → Option (List Char)

def triggerFlag : List Char := "trigger".toList

/-- `sizeof(trigger_buf)` -/
def bufSize : Nat := 16

def zeros : List Char := List.replicate bufSize '\x00'

/-- The buffer after a `read`: what is behind the bytes read stays. -/
def readInto (buf content : List Char) : List Char :=
  content.take bufSize ++ buf.drop (content.take bufSize).length

def cString (memory : List Char) : List Char := memory.takeWhile (· ≠ '\x00')

/-- One turn of the loop; `behind` is the memory behind the buffer. -/
def poll (behind : List Char) (polls : Polls) (k : Nat) (buf : List Char) : List Char × Bool :=
  match polls k with
  | none => (buf, false)
  | some content =>
    let buf := readInto buf content
    (buf, content ≠ [] ∧ triggerFlag <:+: cString (buf ++ behind))

inductive Unlink
  | removed | missing | failed
  deriving DecidableEq

/-- How the program ends: with 1 and a message, in one of the loops that use the page, or with
0. -/
inductive Outcome
  | unremovable
  | timeout
  | execute
  | read
  | done
  deriving DecidableEq

def trigger (iflag dflag : Bool) : Outcome :=
  if iflag then .execute else if dflag then .read else .done

def kickZero (behind : List Char) (polls : Polls) (unlink : Unlink) (count : Nat)
    (iflag dflag : Bool) : Outcome :=
  if unlink = .failed then .unremovable
  else if Budget.spend (poll behind polls) count 0 zeros = 0 then .timeout
  else trigger iflag dflag

/-- The `k`-th poll meets a file with the flag. -/
def HasFlag (polls : Polls) (k : Nat) : Prop :=
  ∃ content, polls k = some content ∧ triggerFlag <:+: content

/-- The error is triggered if the flag is there within the budget, and otherwise the time is
over. -/
def Waits (polls : Polls) (count : Nat) (iflag dflag : Bool) (outcome : Outcome) : Prop :=
  ((∃ k < count, HasFlag polls k) → outcome = trigger iflag dflag) ∧
    ((¬ ∃ k < count, HasFlag polls k) → outcome = .timeout)

/-- What the files of the polls before have left in the buffer when the `k`-th poll begins. -/
def bufferAt (polls : Polls) : Nat → List Char
  | 0 => zeros
  | k + 1 =>
    match polls k with
    | none => bufferAt polls k
    | some content => readInto (bufferAt polls k) content

/-- The `k`-th poll meets a file, and with it `strstr` finds the flag: in the buffer with what is
left there of the files before, and in the memory behind it up to a null byte. -/
def Sees (behind : List Char) (polls : Polls) (k : Nat) : Prop :=
  ∃ content, polls k = some content ∧ content ≠ [] ∧
    triggerFlag <:+: cString (readInto (bufferAt polls k) content ++ behind)

/-- The last poll of the budget is the first to find the flag. -/
def SeesLast (behind : List Char) (polls : Polls) (count : Nat) : Prop :=
  ∃ k, k + 1 = count ∧ Sees behind polls k ∧ ∀ j < k, ¬ Sees behind polls j

/-- A file has the flag, and the buffer test succeeds before the last poll or in none; or no file
has it, and the test succeeds in the last poll for the first time. -/
def WaitsRight (behind : List Char) (polls : Polls) (count : Nat) : Prop :=
  (∃ k < count, HasFlag polls k) ∧
      ((∃ k, k + 1 < count ∧ Sees behind polls k) ∨ ∀ k < count, ¬ Sees behind polls k) ∨
    (¬ ∃ k < count, HasFlag polls k) ∧ SeesLast behind polls count

variable {behind : List Char} {polls : Polls}

theorem trigger_ne_timeout (iflag dflag : Bool) : trigger iflag dflag ≠ .timeout := by
  cases iflag <;> cases dflag <;> decide

theorem stateAt_poll (behind : List Char) (polls : Polls) (k : Nat) :
    Budget.stateAt (poll behind polls) zeros k = bufferAt polls k := by
  induction k with
  | zero => rfl
  | succ k ih =>
    rw [Budget.stateAt, ih, poll, bufferAt]
    split <;> rfl

theorem succeeds_iff {k : Nat} :
    Budget.succeeds (poll behind polls) zeros k = true ↔ Sees behind polls k := by
  rw [Budget.succeeds, stateAt_poll, poll, Sees]
  cases hpoll : polls k with
  | none => simp
  | some content => simp

theorem sees_of_flag {k : Nat} {content : List Char} (hcontent : polls k = some content)
    (hplain : '\x00' ∉ content.take bufSize) (hflag : triggerFlag <:+: content.take bufSize) :
    Sees behind polls k := by
  have hne : content ≠ [] := by
    rintro rfl
    exact absurd (List.infix_nil.mp hflag) (by decide)
  refine ⟨content, hcontent, hne, hflag.trans ?_⟩
  rw [readInto, List.append_assoc, cString, List.takeWhile_append_of_pos]
  · exact (List.prefix_append ..).isInfix
  · exact fun c hc => decide_eq_true fun h => hplain (h ▸ hc)

theorem drop_bufferAt {k len : Nat} (hlen : len ≤ bufSize)
    (hpolls : ∀ j < k, ∀ content, polls j = some content → content.length ≤ len) :
    (bufferAt polls k).drop len = List.replicate (bufSize - len) '\x00' := by
  induction k with
  | zero => exact List.drop_replicate
  | succ k ih =>
    have hbefore := ih fun j hj => hpolls j (Nat.lt_succ_of_lt hj)
    rw [bufferAt]
    split
    · exact hbefore
    · rename_i content hcontent
      have hle := hpolls k (Nat.lt_succ_self k) content hcontent
      have htake : content.take bufSize = content := List.take_of_length_le (hle.trans hlen)
      rw [readInto, htake, List.drop_append, List.drop_eq_nil_of_le hle, List.nil_append,
        List.drop_drop, Nat.add_sub_cancel' hle]
      exact hbefore

/-- A file that leaves room for a null byte, and is not shorter than those before it, is seen if
and only if it has the flag. -/
theorem sees_iff_hasFlag {k : Nat} {content : List Char} (hcontent : polls k = some content)
    (hplain : '\x00' ∉ content) (hroom : content.length < bufSize)
    (hlongest : ∀ j < k, ∀ earlier, polls j = some earlier → earlier.length ≤ content.length) :
    Sees behind polls k ↔ HasFlag polls k := by
  have htake : content.take bufSize = content := List.take_of_length_le hroom.le
  have hpos : bufSize - content.length = bufSize - content.length - 1 + 1 := by omega
  have hstring : cString (readInto (bufferAt polls k) content ++ behind) = content := by
    rw [readInto, htake, drop_bufferAt hroom.le hlongest, hpos, List.replicate_succ,
      List.append_assoc, cString, List.takeWhile_append_of_pos]
    · exact List.append_nil content
    · exact fun c hc => decide_eq_true fun h => hplain (h ▸ hc)
  rw [Sees, HasFlag]
  refine exists_congr fun content' => and_congr_right fun hpoll => ?_
  obtain rfl : content = content' := Option.some.inj (hcontent.symm.trans hpoll)
  rw [hstring, and_iff_right_of_imp]
  rintro hflag rfl
  exact absurd (List.infix_nil.mp hflag) (by decide)

-- the rest of one file behind the start of the next one is taken for the flag
example : Sees [] (fun k => if k = 0 then some ".rigger".toList else some "t".toList) 1 :=
  ⟨"t".toList, rfl, by decide, by decide⟩

theorem kickZero_eq {unlink : Unlink} (hunlink : unlink ≠ .failed) (behind : List Char)
    (polls : Polls) (count : Nat) (iflag dflag : Bool) :
    SeesLast behind polls count ∧ kickZero behind polls unlink count iflag dflag = .timeout ∨
      ¬ SeesLast behind polls count ∧
        kickZero behind polls unlink count iflag dflag = trigger iflag dflag := by
  have hlast : Budget.spend (poll behind polls) count 0 zeros = 0 ↔
      SeesLast behind polls count := by
    rw [Budget.spend_eq_zero_iff, SeesLast]
    simp only [Bool.eq_false_iff, ne_eq, succeeds_iff]
  rw [kickZero, if_neg hunlink]
  by_cases h : SeesLast behind polls count
  · exact .inl ⟨h, if_pos (hlast.mpr h)⟩
  · exact .inr ⟨h, if_neg (mt hlast.mp h)⟩

theorem not_seesLast_iff (behind : List Char) (polls : Polls) (count : Nat) :
    ¬ SeesLast behind polls count ↔
      (∃ k, k + 1 < count ∧ Sees behind polls k) ∨ ∀ k < count, ¬ Sees behind polls k := by
  constructor
  · intro hnot
    by_cases hsees : ∃ k < count, Sees behind polls k
    · simp only [← succeeds_iff] at hsees
      obtain ⟨k, hk, hsucceeds, hfirst⟩ := Budget.exists_first hsees
      refine .inl ⟨k, ?_, succeeds_iff.mp hsucceeds⟩
      by_contra hlast
      exact hnot ⟨k, by omega, succeeds_iff.mp hsucceeds,
        fun j hj => mt succeeds_iff.mpr (Bool.eq_false_iff.mp (hfirst j hj))⟩
    · exact .inr fun k hk hsucceeds => hsees ⟨k, hk, hsucceeds⟩
  · rintro (⟨k, hk, hsees⟩ | hnone) ⟨k', hlast, hsees', hfirst⟩
    · exact hfirst k (by omega) hsees
    · exact hnone k' (by omega) hsees'

/-- The wait ends as it should under this condition on the files, and the buffer test on them. -/
theorem kickZero_waits_iff {unlink : Unlink} (hunlink : unlink ≠ .failed) (behind : List Char)
    (polls : Polls) (count : Nat) (iflag dflag : Bool) :
    Waits polls count iflag dflag (kickZero behind polls unlink count iflag dflag) ↔
      WaitsRight behind polls count := by
  have hne := trigger_ne_timeout iflag dflag
  rw [WaitsRight, ← not_seesLast_iff, Waits]
  rcases kickZero_eq hunlink behind polls count iflag dflag with ⟨hlast, heq⟩ | ⟨hlast, heq⟩
  · rw [heq]
    simp [hlast, hne.symm]
  · rw [heq]
    simp [hlast, hne]

/-- Where the buffer test tells which files have the flag, it has to be there before the last
poll. -/
theorem kickZero_waits_iff_hasFlag {unlink : Unlink} (hunlink : unlink ≠ .failed)
    {count : Nat} (hsees : ∀ k < count, Sees behind polls k ↔ HasFlag polls k)
    (iflag dflag : Bool) :
    Waits polls count iflag dflag (kickZero behind polls unlink count iflag dflag) ↔
      ∃ k, k + 1 < count ∧ HasFlag polls k := by
  rw [kickZero_waits_iff hunlink, WaitsRight]
  constructor
  · rintro (⟨⟨k, hk, hflag⟩, ⟨k', hk', hsees'⟩ | hnone⟩ | ⟨hnone, k, hlast, hsees', -⟩)
    · exact ⟨k', hk', (hsees k' (by omega)).mp hsees'⟩
    · exact absurd ((hsees k hk).mpr hflag) (hnone k hk)
    · exact absurd ⟨k, by omega, (hsees k (by omega)).mp hsees'⟩ hnone
  · rintro ⟨k, hk, hflag⟩
    exact .inl ⟨⟨k, by omega, hflag⟩, .inl ⟨k, hk, (hsees k (by omega)).mpr hflag⟩⟩

/-- The flag is there in the third of a hundred polls. -/
theorem kickZero_waits_third :
    Waits (fun k => if k = 2 then some triggerFlag else none) 100 true false
      (kickZero [] (fun k => if k = 2 then some triggerFlag else none) .missing 100 true false) :=
  (kickZero_waits_iff (by decide) [] _ 100 true false).mpr
    (.inl ⟨⟨2, by decide, triggerFlag, rfl, List.infix_rfl⟩,
      .inl ⟨2, by decide, sees_of_flag rfl (by decide) (by decide)⟩⟩)

/-- Without a trigger file the page is executed. -/
theorem kickZero_without_trigger : ¬ Waits (fun _ => none) 100 true false
    (kickZero [] (fun _ => none) .missing 100 true false) := by
  intro h
  have hnone : ¬ ∃ k < 100, HasFlag (fun _ => none) k := by
    rintro ⟨k, -, content, hk, -⟩
    cases hk
  have houtcome : kickZero [] (fun _ => none) .missing 100 true false = .execute := by
    decide +kernel
  rw [houtcome] at h
  cases h.2 hnone

end MceTest.Victim

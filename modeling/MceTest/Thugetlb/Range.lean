import MceTest.Thugetlb.Runs

/-! Where `thugetlb` poisons, and which huge page it avoids. -/

namespace MceTest.Thugetlb

open MceTest.Library.CInt

/-- The bytes of the mapping outside the huge page around the page of `-o`. -/
def Run.Outside (o : Options) (r : Run) (a : Nat) : Prop :=
  a < r.asked ∧ (a / hpageSize : Nat) ≠ o.offset * pageSize / hpageSize

/-- The page of `-o` is inside the mapping. With `-a`, each of the two calls after the injection
accesses all bytes but the huge page around it, and no mismatch is found. -/
def Run.Sound (o : Options) (r : Run) : Prop :=
  (∀ p, r.poisoned = some p →
    p = o.offset * pageSize ∧ 0 ≤ p ∧ p + pageSize ≤ r.asked) ∧
  (o.avoidTouch = true → ∀ accesses, r.last = some accesses →
    (∀ a, a ∈ accesses.written.touched ↔ r.Outside o a) ∧
      (∀ a, a ∈ accesses.reading.memory.touched ↔ r.Outside o a) ∧
      accesses.reading.mismatches = [] ∧ accesses.reading.ret = 0)

/-- Every run with `-x` and these values of `-m` and `-o` is sound. -/
def Sound (memory offset : Int) (grants : Mapping → Nat → Bool) : Prop :=
  ∀ o sys, o.memory = memory → o.offset = offset → o.inject = true → sys.grants = grants →
    ∃ r, main o sys = some r ∧ r.Sound o

/-- The size in huge pages is right, and the page one of them. -/
def Proper (f c : Int) : Prop :=
  1 ≤ f ∧ f ≤ 1023 ∧ c < 512 * f ∨
    -- the negative sizes of which the allocator gets one huge page, and the loops none
    f < 0 ∧ f % 2048 = 1 ∧ c < 512

/-- The range check is defined; and it rejects the values, or the system does not grant the size,
or the values are proper. -/
def InRange (memory offset : Int) (grants : Mapping → Nat → Bool) : Prop :=
  IsInt (toInt offset * pageSize) ∧
    (outOfRange (toInt memory) (toInt offset) = some true ∨
      (∀ mapping, grants mapping (asked (toInt memory)) = false) ∨
      toInt offset = offset ∧ Proper (toInt memory) (toInt offset))

variable {o : Options} {sys : System} {r : Run} {f c : Int}

theorem outOfRange_eq (hc : IsInt (c * pageSize)) :
    outOfRange f c = some (decide (toULong (c * pageSize) > toULong (f * hpageSize))) := by
  rw [outOfRange, intMul, if_pos hc, Option.map_some]

theorem outOfRange_none (hc : ¬ IsInt (c * pageSize)) : outOfRange f c = none := by
  rw [outOfRange, intMul, if_neg hc, Option.map_none]

theorem outOfRange_neg_one (f : Int) : outOfRange f (-1) = some true := by
  rw [outOfRange_eq (by decide), Option.some.injEq, decide_eq_true_eq]
  simp only [toULong, pageSize, hpageSize]
  omega

theorem toULong_bytes (f : Int) :
    (toULong (f * hpageSize) : Int) % 2 ^ 32 = f % 2048 * 2097152 := by
  simp only [toULong, hpageSize]
  omega

/-- What is asked for depends on the size modulo 2048. -/
theorem asked_small (hf : f % 2048 < 1024) : (asked f : Int) = f % 2048 * 2097152 := by
  have hbytes := toULong_bytes f
  rw [asked, toInt_of_small (by omega), hbytes, toULong_nonneg (by omega) (by omega)]

theorem asked_large (hf : 1024 ≤ f % 2048) : 2 ^ 63 ≤ asked f := by
  have hbytes := toULong_bytes f
  have hneg : (toULong (f % 2048 * 2097152 - 2 ^ 32) : Int) =
      2 ^ 64 + (f % 2048 * 2097152 - 2 ^ 32) := toULong_neg (by omega) (by omega)
  rw [asked, toInt_of_large (by omega), hbytes]
  omega

def smooth (grants : Mapping → Nat → Bool) : System where
  access := true
  grants
  contents := fun _ => 0
  semaphore := true
  waitForCow := true
  madvise := fun _ _ => true
  advised := id
  putSemaphore := true
  wait := true
  removeSemaphore := true
  free := fun _ => true
  signalBefore := none
  signalAfter := none

theorem smooth_smooth (grants : Mapping → Nat → Bool) : (smooth grants).Smooth :=
  ⟨rfl, rfl, rfl, fun _ _ => rfl, rfl, rfl, rfl⟩

theorem visited_iff (hproper : Proper f c) (hc : 0 ≤ c) (a : Nat) :
    Visited hpageSize f.toNat (some (c.tdiv 512 * hpageSize)) a ↔
      a < asked f ∧ (a / hpageSize : Nat) ≠ c * pageSize / hpageSize := by
  have hdiv : c.tdiv 512 = c / 512 := Int.tdiv_eq_ediv_of_nonneg hc
  rw [Visited, hdiv, Ne, Option.some.injEq]
  simp only [hpageSize, pageSize]
  rcases hproper with ⟨hone, hmax, hlt⟩ | ⟨hneg, hmod, hlt⟩
  · have hasked := asked_small (f := f) (by omega)
    omega
  · have hasked := asked_small (f := f) (by omega)
    omega

theorem Proper.fileSize_le (hproper : Proper f c) : f ≤ 1024 := by
  rcases hproper with ⟨-, hmax, -⟩ | ⟨hneg, -, -⟩ <;> omega

theorem asked_proper (hproper : Proper f c) (hc : 0 ≤ c) :
    c * pageSize + pageSize ≤ asked f := by
  simp only [pageSize]
  rcases hproper with ⟨hone, hmax, hlt⟩ | ⟨hneg, hmod, hlt⟩
  · have hasked := asked_small (f := f) (by omega)
    omega
  · have hasked := asked_small (f := f) (by omega)
    omega

theorem Ran.sound (hran : Ran o r) (hoffset : o.corruptPage = o.offset) (hc : 0 ≤ o.offset)
    (hproper : Proper o.fileSize o.corruptPage) : r.Sound o := by
  rw [hoffset] at hproper
  constructor
  · intro p hp
    obtain ⟨rfl, hasked⟩ := hran.poisoned p hp
    rw [hasked, hoffset]
    exact ⟨rfl, Int.mul_nonneg hc (by decide), asked_proper hproper hc⟩
  · intro havoid accesses haccesses
    obtain ⟨hasked, bytes, haccessed⟩ := hran.last accesses haccesses
    have hexpected : o.expectedAddr = some (o.offset.tdiv 512 * hpageSize) := by
      rw [Options.expectedAddr, if_pos ⟨by rw [hoffset]; omega, havoid⟩, hoffset]
    have houtside (a : Nat) :
        Visited hpageSize o.fileSize.toNat o.expectedAddr a ↔ r.Outside o a := by
      rw [hexpected, visited_iff hproper hc, Run.Outside, hasked]
    exact ⟨fun a => (haccessed.writes a).trans (houtside a),
      fun a => (haccessed.reads a).trans (houtside a), haccessed.intact.mismatches,
      haccessed.intact.ret⟩

theorem proper_of_visited (hf : f ≤ 1024) (hc : 0 ≤ c) (hint : IsInt (c * pageSize))
    (hinside : c * pageSize + pageSize ≤ asked f)
    (hvisited : ∀ a : Nat, Visited hpageSize f.toNat (some (c.tdiv 512 * hpageSize)) a ↔
      a < asked f ∧ (a / hpageSize : Nat) ≠ c * pageSize / hpageSize) : Proper f c := by
  rw [IsInt] at hint
  simp only [hpageSize, pageSize] at hint hinside hvisited
  by_cases hpos : 0 < f
  · have hlt : f < 1024 := by
      rcases Int.lt_or_eq_of_le hf with hlt | rfl
      · exact hlt
      · -- the mapping would be larger than what the loops visit
        have hasked := asked_large (f := 1024) (by decide)
        obtain ⟨hlow, -⟩ := (hvisited (2 ^ 31)).mpr ⟨by omega, by omega⟩
        exact absurd hlow (by decide)
    have hasked := asked_small (f := f) (by omega)
    exact .inl ⟨by omega, by omega, by omega⟩
  · have hnone (a : Nat) : ¬ (a < asked f ∧
        (a / (2 * 1024 * 1024) : Nat) ≠ c * (4096 : Nat) / (2 * 1024 * 1024 : Nat)) := by
      rw [← hvisited a, Int.toNat_of_nonpos (Int.not_lt.mp hpos)]
      exact visited_zero a
    have hfirst := hnone 0
    have hsecond := hnone (2 * 1024 * 1024)
    by_cases hsmall : f % 2048 < 1024
    · have hasked := asked_small hsmall
      refine .inr ⟨?_, ?_, ?_⟩ <;> omega
    · have hasked := asked_large (Int.not_lt.mp hsmall)
      omega

theorem proper_of_sound (hsound : r.Sound o) (hr : main o sys = some r) (hsmooth : sys.Smooth)
    (hinject : o.inject = true) (havoid : o.avoidTouch = true) (hoffset : 0 ≤ o.offset)
    (hint : IsInt (o.corruptPage * pageSize))
    (hcheck : outOfRange o.fileSize o.corruptPage = some false)
    (hgrants : sys.grants o.mapping (asked o.fileSize) = true) :
    o.corruptPage = o.offset ∧ Proper o.fileSize o.corruptPage := by
  have htouch : o.corruptPage ≠ -1 := by
    intro hneg
    rw [hneg, outOfRange_neg_one] at hcheck
    cases hcheck
  rw [main_eq sys hinject hcheck htouch, if_pos ⟨hsmooth.access, hgrants⟩] at hr
  have hf : o.fileSize ≤ 1024 := by
    by_contra hlarge
    rw [mapped_undefined (Int.not_le.mp hlarge) fun _ => hsmooth.semaphore] at hr
    cases hr
  obtain ⟨r', hr', hran, hdone⟩ := mapped_ran sys hf hint rfl
  obtain rfl : r' = r := Option.some.inj (hr'.symm.trans hr)
  obtain ⟨accesses, haccesses⟩ := Option.ne_none_iff_exists'.mp (hdone hsmooth).1
  obtain ⟨p, hp⟩ := Option.ne_none_iff_exists'.mp ((hdone hsmooth).2 hinject htouch)
  obtain ⟨rfl, hasked⟩ := hran.poisoned p hp
  obtain ⟨hplace, hlow, hinside⟩ := hsound.1 _ hp
  have hsame : o.corruptPage = o.offset :=
    Int.eq_of_mul_eq_mul_right (by decide) hplace
  have hexpected : o.expectedAddr = some (o.corruptPage.tdiv 512 * hpageSize) :=
    if_pos ⟨htouch, havoid⟩
  refine ⟨hsame, proper_of_visited hf (hsame ▸ hoffset) hint (hasked ▸ hinside) fun a => ?_⟩
  obtain ⟨-, bytes, haccessed⟩ := hran.last accesses haccesses
  rw [← hexpected, ← haccessed.reads, ← hasked, hsame]
  exact (hsound.2 havoid accesses haccesses).2.1 a

/-- The options with the values, with `-x` and `-a`. -/
def avoiding (memory offset : Int) (mapping : Mapping) : Options where
  memory
  offset
  inject := true
  offline := false
  mapping
  avoidTouch := true
  fork := false

theorem exists_avoiding {memory offset : Int} {grants : Mapping → Nat → Bool}
    (h : Sound memory offset grants) (mapping : Mapping) :
    ∃ o r, main o (smooth grants) = some r ∧ r.Sound o ∧ o.inject = true ∧ o.avoidTouch = true ∧
      o.offset = offset ∧ o.fileSize = toInt memory ∧ o.corruptPage = toInt offset ∧
      o.mapping = mapping := by
  obtain ⟨r, hr, hsound⟩ := h (avoiding memory offset mapping) (smooth grants) rfl rfl rfl rfl
  exact ⟨avoiding memory offset mapping, r, hr, hsound, rfl, rfl, rfl, rfl, rfl, rfl⟩

theorem inRange_of_sound {memory offset : Int} {grants : Mapping → Nat → Bool}
    (hoffset : 0 ≤ offset) (h : Sound memory offset grants) : InRange memory offset grants := by
  have hint : IsInt (toInt offset * pageSize) := by
    by_contra hint
    obtain ⟨o, r, hr, -, hinject, -, -, -, hc, -⟩ := exists_avoiding h .anonymous
    rw [← hc] at hint
    rw [main_unchecked hinject (outOfRange_none hint)] at hr
    cases hr
  refine ⟨hint, ?_⟩
  by_cases hreject : outOfRange (toInt memory) (toInt offset) = some true
  · exact .inl hreject
  · by_cases hgrants : ∀ mapping, grants mapping (asked (toInt memory)) = false
    · exact .inr (.inl hgrants)
    · simp only [not_forall, Bool.not_eq_false] at hgrants
      obtain ⟨mapping, hgrants⟩ := hgrants
      have hcheck : outOfRange (toInt memory) (toInt offset) = some false := by
        rw [outOfRange_eq hint] at hreject ⊢
        exact congrArg some (Bool.eq_false_iff.mpr fun h => hreject (congrArg some h))
      obtain ⟨o, r, hr, hsound, hinject, havoid, ho, hf, hc, hmapping⟩ :=
        exists_avoiding h mapping
      rw [← hmapping, ← hf] at hgrants
      rw [← hc] at hint
      rw [← hf, ← hc] at hcheck
      have hproper := proper_of_sound hsound hr (smooth_smooth grants) hinject havoid
        (ho ▸ hoffset) hint hcheck hgrants
      rw [hf, hc, ho] at hproper
      exact .inr (.inr hproper)

/-- The values are sound if and only if they are in range. -/
theorem sound_iff {memory offset : Int} (grants : Mapping → Nat → Bool) (hoffset : 0 ≤ offset) :
    Sound memory offset grants ↔ InRange memory offset grants := by
  refine ⟨inRange_of_sound hoffset, ?_⟩
  rintro ⟨hint, hcases⟩ o sys rfl rfl hinject rfl
  change IsInt (o.corruptPage * pageSize) at hint
  have hfailed (h : main o sys = some .failed) : ∃ r, main o sys = some r ∧ r.Sound o :=
    ⟨_, h, fun p hp => (by cases hp), fun _ accesses haccesses => (by cases haccesses)⟩
  cases hcheck : outOfRange o.fileSize o.corruptPage with
  | none =>
    rw [outOfRange_eq hint] at hcheck
    cases hcheck
  | some reject =>
    cases reject with
    | true => exact hfailed (main_rejected hinject hcheck)
    | false =>
      have htouch : o.corruptPage ≠ -1 := by
        intro hneg
        rw [hneg, outOfRange_neg_one] at hcheck
        cases hcheck
      have hmain := main_eq sys hinject hcheck htouch
      by_cases hmapped : sys.access = true ∧ sys.grants o.mapping (asked o.fileSize) = true
      · rw [if_pos hmapped] at hmain
        rcases hcases with hreject | hrefused | ⟨hsame, hproper⟩
        · cases hcheck.symm.trans hreject
        · cases (hrefused o.mapping).symm.trans hmapped.2
        · obtain ⟨r, hr, hran, -⟩ := mapped_ran sys hproper.fileSize_le hint rfl
          exact ⟨r, hmain.trans hr, hran.sound hsame hoffset hproper⟩
      · rw [if_neg hmapped] at hmain
        exact hfailed hmain

/-- A system with two free huge pages. -/
def twoFree (_ : Mapping) (size : Nat) : Bool := 0 < size ∧ size ≤ 2 * hpageSize

theorem sound_two : (0 : Int) ≤ 600 ∧ Sound 2 600 twoFree :=
  ⟨by decide, (sound_iff twoFree (by decide)).mpr
    ⟨by decide, .inr (.inr ⟨by decide, .inl ⟨by decide, by decide, by decide⟩⟩)⟩⟩

/-- The first page behind the mapping is not rejected. -/
theorem boundary_accepted : ¬ Sound 1 512 twoFree := by
  intro h
  obtain ⟨-, hreject | hrefused | ⟨-, hproper⟩⟩ := inRange_of_sound (by decide) h
  · revert hreject
    decide
  · have hgranted : twoFree .anonymous (asked (toInt 1)) = true := by decide
    rw [hrefused] at hgranted
    cases hgranted
  · have hfar : ¬ toInt 512 < 512 * toInt 1 := by decide
    have hone : ¬ toInt 1 < 0 := by decide
    rcases hproper with ⟨-, -, hlt⟩ | ⟨hneg, -, -⟩
    · exact hfar hlt
    · exact hone hneg

end MceTest.Thugetlb

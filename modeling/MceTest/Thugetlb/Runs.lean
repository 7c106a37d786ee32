import MceTest.Thugetlb.Model

/-! Which runs of `main` are defined, and what they access. -/

namespace MceTest.Thugetlb

open MceTest.Library.CInt

variable {o : Options} {sys : System} {f c : Int}

theorem pages_fit (hf : f ≤ 1024) : (f.toNat - 1) * hpageSize < 2 ^ 31 := by
  have hpages : f.toNat - 1 ≤ 1023 := by omega
  exact Nat.lt_of_le_of_lt (Nat.mul_le_mul_right hpageSize hpages) (by decide)

/-- Each of the two calls has accessed just the pages that are not skipped, and these are found
as they have been written. -/
structure Accessed (f : Int) (avoid : Option Int) (bytes : Nat → UInt8) (accesses : Accesses) :
    Prop where
  written : Written hpageSize (Visited hpageSize f.toNat avoid) { bytes, touched := [] }
    accesses.written
  intact : Intact (Visited hpageSize f.toNat avoid) { accesses.written with touched := [] }
    accesses.reading

theorem Accessed.writes {avoid : Option Int} {bytes : Nat → UInt8} {accesses : Accesses}
    (h : Accessed f avoid bytes accesses) (a : Nat) :
    a ∈ accesses.written.touched ↔ Visited hpageSize f.toNat avoid a := by
  rw [h.written.touched]
  exact or_iff_right List.not_mem_nil

theorem Accessed.reads {avoid : Option Int} {bytes : Nat → UInt8} {accesses : Accesses}
    (h : Accessed f avoid bytes accesses) (a : Nat) :
    a ∈ accesses.reading.memory.touched ↔ Visited hpageSize f.toNat avoid a := by
  rw [h.intact.touched]
  exact or_iff_right List.not_mem_nil

theorem writeRead_accessed (hf : f ≤ 1024) (avoid : Option Int) (bytes : Nat → UInt8) :
    ∃ accesses, writeRead f.toNat avoid bytes = some accesses ∧
      Accessed f avoid bytes accesses := by
  have hpos : 0 < hpageSize := by decide
  obtain ⟨m, hm, hwritten⟩ : ∃ m,
      writeHugepage hpageSize f.toNat avoid { bytes, touched := [] } = some m ∧
      Written hpageSize (Visited hpageSize f.toNat avoid) { bytes, touched := [] } m :=
    writeHugepage_written hpos (pages_fit hf) _
  obtain ⟨reading, hreading, hintact⟩ := readHugepage_intact
    (m := { m with touched := [] }) hpos (pages_fit hf) hwritten.inside
  refine ⟨⟨m, reading⟩, ?_, hwritten, hintact⟩
  rw [writeRead, hm, Option.bind_some, hreading, Option.map_some]

/-- What a run has poisoned and what it has accessed after that. -/
structure Ran (o : Options) (r : Run) : Prop where
  poisoned : ∀ p, r.poisoned = some p →
    p = o.corruptPage * pageSize ∧ r.asked = asked o.fileSize
  last : ∀ accesses, r.last = some accesses →
    r.asked = asked o.fileSize ∧
      ∃ bytes, Accessed o.fileSize o.expectedAddr bytes accesses

/-- All calls on the way succeed and no signal comes. -/
structure System.Smooth (sys : System) : Prop where
  access : sys.access = true
  semaphore : sys.semaphore = true
  waitForCow : sys.waitForCow = true
  madvise : ∀ code p, sys.madvise code p = true
  putSemaphore : sys.putSemaphore = true
  signalBefore : sys.signalBefore = none
  signalAfter : sys.signalAfter = none

theorem afterInjection_ran (hf : o.fileSize ≤ 1024) (r₀ : Run)
    (hasked : r₀.asked = asked o.fileSize) (hlast : r₀.last = none)
    (hpoisoned : ∀ p, r₀.poisoned = some p → p = o.corruptPage * pageSize)
    (bytes : Nat → UInt8) :
    ∃ r, afterInjection o sys r₀ bytes = some r ∧ Ran o r ∧
      r.poisoned = r₀.poisoned ∧ (sys.Smooth → r.last ≠ none) := by
  cases hsignal : sys.signalAfter with
  | some signal =>
    refine ⟨{ r₀ with status := .killed signal }, by rw [afterInjection, hsignal], ⟨?_, ?_⟩, rfl,
      fun hsmooth => ?_⟩
    · exact fun p hp => ⟨hpoisoned p hp, hasked⟩
    · intro accesses haccesses
      exact absurd (hlast.symm.trans haccesses) (Option.some_ne_none accesses).symm
    · rw [hsmooth.signalAfter] at hsignal
      cases hsignal
  | none =>
    obtain ⟨accesses, haccesses, haccessed⟩ := writeRead_accessed hf o.expectedAddr bytes
    refine ⟨{ r₀ with
        last := some accesses
        status := if o.fork ∧ ¬ (sys.wait ∧ sys.removeSemaphore) then .exited 1
          else cleanout o sys }, ?_, ⟨?_, ?_⟩, rfl, fun _ => Option.some_ne_none accesses⟩
    · rw [afterInjection, hsignal]
      dsimp only
      rw [haccesses, Option.map_some]
    · exact fun p hp => ⟨hpoisoned p hp, hasked⟩
    · rintro _ ⟨⟩
      exact ⟨hasked, bytes, haccessed⟩

theorem inject_ran (hf : o.fileSize ≤ 1024) (hc : IsInt (o.corruptPage * pageSize)) (r₀ : Run)
    (hasked : r₀.asked = asked o.fileSize) (hlast : r₀.last = none) (hnone : r₀.poisoned = none)
    (bytes : Nat → UInt8) :
    ∃ r, inject o sys r₀ bytes = some r ∧ Ran o r ∧
      (sys.Smooth → r.last ≠ none ∧
        (o.inject = true → o.corruptPage ≠ -1 → r.poisoned ≠ none)) := by
  have hstop {r : Run} (hr : r.asked = asked o.fileSize) (hlast : r.last = none)
      (hp : ∀ p, r.poisoned = some p → p = o.corruptPage * pageSize) : Ran o r := by
    refine ⟨fun p h => ⟨hp p h, hr⟩, fun reading h => ?_⟩
    rw [hlast] at h
    cases h
  have hstart : ∀ p, r₀.poisoned = some p → p = o.corruptPage * pageSize := by
    rw [hnone]
    rintro _ ⟨⟩
  rw [inject]
  split
  · rename_i hinject
    have hmul : intMul o.corruptPage pageSize = some (o.corruptPage * pageSize) := if_pos hc
    have hplace : ∀ p, some (o.corruptPage * pageSize) = some p →
        p = o.corruptPage * pageSize := fun p h => (Option.some.inj h).symm
    rw [hmul, Option.bind_some]
    dsimp only
    split
    · rename_i hmadvise
      exact ⟨_, rfl, hstop hasked hlast hplace,
        fun hsmooth => absurd (hsmooth.madvise _ _) hmadvise⟩
    · split
      · rename_i hput
        exact ⟨_, rfl, hstop hasked hlast hplace,
          fun hsmooth => absurd hsmooth.putSemaphore hput.2⟩
      · let r₁ : Run := { r₀ with
          poisoned := some (o.corruptPage * pageSize)
          injection := some (bytes, sys.advised bytes) }
        obtain ⟨r, hr, hran, hpoisoned, hsmooth⟩ :=
          afterInjection_ran hf r₁ hasked hlast hplace (sys.advised bytes)
        refine ⟨r, hr, hran, fun h => ⟨hsmooth h, fun _ _ => ?_⟩⟩
        rw [hpoisoned]
        exact Option.some_ne_none _
  · rename_i hinject
    split
    · rename_i hput
      exact ⟨_, rfl, hstop hasked hlast hstart,
        fun hsmooth => absurd hsmooth.putSemaphore hput.2⟩
    · obtain ⟨r, hr, hran, -, hsmooth⟩ := afterInjection_ran hf r₀ hasked hlast hstart bytes
      exact ⟨r, hr, hran, fun h => ⟨hsmooth h, fun hi hc => absurd ⟨hi, hc⟩ hinject⟩⟩

theorem mapped_ran (sys : System) (hf : o.fileSize ≤ 1024) (hc : IsInt (o.corruptPage * pageSize))
    {size : Nat} (hsize : size = asked o.fileSize) :
    ∃ r, mapped o sys size = some r ∧ Ran o r ∧
      (sys.Smooth → r.last ≠ none ∧
        (o.inject = true → o.corruptPage ≠ -1 → r.poisoned ≠ none)) := by
  have hstop (status : Status) :
      Ran o { Run.failed with asked := size, status } :=
    ⟨fun p h => (by cases h), fun reading h => (by cases h)⟩
  obtain ⟨accesses, haccesses, -⟩ := writeRead_accessed hf none sys.contents
  rw [mapped]
  dsimp only
  split
  · rename_i hsemaphore
    exact ⟨_, rfl, hstop _, fun hsmooth => absurd hsmooth.semaphore hsemaphore.2⟩
  · rw [haccesses, Option.bind_some]
    split
    · rename_i signal hsignal
      refine ⟨_, rfl, hstop _, fun hsmooth => ?_⟩
      rw [hsmooth.signalBefore] at hsignal
      cases hsignal
    · split
      · rename_i hwait
        exact ⟨_, rfl, hstop _, fun hsmooth => absurd hsmooth.waitForCow hwait.2⟩
      · let r₀ : Run := { Run.failed with asked := size, status := cleanout o sys }
        exact inject_ran hf hc r₀ hsize rfl rfl accesses.reading.memory.bytes

theorem main_unchecked (hinject : o.inject = true)
    (hcheck : outOfRange o.fileSize o.corruptPage = none) : main o sys = none := by
  rw [main, if_pos hinject, hcheck]

theorem main_rejected (hinject : o.inject = true)
    (hcheck : outOfRange o.fileSize o.corruptPage = some true) : main o sys = some .failed := by
  rw [main, if_pos hinject, hcheck]

theorem main_eq (sys : System) (hinject : o.inject = true)
    (hcheck : outOfRange o.fileSize o.corruptPage = some false) (htouch : o.corruptPage ≠ -1) :
    main o sys = if sys.access = true ∧ sys.grants o.mapping (asked o.fileSize) = true then
      mapped o sys (asked o.fileSize) else some .failed := by
  rw [main, if_pos hinject, hcheck]
  dsimp only
  rw [if_neg fun h => htouch h.2]
  cases sys.access <;> cases sys.grants o.mapping (asked o.fileSize) <;> simp

theorem mapped_undefined (hf : 1025 ≤ o.fileSize)
    (hsemaphore : o.fork = true → sys.semaphore = true) (size : Nat) :
    mapped o sys size = none := by
  have hpages : 1024 < o.fileSize.toNat := by omega
  have hover : 2 ^ 31 ≤ 1024 * hpageSize := by decide
  rw [mapped]
  dsimp only
  rw [if_neg fun h => h.2 (hsemaphore h.1), writeRead, writeHugepage_undefined hpages hover,
    Option.bind_none, Option.bind_none]

end MceTest.Thugetlb

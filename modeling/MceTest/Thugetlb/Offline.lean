import MceTest.Thugetlb.Runs

/-! What the exit status says about the bytes that a soft offline has lost. -/

namespace MceTest.Thugetlb

open MceTest.Library.CInt

variable {o : Options} {sys : System} {r r₀ : Run} {bytes : Nat → UInt8}

/-- After `madvise` a byte that `write_hugepage` had stored is another one, outside the huge page
that is avoided. -/
def Run.Lost (o : Options) (r : Run) : Prop :=
  ∃ before after, r.injection = some (before, after) ∧
    ∃ a, Visited hpageSize o.fileSize.toNat o.expectedAddr a ∧ after a ≠ before a

/-- The run comes to its `madvise`. -/
structure System.Injects (o : Options) (sys : System) : Prop where
  inject : o.inject = true
  place : o.corruptPage ≠ -1
  inRange : outOfRange o.fileSize o.corruptPage = some false
  access : sys.access = true
  grants : sys.grants o.mapping (asked o.fileSize) = true
  semaphore : o.fork = true → sys.semaphore = true
  signalBefore : sys.signalBefore = none
  waitForCow : o.fork = true → sys.waitForCow = true

/-- The bytes when the first `write_hugepage` is over. -/
def filled (f : Int) (contents : Nat → UInt8) (a : Nat) : UInt8 :=
  if Visited hpageSize f.toNat none a then patternAt hpageSize a else contents a

/-- The `madvise` of the run changes a byte outside the huge page that is avoided. -/
def System.Loses (o : Options) (sys : System) : Prop :=
  sys.Injects o ∧ ∃ a, Visited hpageSize o.fileSize.toNat o.expectedAddr a ∧
    sys.advised (filled o.fileSize sys.contents) a ≠ filled o.fileSize sys.contents a

/-- A signal ends the process after the injection, or one of the calls fails on the way to its
end whose result reaches the exit status. -/
def System.FailsLater (o : Options) (sys : System) : Prop :=
  sys.free o.mapping = false ∨
    sys.madvise o.madviseCode (o.corruptPage * pageSize) = true ∧
      (o.fork = true → sys.putSemaphore = true) ∧
      (sys.signalAfter ≠ none ∨
        o.fork = true ∧ (sys.wait = false ∨ sys.removeSemaphore = false))

theorem cleanout_zero_iff : cleanout o sys = .exited 0 ↔ sys.free o.mapping = true := by
  rw [cleanout]
  cases sys.free o.mapping <;> decide

theorem afterInjection_injection (h : afterInjection o sys r₀ bytes = some r) :
    r.injection = r₀.injection := by
  rw [afterInjection] at h
  split at h
  · cases h
    rfl
  · obtain ⟨accesses, -, rfl⟩ := Option.map_eq_some_iff.mp h
    rfl

theorem afterInjection_status (h : afterInjection o sys r₀ bytes = some r) :
    r.status = .exited 0 ↔ sys.free o.mapping = true ∧ sys.signalAfter = none ∧
      ¬ (o.fork = true ∧ (sys.wait = false ∨ sys.removeSemaphore = false)) := by
  have hfails : ¬ (sys.wait = true ∧ sys.removeSemaphore = true) ↔
      sys.wait = false ∨ sys.removeSemaphore = false := by
    rw [not_and_or, Bool.not_eq_true, Bool.not_eq_true]
  rw [afterInjection] at h
  split at h
  · rename_i signal hsignal
    cases h
    simp [hsignal]
  · rename_i hsignal
    obtain ⟨accesses, -, rfl⟩ := Option.map_eq_some_iff.mp h
    dsimp only
    split
    · rename_i hwait
      exact iff_of_false (by decide) fun h => h.2.2 (hwait.imp_right hfails.mp)
    · rename_i hwait
      rw [cleanout_zero_iff]
      exact ⟨fun hfree => ⟨hfree, hsignal, fun h => hwait (h.imp_right hfails.mpr)⟩,
        fun h => h.1⟩

theorem not_and_not {p q : Prop} (h : ¬ (p ∧ ¬ q)) (hp : p) : q :=
  not_not.mp fun hq => h ⟨hp, hq⟩

theorem inject_place (h : inject o sys r₀ bytes = some r) (h₀ : r₀.injection = none)
    (hr : r.injection ≠ none) : o.inject = true ∧ o.corruptPage ≠ -1 := by
  rw [inject] at h
  split at h
  · assumption
  · split at h
    · cases h
      exact absurd h₀ hr
    · rw [afterInjection_injection h] at hr
      exact absurd h₀ hr

theorem inject_injection (h : inject o sys r₀ bytes = some r) (hinject : o.inject = true)
    (hplace : o.corruptPage ≠ -1) : r.injection = some (bytes, sys.advised bytes) := by
  rw [inject, if_pos ⟨hinject, hplace⟩] at h
  obtain ⟨p, -, h⟩ := Option.bind_eq_some_iff.mp h
  dsimp only at h
  split at h
  · cases h
    rfl
  · split at h
    · cases h
      rfl
    · exact afterInjection_injection h

theorem mapped_injected {size : Nat} (h : mapped o sys size = some r) (hr : r.injection ≠ none) :
    (o.fork = true → sys.semaphore = true) ∧ sys.signalBefore = none ∧
      (o.fork = true → sys.waitForCow = true) ∧
      ∃ r₀ bytes, inject o sys r₀ bytes = some r ∧ r₀.injection = none ∧
        r₀.status = cleanout o sys := by
  rw [mapped] at h
  dsimp only at h
  split at h
  · cases h
    exact absurd rfl hr
  · rename_i hsemaphore
    obtain ⟨accesses, -, h⟩ := Option.bind_eq_some_iff.mp h
    split at h
    · cases h
      exact absurd rfl hr
    · rename_i hsignal
      split at h
      · cases h
        exact absurd rfl hr
      · rename_i hcow
        exact ⟨not_and_not hsemaphore, hsignal, not_and_not hcow, _, _, h, rfl, rfl⟩

theorem main_injected (h : main o sys = some r) (hr : r.injection ≠ none) :
    sys.Injects o ∧ ∃ r₀ bytes, inject o sys r₀ bytes = some r ∧ r₀.injection = none ∧
      r₀.status = cleanout o sys := by
  have hfailed : some Run.failed ≠ some r := by
    rintro ⟨⟩
    exact hr rfl
  rw [main] at h
  split at h
  · cases h
  · exact absurd h hfailed
  · rename_i hrange
    split at h
    · exact absurd h hfailed
    · split at h
      · exact absurd h hfailed
      · rename_i haccess
        dsimp only at h
        split at h
        · exact absurd h hfailed
        · rename_i hgrants
          obtain ⟨hsemaphore, hsignal, hcow, r₀, bytes, hinject, h₀, hstatus⟩ :=
            mapped_injected h hr
          obtain ⟨hx, hplace⟩ := inject_place hinject h₀ hr
          rw [if_pos hx] at hrange
          exact ⟨⟨hx, hplace, hrange, not_not.mp haccess, not_not.mp hgrants, hsemaphore, hsignal,
            hcow⟩, r₀, bytes, hinject, h₀, hstatus⟩

theorem Accessed.filled {f : Int} {contents : Nat → UInt8} {accesses : Accesses}
    (h : Accessed f none contents accesses) :
    accesses.reading.memory.bytes = filled f contents := by
  funext a
  rw [h.intact.bytes, Thugetlb.filled]
  split
  · rename_i ha
    exact h.written.inside a ha
  · rename_i ha
    exact h.written.outside a ha

theorem injects_injection (h : main o sys = some r) (hi : sys.Injects o) :
    r.injection = some (filled o.fileSize sys.contents,
      sys.advised (filled o.fileSize sys.contents)) := by
  rw [main_eq sys hi.inject hi.inRange hi.place, if_pos ⟨hi.access, hi.grants⟩] at h
  have hf : o.fileSize ≤ 1024 := by
    by_contra hlarge
    rw [mapped_undefined (Int.not_le.mp hlarge) hi.semaphore] at h
    cases h
  obtain ⟨accesses, haccesses, haccessed⟩ := writeRead_accessed hf none sys.contents
  rw [mapped] at h
  dsimp only at h
  rw [if_neg fun hfork => hfork.2 (hi.semaphore hfork.1), haccesses, Option.bind_some,
    hi.signalBefore] at h
  dsimp only at h
  rw [if_neg fun hfork => hfork.2 (hi.waitForCow hfork.1)] at h
  rw [inject_injection h hi.inject hi.place, haccessed.filled]

/-- Whether bytes are lost depends on what `madvise` does to the filled pages. -/
theorem lost_iff (h : main o sys = some r) : r.Lost o ↔ sys.Loses o := by
  constructor
  · rintro ⟨before, after, hinjection, hlost⟩
    have hi := (main_injected h (by rw [hinjection]; exact Option.some_ne_none _)).1
    rw [injects_injection h hi] at hinjection
    obtain ⟨rfl, rfl⟩ := Prod.mk.inj (Option.some.inj hinjection)
    exact ⟨hi, hlost⟩
  · rintro ⟨hi, hlost⟩
    exact ⟨_, _, injects_injection h hi, hlost⟩

theorem inject_status (h : inject o sys r₀ bytes = some r) (h₀ : r₀.injection = none)
    (hstatus : r₀.status = cleanout o sys) (hr : r.injection ≠ none) :
    r.status = .exited 0 ↔ ¬ sys.FailsLater o := by
  have hfree : r₀.status = .exited 0 ↔ sys.free o.mapping = true := by
    rw [hstatus, cleanout_zero_iff]
  rw [inject, if_pos (inject_place h h₀ hr)] at h
  obtain ⟨p, hp, h⟩ := Option.bind_eq_some_iff.mp h
  obtain rfl : o.corruptPage * pageSize = p := by
    rw [intMul] at hp
    split at hp
    · exact Option.some.inj hp
    · cases hp
  dsimp only at h
  split at h
  · rename_i hmadvise
    cases h
    rw [hfree, System.FailsLater, or_iff_left fun h => hmadvise h.1, Bool.not_eq_false]
  · rename_i hmadvise
    split at h
    · rename_i hput
      cases h
      rw [hfree, System.FailsLater, or_iff_left fun h => hput.2 (h.2.1 hput.1),
        Bool.not_eq_false]
    · rename_i hput
      rw [afterInjection_status h, System.FailsLater, and_iff_right (not_not.mp hmadvise),
        and_iff_right (not_and_not hput), not_or, Bool.not_eq_false, not_or, not_not]

theorem status_of_loses (h : main o sys = some r) (hloses : sys.Loses o) :
    r.status ≠ .exited 0 ↔ sys.FailsLater o := by
  have hr : r.injection ≠ none := by
    rw [injects_injection h hloses.1]
    exact Option.some_ne_none _
  obtain ⟨-, r₀, bytes, hinject, h₀, hcleanout⟩ := main_injected h hr
  exact not_iff_comm.mp (inject_status hinject h₀ hcleanout hr).symm

/-- A run has a non-zero status when bytes are lost if and only if its `madvise` loses no byte,
or the run fails later for another reason. -/
theorem detects_iff (h : main o sys = some r) :
    (r.Lost o → r.status ≠ .exited 0) ↔ ¬ sys.Loses o ∨ sys.FailsLater o := by
  rw [lost_iff h, ← imp_iff_not_or]
  exact forall_congr' (status_of_loses h)

/-- `thugetlb -x -O -A -o 0`. -/
def offlineFirst : Options where
  memory := 1
  offset := 0
  inject := true
  offline := true
  mapping := .anonymous
  avoidTouch := false
  fork := false

/-- The soft offline leaves a page of zeros, and all other calls succeed, the last one if `freed`
is set. -/
def forgetful (freed : Bool) : System where
  access := true
  grants := fun _ _ => true
  contents := fun _ => 0
  semaphore := true
  waitForCow := true
  madvise := fun _ _ => true
  advised := fun _ _ => 0
  putSemaphore := true
  wait := true
  removeSemaphore := true
  free := fun _ => freed
  signalBefore := none
  signalAfter := none

theorem forgetful_run (freed : Bool) : ∃ r, main offlineFirst (forgetful freed) = some r ∧
    r.Lost offlineFirst ∧ r.status = .exited (if freed then 0 else 2) := by
  have hpages : offlineFirst.fileSize ≤ 1024 := by decide
  have hexpected : offlineFirst.expectedAddr = none := by decide
  have hmul : intMul offlineFirst.corruptPage pageSize = some 0 := by decide
  obtain ⟨accesses, haccesses, haccessed⟩ :=
    writeRead_accessed hpages none (forgetful freed).contents
  obtain ⟨accesses', haccesses', -⟩ := writeRead_accessed hpages none fun _ => 0
  have hfirst : Visited hpageSize offlineFirst.fileSize.toNat none 0 :=
    ⟨by decide, (Option.some_ne_none _).symm⟩
  refine ⟨⟨asked offlineFirst.fileSize, some 0,
    some (accesses.reading.memory.bytes, fun _ => 0), some accesses',
    .exited (if freed then 0 else 2)⟩, ?_, ?_, rfl⟩
  · have hfork (b : Bool) : ¬ (offlineFirst.fork = true ∧ ¬ b = true) := fun h => by cases h.1
    have hbefore : (forgetful freed).signalBefore = none := rfl
    have hafter : (forgetful freed).signalAfter = none := rfl
    have hmadvise : ¬ ¬ (forgetful freed).madvise offlineFirst.madviseCode 0 = true :=
      fun h => h rfl
    rw [main_eq _ rfl (by decide) (by decide), if_pos ⟨rfl, rfl⟩, mapped]
    dsimp only
    rw [if_neg (hfork _), haccesses, Option.bind_some, hbefore]
    dsimp only
    rw [if_neg (hfork _), inject, if_pos (by decide), hmul, Option.bind_some]
    dsimp only
    rw [if_neg hmadvise, if_neg (hfork _), afterInjection, hafter]
    dsimp only
    rw [hexpected, show (forgetful freed).advised accesses.reading.memory.bytes = fun _ => 0 from
      rfl, haccesses', Option.map_some]
    cases freed <;> rfl
  · refine ⟨accesses.reading.memory.bytes, fun _ => 0, rfl, 0, ?_, ?_⟩
    · rw [hexpected]
      exact hfirst
    · rw [haccessed.filled, filled, if_pos hfirst]
      decide

/-- The condition fails when the last call succeeds, and holds when it does not. -/
theorem detects_offlineFirst :
    (∃ r, main offlineFirst (forgetful true) = some r ∧
      ((r.Lost offlineFirst → r.status ≠ .exited 0) ↔
        ¬ (forgetful true).Loses offlineFirst ∨ (forgetful true).FailsLater offlineFirst)) ∧
    ∃ r, main offlineFirst (forgetful false) = some r ∧ r.Lost offlineFirst ∧
      r.status ≠ .exited 0 := by
  obtain ⟨r, hr, -⟩ := forgetful_run true
  obtain ⟨r', hr', hlost, -⟩ := forgetful_run false
  exact ⟨⟨r, hr, detects_iff hr⟩, r', hr', hlost, (detects_iff hr').mpr (.inr (.inl rfl)) hlost⟩

/-- A page is lost, and the exit status is 0. -/
theorem lost_unnoticed : ¬ ∀ r, main offlineFirst (forgetful true) = some r →
    r.Lost offlineFirst → r.status ≠ .exited 0 := by
  intro hdetects
  obtain ⟨r, hr, hlost, hzero⟩ := forgetful_run true
  exact hdetects r hr hlost hzero

end MceTest.Thugetlb

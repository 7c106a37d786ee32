import MceTest.Library.Semaphore
import MceTest.PagePoisoning.Model
import Mathlib.Data.Int.CardIntervalMod

/-! The protocol of the children that run `shm_test`: the mutex, the barrier, the data
segment and the calls of `testmem` and `recover`. -/

namespace MceTest.PagePoisoning

open MceTest.Library.Transition MceTest.Library.Semaphore

def shmChildren (cfg : Config) : Finset Nat := (Finset.range cfg.childNum).filter cfg.IsShm

theorem mem_shmChildren {cfg : Config} {i : Nat} :
    i ∈ shmChildren cfg ↔ i < cfg.childNum ∧ cfg.IsShm i := by
  rw [shmChildren, Finset.mem_filter, Finset.mem_range]

theorem div_add_ite {m T t : Nat} (ht : t < T) :
    (if m % T ≥ t then m / T + 1 else m / T) = (m + 1) / T + if t < (m + 1) % T then 1 else 0 := by
  have hT : 0 < T := Nat.zero_lt_of_lt ht
  have hdiv := Nat.div_add_mod m T
  have hmod := Nat.mod_lt m hT
  by_cases hlast : m % T + 1 = T
  · have hm : m + 1 = T * (m / T + 1) := by rw [Nat.mul_add, Nat.mul_one]; omega
    have hd : (m + 1) / T = m / T + 1 := by rw [hm, Nat.mul_div_cancel_left _ hT]
    have hr : (m + 1) % T = 0 := by rw [hm, Nat.mul_mod_right]
    rw [hd, hr, if_pos (by omega), if_neg (by omega)]
  · have hm : m + 1 = (m % T + 1) + T * (m / T) := by omega
    have hd : (m + 1) / T = m / T := by
      rw [hm, Nat.add_mul_div_left _ _ hT, Nat.div_eq_of_lt (by omega), Nat.zero_add]
    have hr : (m + 1) % T = m % T + 1 := by
      rw [hm, Nat.add_mul_mod_self_left, Nat.mod_eq_of_lt (by omega)]
    rw [hd, hr]
    by_cases h : t ≤ m % T
    · rw [if_pos h, if_pos (by omega)]
    · rw [if_neg h, if_neg (by omega), Nat.add_zero]

theorem card_shmChildren {cfg : Config} {t : Nat} (ht : cfg.tShm = some t)
    (hlt : t < cfg.testTypes) (hn : 0 < cfg.childNum) :
    cfg.shmChildNum = (shmChildren cfg).card := by
  have hpos : 0 < cfg.testTypes := Nat.zero_lt_of_lt hlt
  have hfilter : shmChildren cfg =
      (Finset.range cfg.childNum).filter (· ≡ t [MOD cfg.testTypes]) := by
    apply Finset.filter_congr
    intro i _
    rw [Config.IsShm, ht, Option.some.injEq, Nat.ModEq, Nat.mod_eq_of_lt hlt]
    exact eq_comm
  have hlast : cfg.childNum - 1 + 1 = cfg.childNum := Nat.sub_add_cancel hn
  rw [hfilter, ← Nat.count_eq_card_filter_range, Nat.count_modEq_card _ hpos, Config.shmChildNum,
    ht, Nat.mod_eq_of_lt hlt]
  dsimp only
  rw [div_add_ite hlt, hlast]

/-- Between `request_sem(0)` and `release_sem(0)`. -/
def Pc.inMutex : Pc → Bool
  | .checkReady | .getSegment | .setReady | .attach | .writePid | .release1
  | .checkDone | .setDone | .testmem | .recover | .release2 => true
  | _ => false

def Pc.early : Pc → Bool
  | .unborn | .start | .request1 | .checkReady | .getSegment | .setReady | .attach | .writePid
  | .release1 | .decrement => true
  | _ => false

def Pc.late : Pc → Bool
  | .storeResult | .leave _ | .exited _ _ | .killed _ _ => true
  | _ => false

def Pc.passed : Pc → Bool
  | .request2 | .checkDone | .setDone | .testmem | .recover | .release2 => true
  | pc => pc.late

def Pc.pastReady : Pc → Bool
  | .attach | .writePid | .release1 | .decrement | .waitZero => true
  | pc => pc.passed

def Pc.attached : Pc → Bool
  | .attach => false
  | pc => pc.pastReady

def Pc.written : Pc → Bool
  | .writePid => false
  | pc => pc.attached

/-- `testmem` or `recover` has been called. -/
def Pc.called : Pc → Bool
  | .testmem | .recover | .release2 => true
  | pc => pc.late

def Pc.shmOnly : Pc → Bool
  | .request1 | .waitZero | .decrement | .request2 => true
  | pc => pc.inMutex

variable {cfg : Config} {s s' : State} {child : Nat → Pc} {i : Nat} {pc : Pc} {fails : Bool}

structure Kinds (cfg : Config) (child : Nat → Pc) : Prop where
  shm : ∀ i, (child i).shmOnly = true → cfg.IsShm i
  body : ∀ i, child i = .body → ¬ cfg.IsShm i

theorem Kinds.move (hs : Kinds cfg child) (hshm : pc.shmOnly = true → cfg.IsShm i)
    (hbody : pc = .body → ¬ cfg.IsShm i) : Kinds cfg (Function.update child i pc) where
  shm := update_all (P := fun j pc => pc.shmOnly = true → cfg.IsShm j) hs.shm hshm
  body := update_all (P := fun j pc => pc = .body → ¬ cfg.IsShm j) hs.body hbody

theorem childStep_kinds (hs : Kinds cfg s.child) (h : childStep cfg s i fails = some s') :
    Kinds cfg s'.child := by
  have hshm := hs.shm i
  cases hpc : s.child i
  all_goals simp only [childStep, hpc, reduceCtorEq, Option.ite_none_left_eq_some,
    Option.ite_none_right_eq_some, Option.some.injEq] at h
  case start =>
    subst h
    by_cases hi : cfg.IsShm i
    · exact hs.move (fun _ => hi) (by simp [hi])
    · exact hs.move (by simp [hi, Pc.shmOnly, Pc.inMutex]) (fun _ => hi)
  case request1 | request2 | decrement | waitZero =>
    obtain ⟨-, rfl⟩ := h
    exact hs.move (fun _ => hshm (by rw [hpc]; rfl)) (by simp)
  case checkReady =>
    subst h
    exact hs.move (fun _ => hshm (by rw [hpc]; rfl)) (by split <;> simp)
  case checkDone =>
    split at h
    all_goals
      cases h
      exact hs.move (fun _ => hshm (by rw [hpc]; rfl)) (by simp)
  case storeResult =>
    split at h
    all_goals
      cases h
      exact hs.move (by simp [Pc.shmOnly, Pc.inMutex]) (by simp)
  case body | leave =>
    subst h
    exact hs.move (by simp [Pc.shmOnly, Pc.inMutex]) (by simp)
  all_goals
    subst h
    exact hs.move (fun _ => hshm (by rw [hpc]; rfl)) (by simp)

def Exclusive (sem0 : Nat) (child : Nat → Pc) : Prop :=
  Guards sem0 fun i => (child i).inMutex = true

theorem Exclusive.move {sem0 : Nat} (hs : Exclusive sem0 child)
    (hpc : pc.inMutex = (child i).inMutex) : Exclusive sem0 (Function.update child i pc) :=
  hs.keep (update_keep hpc)

theorem Exclusive.acquire {sem0 : Nat} (hs : Exclusive sem0 child) (hsem : sem0 ≠ 0)
    (hpc : pc.inMutex = true) : Exclusive (sem0 - 1) (Function.update child i pc) :=
  Guards.acquire hs hsem (by rwa [Function.update_self]) (update_others Pc.inMutex)

theorem Exclusive.release {sem0 : Nat} (hs : Exclusive sem0 child)
    (hi : (child i).inMutex = true) (hpc : pc.inMutex = false) :
    Exclusive (sem0 + 1) (Function.update child i pc) :=
  Guards.release hs hi (by rw [Function.update_self, hpc]; exact Bool.false_ne_true)
    (update_others Pc.inMutex)

theorem childStep_exclusive (hs : Exclusive s.sem0 s.child)
    (h : childStep cfg s i fails = some s') : Exclusive s'.sem0 s'.child := by
  cases hpc : s.child i
  all_goals simp only [childStep, hpc, reduceCtorEq, Option.ite_none_left_eq_some,
    Option.ite_none_right_eq_some, Option.some.injEq] at h
  case request1 | request2 =>
    obtain ⟨hsem, rfl⟩ := h
    exact hs.acquire hsem rfl
  case release1 | release2 =>
    subst h
    exact hs.release (by rw [hpc]; rfl) rfl
  case decrement | waitZero =>
    obtain ⟨-, rfl⟩ := h
    exact hs.move (by rw [hpc]; rfl)
  case start | checkReady =>
    subst h
    exact hs.move (by rw [hpc]; split <;> rfl)
  case checkDone | storeResult =>
    split at h
    all_goals
      cases h
      exact hs.move (by rw [hpc]; rfl)
  all_goals
    subst h
    exact hs.move (by rw [hpc]; rfl)

/-- The barrier semaphore counts the children still to arrive, and is down once one of
them is through. -/
structure Barrier (cfg : Config) (sem1 : Nat) (child : Nat → Pc) : Prop where
  counts : Counts sem1 (shmChildren cfg) fun i => (child i).early = true
  passed : ∀ i, cfg.IsShm i → (child i).passed = true → sem1 = 0

theorem Barrier.move {sem1 : Nat} (hs : Barrier cfg sem1 child)
    (hearly : cfg.IsShm i → pc.early = (child i).early)
    (hpassed : cfg.IsShm i → pc.passed = true → sem1 = 0) :
    Barrier cfg sem1 (Function.update child i pc) where
  counts := hs.counts.keep fun j hj => by
    by_cases hji : j = i
    · subst hji
      rw [Function.update_self, hearly (mem_shmChildren.mp hj).2]
    · rw [Function.update_of_ne hji]
  passed := update_all (P := fun j pc => cfg.IsShm j → pc.passed = true → sem1 = 0)
    hs.passed hpassed

theorem Barrier.arrive {sem1 : Nat} (hs : Barrier cfg sem1 child) (hsem : sem1 ≠ 0)
    (hi : i ∈ shmChildren cfg) (hearly : (child i).early = true) (hlate : pc.early = false)
    (hpc : pc.passed = false) : Barrier cfg (sem1 - 1) (Function.update child i pc) where
  counts := hs.counts.arrive hi hearly
    (by rw [Function.update_self, hlate]; exact Bool.false_ne_true) (update_others Pc.early)
  passed := by
    intro j hj hpassed
    by_cases hji : j = i
    · rw [hji, Function.update_self, hpc] at hpassed
      cases hpassed
    · rw [Function.update_of_ne hji] at hpassed
      exact absurd (hs.passed j hj hpassed) hsem

theorem childStep_barrier (hf : Forked cfg s) (hk : Kinds cfg s.child)
    (hs : Barrier cfg s.sem1 s.child) (h : childStep cfg s i fails = some s') :
    Barrier cfg s'.sem1 s'.child := by
  have hold := hs.passed i
  cases hpc : s.child i
  all_goals simp only [childStep, hpc, reduceCtorEq, Option.ite_none_left_eq_some,
    Option.ite_none_right_eq_some, Option.some.injEq] at h
  case decrement =>
    obtain ⟨hsem, rfl⟩ := h
    have hlt := ((hf.born i).mp (by rw [hpc]; rfl)).trans_le hf.bound
    have hi := hk.shm i (by rw [hpc]; rfl)
    exact hs.arrive hsem (mem_shmChildren.mpr ⟨hlt, hi⟩) (by rw [hpc]; rfl) rfl rfl
  case waitZero =>
    obtain ⟨hsem, rfl⟩ := h
    exact hs.move (fun _ => by rw [hpc]; rfl) (fun _ _ => hsem)
  case request1 =>
    obtain ⟨-, rfl⟩ := h
    exact hs.move (fun _ => by rw [hpc]; rfl) (by simp [Pc.passed, Pc.late])
  case request2 =>
    obtain ⟨-, rfl⟩ := h
    exact hs.move (fun _ => by rw [hpc]; rfl) (fun hi _ => hold hi (by rw [hpc]; rfl))
  case start =>
    subst h
    exact hs.move (fun hi => by rw [hpc, if_pos hi]; rfl)
      (by split <;> simp [Pc.passed, Pc.late])
  case checkReady =>
    subst h
    exact hs.move (fun _ => by rw [hpc]; split <;> rfl) (by split <;> simp [Pc.passed, Pc.late])
  case body =>
    subst h
    have hi := hk.body i hpc
    exact hs.move (fun _ => by rw [hpc]; rfl) (fun hi' => absurd hi' hi)
  case checkDone | storeResult =>
    split at h
    all_goals
      cases h
      exact hs.move (fun _ => by rw [hpc]; rfl) (fun hi _ => hold hi (by rw [hpc]; rfl))
  case getSegment | setReady | attach | writePid | release1 =>
    subst h
    exact hs.move (fun _ => by rw [hpc]; rfl) (by simp [Pc.passed, Pc.late])
  all_goals
    subst h
    exact hs.move (fun _ => by rw [hpc]; rfl) (fun hi _ => hold hi (by rw [hpc]; rfl))

def Pc.making : Pc → Bool
  | .getSegment | .setReady => true
  | _ => false

/-- There is one data segment from `shmget` on, and everyone attached has it. -/
structure Segment (cfg : Config) (shm : Shm) (segments : List Nat) (shmptr : Nat → Option Nat)
    (child : Nat → Pc) : Prop where
  ready : shm.ready = true → shm.id = some 0 ∧ segments.length = 1
  fresh : shm.ready = false → (∀ i, child i ≠ .setReady) → segments = []
  made : ∀ i, child i = .setReady → shm.id = some 0 ∧ segments.length = 1
  making : ∀ i, (child i).making = true → shm.ready = false
  after : ∀ i, cfg.IsShm i → (child i).pastReady = true → shm.ready = true
  pointer : ∀ i id, shmptr i = some id → id = 0 ∧ shm.ready = true
  attached : ∀ i, cfg.IsShm i → (child i).attached = true → shmptr i = some 0

section

variable {shm : Shm} {segments : List Nat} {shmptr : Nat → Option Nat}

theorem Segment.move (hs : Segment cfg shm segments shmptr child) (hold : child i ≠ .setReady)
    (hnew : pc ≠ .setReady) (hmaking : pc.making = true → shm.ready = false)
    (hafter : cfg.IsShm i → pc.pastReady = true → shm.ready = true)
    (hattached : cfg.IsShm i → pc.attached = true → shmptr i = some 0) :
    Segment cfg shm segments shmptr (Function.update child i pc) where
  ready := hs.ready
  fresh := by
    intro hready hnone
    apply hs.fresh hready
    intro j hj
    by_cases hji : j = i
    · exact hold (hji ▸ hj)
    · exact hnone j ((Function.update_of_ne hji ..).trans hj)
  made := update_all (P := fun _ pc => pc = .setReady → shm.id = some 0 ∧ segments.length = 1)
    hs.made (fun h => absurd h hnew)
  making := update_all (P := fun _ pc => pc.making = true → shm.ready = false) hs.making hmaking
  after := update_all (P := fun j pc => cfg.IsShm j → pc.pastReady = true → shm.ready = true)
    hs.after hafter
  pointer := hs.pointer
  attached := update_all (P := fun j pc => cfg.IsShm j → pc.attached = true → shmptr j = some 0)
    hs.attached hattached

theorem Segment.unready {sem0 : Nat} (hs : Segment cfg shm segments shmptr child)
    (hex : Exclusive sem0 child) (hi : child i = .getSegment) :
    shm.ready = false ∧ segments = [] := by
  have hready := hs.making i (by rw [hi]; rfl)
  refine ⟨hready, hs.fresh hready fun j hj => ?_⟩
  have hji : j = i := hex.exclusive (by rw [hj]; rfl) (by rw [hi]; rfl)
  rw [hji, hi] at hj
  cases hj

theorem Segment.create {sem0 : Nat} (hs : Segment cfg shm segments shmptr child)
    (hex : Exclusive sem0 child) (hi : child i = .getSegment) :
    Segment cfg { shm with id := some segments.length } (segments ++ [0]) shmptr
      (Function.update child i .setReady) := by
  obtain ⟨hready, rfl⟩ := hs.unready hex hi
  constructor
  · exact fun h => absurd (hready.symm.trans h) Bool.false_ne_true
  · exact fun _ hnone => absurd (Function.update_self ..) (hnone i)
  · exact fun _ _ => ⟨rfl, rfl⟩
  · exact fun _ _ => hready
  · exact update_all (P := fun j pc => cfg.IsShm j → pc.pastReady = true → shm.ready = true)
      hs.after (by simp [Pc.pastReady, Pc.passed, Pc.late])
  · exact hs.pointer
  · exact update_all (P := fun j pc => cfg.IsShm j → pc.attached = true → shmptr j = some 0)
      hs.attached (by simp [Pc.attached, Pc.pastReady, Pc.passed, Pc.late])

theorem Segment.publish {sem0 : Nat} (hs : Segment cfg shm segments shmptr child)
    (hex : Exclusive sem0 child) (hi : child i = .setReady) :
    Segment cfg { shm with ready := true } segments shmptr (Function.update child i .attach) where
  ready := fun _ => hs.made i hi
  fresh := fun h => absurd h.symm Bool.false_ne_true
  made := update_all (P := fun _ pc => pc = .setReady → shm.id = some 0 ∧ segments.length = 1)
    hs.made (by simp)
  making := by
    intro j hj
    by_cases hji : j = i
    · rw [hji, Function.update_self] at hj
      cases hj
    · rw [Function.update_of_ne hji] at hj
      have hin : (child j).inMutex = true := by
        cases hpc : child j <;> rw [hpc] at hj <;> first | rfl | cases hj
      exact absurd (hex.exclusive hin (by rw [hi]; rfl)) hji
  after := fun _ _ _ => rfl
  pointer := fun j id h => ⟨(hs.pointer j id h).1, rfl⟩
  attached := update_all (P := fun j pc => cfg.IsShm j → pc.attached = true → shmptr j = some 0)
    hs.attached (by simp [Pc.attached])

theorem Segment.attach (hs : Segment cfg shm segments shmptr child) (hi : child i = .attach)
    (hshm : cfg.IsShm i) :
    Segment cfg shm segments (Function.update shmptr i shm.id)
      (Function.update child i .writePid) := by
  have hready := hs.after i hshm (by rw [hi]; rfl)
  have hid := (hs.ready hready).1
  constructor
  · exact hs.ready
  · exact fun h => absurd (h.symm.trans hready) Bool.false_ne_true
  · exact update_all (P := fun _ pc => pc = .setReady → shm.id = some 0 ∧ segments.length = 1)
      hs.made (by simp)
  · exact update_all (P := fun _ pc => pc.making = true → shm.ready = false) hs.making
      (by simp [Pc.making])
  · exact fun _ _ _ => hready
  · intro j id hj
    by_cases hji : j = i
    · rw [hji, Function.update_self, hid] at hj
      cases hj
      exact ⟨rfl, hready⟩
    · rw [Function.update_of_ne hji] at hj
      exact hs.pointer j id hj
  · intro j hj hattached
    by_cases hji : j = i
    · rw [hji, Function.update_self, hid]
    · rw [Function.update_of_ne hji] at hattached ⊢
      exact hs.attached j hj hattached

theorem Segment.write {segments' : List Nat} (hs : Segment cfg shm segments shmptr child)
    (hlen : segments'.length = segments.length) : Segment cfg shm segments' shmptr child where
  ready := fun h => ⟨(hs.ready h).1, hlen.trans (hs.ready h).2⟩
  fresh := fun h hnone => List.eq_nil_of_length_eq_zero (by rw [hlen, hs.fresh h hnone]; rfl)
  made := fun j hj => ⟨(hs.made j hj).1, hlen.trans (hs.made j hj).2⟩
  making := hs.making
  after := hs.after
  pointer := hs.pointer
  attached := hs.attached

end

theorem childStep_segment (hk : Kinds cfg s.child)
    (hex : Exclusive s.sem0 s.child)
    (hs : Segment cfg s.shm s.segments s.shmptr s.child)
    (h : childStep cfg s i fails = some s') :
    Segment cfg s'.shm s'.segments s'.shmptr s'.child := by
  have hafter := hs.after i
  have hattached := hs.attached i
  have hshm := hk.shm i
  cases hpc : s.child i
  all_goals
    rw [hpc] at hafter hattached hshm
    simp only [childStep, hpc, reduceCtorEq, Option.ite_none_left_eq_some,
      Option.ite_none_right_eq_some, Option.some.injEq] at h
  case start =>
    subst h
    refine hs.move (by simp [hpc]) ?_ ?_ ?_ ?_
    all_goals split <;> simp [Pc.making, Pc.pastReady, Pc.attached, Pc.passed, Pc.late]
  case body =>
    subst h
    have hi := hk.body i hpc
    exact hs.move (by simp [hpc]) (by simp) (by simp [Pc.making]) (fun h => absurd h hi)
      (fun h => absurd h hi)
  case request1 =>
    obtain ⟨-, rfl⟩ := h
    exact hs.move (by simp [hpc]) (by simp) (by simp [Pc.making])
      (by simp [Pc.pastReady, Pc.passed, Pc.late])
      (by simp [Pc.attached, Pc.pastReady, Pc.passed, Pc.late])
  case checkReady =>
    subst h
    cases hready : s.shm.ready with
    | true =>
      exact hs.move (by simp [hpc]) (by simp) (by simp [Pc.making]) (fun _ _ => hready)
        (by simp [Pc.attached])
    | false =>
      exact hs.move (by simp [hpc]) (by simp) (fun _ => hready)
        (by simp [Pc.pastReady, Pc.passed, Pc.late])
        (by simp [Pc.attached, Pc.pastReady, Pc.passed, Pc.late])
  case getSegment =>
    subst h
    exact hs.create hex hpc
  case setReady =>
    subst h
    exact hs.publish hex hpc
  case attach =>
    subst h
    exact hs.attach hpc (hshm rfl)
  case writePid =>
    subst h
    have hmove : Segment cfg s.shm s.segments s.shmptr (Function.update s.child i .release1) :=
      hs.move (by simp [hpc]) (by simp) (by simp [Pc.making])
        (fun h _ => hafter h rfl) (fun h _ => hattached h rfl)
    exact hmove.write (by dsimp only; split <;> simp)
  case decrement | waitZero | request2 =>
    obtain ⟨-, rfl⟩ := h
    exact hs.move (by simp [hpc]) (by simp) (by simp [Pc.making]) (fun h _ => hafter h rfl)
      (fun h _ => hattached h rfl)
  case checkDone | storeResult =>
    split at h
    all_goals
      cases h
      exact hs.move (by simp [hpc]) (by simp) (by simp [Pc.making]) (fun h _ => hafter h rfl)
        (fun h _ => hattached h rfl)
  case setDone =>
    subst h
    have hmove : Segment cfg s.shm s.segments s.shmptr (Function.update s.child i .testmem) :=
      hs.move (by simp [hpc]) (by simp) (by simp [Pc.making])
        (fun h _ => hafter h rfl) (fun h _ => hattached h rfl)
    exact ⟨hmove.ready, hmove.fresh, hmove.made, hmove.making, hmove.after, hmove.pointer,
      hmove.attached⟩
  all_goals
    subst h
    exact hs.move (by simp [hpc]) (by simp) (by simp [Pc.making]) (fun h _ => hafter h rfl)
      (fun h _ => hattached h rfl)

/-- The first one through the mutex calls `testmem`, the others `recover` after it. -/
structure Calls (cfg : Config) (done : Bool) (calls : List (Nat × Call)) (child : Nat → Pc) :
    Prop where
  undone : done = false → calls = []
  started : done = true → ∃ (i : Nat) (rest : List Nat),
    calls = (i, .testmem) :: rest.map fun j => (j, .recover)
  setting : ∀ i, child i = .setDone → done = false
  callers : ∀ i, i ∈ calls.map Prod.fst ↔ cfg.IsShm i ∧ (child i).called = true
  nodup : (calls.map Prod.fst).Nodup

section

variable {done : Bool} {calls : List (Nat × Call)}

theorem Calls.move (hs : Calls cfg done calls child) (hsetting : pc = .setDone → done = false)
    (hcalled : cfg.IsShm i → pc.called = (child i).called) :
    Calls cfg done calls (Function.update child i pc) where
  undone := hs.undone
  started := hs.started
  setting := update_all (P := fun _ pc => pc = .setDone → done = false) hs.setting hsetting
  callers := update_all
    (P := fun j pc => j ∈ calls.map Prod.fst ↔ cfg.IsShm j ∧ pc.called = true) hs.callers
    ((hs.callers i).trans (and_congr_right fun h => by rw [hcalled h]))
  nodup := hs.nodup

theorem Calls.call (pc : Pc) (hs : Calls cfg done calls child) (hi : cfg.IsShm i)
    (hcalled : (child i).called = false) (hpc : pc.called = true) (call : Call) :
    (∀ j, j ∈ (calls ++ [(i, call)]).map Prod.fst ↔
      cfg.IsShm j ∧ (Function.update child i pc j).called = true) ∧
    ((calls ++ [(i, call)]).map Prod.fst).Nodup := by
  have hnot : i ∉ calls.map Prod.fst := fun h => by
    have hcalled' := ((hs.callers i).mp h).2
    rw [hcalled] at hcalled'
    cases hcalled'
  rw [List.map_append]
  constructor
  · intro j
    rw [List.mem_append, List.map_singleton, List.mem_singleton]
    by_cases hji : j = i
    · rw [hji, Function.update_self]
      exact iff_of_true (.inr rfl) ⟨hi, hpc⟩
    · rw [Function.update_of_ne hji, hs.callers j, or_iff_left hji]
  · exact hs.nodup.append (List.nodup_singleton i) (by simpa using hnot)

end

theorem childStep_calls (hk : Kinds cfg s.child) (hex : Exclusive s.sem0 s.child)
    (hs : Calls cfg s.shm.done s.calls s.child) (h : childStep cfg s i fails = some s') :
    Calls cfg s'.shm.done s'.calls s'.child := by
  cases hpc : s.child i
  all_goals simp only [childStep, hpc, reduceCtorEq, Option.ite_none_left_eq_some,
    Option.ite_none_right_eq_some, Option.some.injEq] at h
  case start | checkReady =>
    subst h
    refine hs.move ?_ fun _ => ?_
    · split <;> simp
    · rw [hpc]
      split <;> rfl
  case body =>
    subst h
    exact hs.move (by simp) fun h => absurd h (hk.body i hpc)
  case request1 | decrement | waitZero | request2 =>
    obtain ⟨-, rfl⟩ := h
    exact hs.move (by simp) fun _ => by rw [hpc]; rfl
  case storeResult =>
    split at h
    all_goals
      cases h
      exact hs.move (by simp) fun _ => by rw [hpc]; rfl
  case checkDone =>
    have hi := hk.shm i (by rw [hpc]; rfl)
    split at h
    · rename_i hdone
      cases h
      obtain ⟨callers, nodup⟩ := hs.call .recover hi (by rw [hpc]; rfl) rfl .recover
      refine ⟨?_, fun _ => ?_, ?_, callers, nodup⟩
      · exact fun h => absurd (h.symm.trans hdone) Bool.false_ne_true
      · obtain ⟨j, rest, hcalls⟩ := hs.started hdone
        refine ⟨j, rest ++ [i], ?_⟩
        change s.calls ++ [(i, .recover)] = _
        rw [hcalls, List.map_append]
        rfl
      · exact update_all (P := fun _ pc => pc = .setDone → s.shm.done = false) hs.setting (by simp)
    · rename_i hdone
      cases h
      exact hs.move (fun _ => Bool.eq_false_iff.mpr hdone) fun _ => by rw [hpc]; rfl
  case setDone =>
    subst h
    have hi := hk.shm i (by rw [hpc]; rfl)
    have hcalls := hs.undone (hs.setting i hpc)
    obtain ⟨callers, nodup⟩ := hs.call .testmem hi (by rw [hpc]; rfl) rfl .testmem
    refine ⟨?_, fun _ => ⟨i, [], ?_⟩, fun j hj => ?_, callers, nodup⟩
    · exact fun h => absurd h.symm Bool.false_ne_true
    · change s.calls ++ [(i, .testmem)] = _
      rw [hcalls]
      rfl
    · by_cases hji : j = i
      · have hpc' : Function.update s.child i .testmem j = .setDone := hj
        rw [hji, Function.update_self] at hpc'
        cases hpc'
      · have hpc' : Function.update s.child i .testmem j = .setDone := hj
        rw [Function.update_of_ne hji] at hpc'
        exact absurd (hex.exclusive (by rw [hpc']; rfl) (by rw [hpc]; rfl)) hji
  all_goals
    subst h
    exact hs.move (by simp) fun _ => by rw [hpc]; rfl

end MceTest.PagePoisoning

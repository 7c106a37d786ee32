import MceTest.Library.Probing
import MceTest.PageTypes.Flags
import Mathlib.Order.Interval.Finset.Nat

/-! The flag hash table of the summary and its meaning as an open-addressing table. -/

namespace MceTest.PageTypes

open MceTest.Library

def hashSize : Nat := 1 <<< 13
def hashMask : Flags := BitVec.ofNat 64 (hashSize - 1)

@[simp] theorem hashSize_eq : hashSize = 8192 := rfl

/-- The probing loop of `hash_slot`, `i` rounds before its end. -/
def hashSlotLoop (pageFlags : Nat → Flags) (flags : Flags) :
    Nat → Nat → Option (Nat × (Nat → Flags))
  | 0, _ => none
  | i + 1, k =>
    let k := if k = 0 ∨ k ≥ hashSize then 1 else k
    if pageFlags k = 0 then some (k, Function.update pageFlags k flags)
    else if pageFlags k = flags then some (k, pageFlags)
    else hashSlotLoop pageFlags flags i (k + 1)

def hashSlot (pageFlags : Nat → Flags) (flags : Flags) :
    Except Fatal (Nat × (Nat → Flags)) :=
  let k := (flags &&& hashMask).toNat
  if flags = 0 then .ok (0, pageFlags)
  else match hashSlotLoop pageFlags flags (hashSize - 1) k with
    | some r => .ok r
    | none => .error .hashTableFull

/-- Slot 0 belongs to the empty word; elsewhere a zero word marks a free slot. -/
def tableOf (pageFlags : Nat → Flags) : Probing.Table Nat Flags := fun k =>
  if k = 0 then some 0 else if pageFlags k = 0 then none else some (pageFlags k)

@[simp] theorem tableOf_zero (pageFlags : Nat → Flags) : tableOf pageFlags 0 = some 0 := rfl

theorem tableOf_pos (pageFlags : Nat → Flags) {k : Nat} (h : k ≠ 0) :
    tableOf pageFlags k = if pageFlags k = 0 then none else some (pageFlags k) := by
  simp [tableOf, h]

theorem tableOf_update (pageFlags : Nat → Flags) {k : Nat} (hk : k ≠ 0) {flags : Flags}
    (hf : flags ≠ 0) :
    tableOf (Function.update pageFlags k flags) = Probing.insert (tableOf pageFlags) flags k := by
  funext a
  by_cases hak : a = k
  · subst hak
    rw [tableOf_pos _ hk, Function.update_self, if_neg hf, Probing.insert_same]
  · rw [Probing.insert_of_ne _ _ hak]
    simp [tableOf, Function.update_of_ne hak]

def wrapSlot (k : Nat) : Nat := if k = 0 ∨ k ≥ hashSize then 1 else k

theorem hashSlotLoop_succ (pageFlags : Nat → Flags) (flags : Flags) (i k : Nat) :
    hashSlotLoop pageFlags flags (i + 1) k =
      if pageFlags (wrapSlot k) = 0 then
        some (wrapSlot k, Function.update pageFlags (wrapSlot k) flags)
      else if pageFlags (wrapSlot k) = flags then some (wrapSlot k, pageFlags)
      else hashSlotLoop pageFlags flags i (wrapSlot k + 1) := rfl

theorem wrapSlot_bounds (k : Nat) : 1 ≤ wrapSlot k ∧ wrapSlot k < hashSize := by
  unfold wrapSlot
  split <;> simp only [hashSize_eq] at * <;> omega

/-- The slots `hash_slot` looks at, from `k` on. -/
def probePath : Nat → Nat → List Nat
  | 0, _ => []
  | i + 1, k => wrapSlot k :: probePath i (wrapSlot k + 1)

theorem wrapSlot_succ (k : Nat) :
    wrapSlot (wrapSlot k + 1) = 1 + (wrapSlot k - 1 + 1) % (hashSize - 1) := by
  obtain ⟨h₁, h₂⟩ := wrapSlot_bounds k
  generalize wrapSlot k = m at *
  unfold wrapSlot
  split <;> simp only [hashSize_eq] at * <;> omega

theorem probePath_eq_map (i k : Nat) :
    probePath i k =
      (List.range i).map fun j => 1 + (wrapSlot k - 1 + j) % (hashSize - 1) := by
  induction i generalizing k with
  | zero => rfl
  | succ i ih =>
    rw [probePath, ih, List.range_succ_eq_map, List.map_cons, List.map_map, wrapSlot_succ]
    obtain ⟨h₁, h₂⟩ := wrapSlot_bounds k
    simp only [hashSize_eq] at *
    refine congrArg₂ _ (by omega) (List.map_congr_left fun j _ => ?_)
    simp only [Function.comp_apply]
    omega

theorem mem_probePath {k s : Nat} :
    s ∈ probePath (hashSize - 1) k ↔ 1 ≤ s ∧ s < hashSize := by
  rw [probePath_eq_map]
  obtain ⟨h₁, h₂⟩ := wrapSlot_bounds k
  simp only [List.mem_map, List.mem_range, hashSize_eq] at *
  constructor
  · rintro ⟨j, -, rfl⟩
    omega
  · rintro ⟨hs₁, hs₂⟩
    refine ⟨(s - 1 + 8191 - (wrapSlot k - 1)) % 8191, by omega, ?_⟩
    omega

theorem card_probePath (k : Nat) :
    (probePath (hashSize - 1) k).toFinset.card = hashSize - 1 := by
  have : (probePath (hashSize - 1) k).toFinset = Finset.Ico 1 hashSize := by
    ext s
    rw [List.mem_toFinset, mem_probePath, Finset.mem_Ico]
  rw [this, Nat.card_Ico]

def probe (flags : Flags) : List Nat :=
  if flags = 0 then [0] else probePath (hashSize - 1) (flags &&& hashMask).toNat

/-- The loop is the search of the table along its path. -/
theorem hashSlotLoop_eq_locate (pageFlags : Nat → Flags) {flags : Flags} (hf : flags ≠ 0)
    (i k : Nat) :
    (hashSlotLoop pageFlags flags i k).map (fun r => (r.1, tableOf r.2)) =
      (Probing.locate (tableOf pageFlags) flags (probePath i k)).map
        fun s => (s, Probing.insert (tableOf pageFlags) flags s) := by
  induction i generalizing k with
  | zero => rfl
  | succ i ih =>
    have hk : wrapSlot k ≠ 0 := by have := wrapSlot_bounds k; omega
    rw [hashSlotLoop_succ, probePath, Probing.locate, tableOf_pos _ hk]
    by_cases hfree : pageFlags (wrapSlot k) = 0
    · simp only [hfree, ↓reduceIte, Option.map_some]
      rw [tableOf_update _ hk hf]
    · simp only [hfree, ↓reduceIte]
      by_cases hheld : pageFlags (wrapSlot k) = flags
      · have hsame : Probing.insert (tableOf pageFlags) flags (wrapSlot k) =
            tableOf pageFlags := by
          rw [← tableOf_update _ hk hf, ← hheld, Function.update_eq_self]
        simp only [hheld, ↓reduceIte, Option.map_some, hsame]
      · simp only [hheld, ↓reduceIte]
        exact ih (wrapSlot k + 1)

theorem hashSlotLoop_zero {pageFlags pf : Nat → Flags} {flags : Flags} {i k s : Nat}
    (h : hashSlotLoop pageFlags flags i k = some (s, pf)) : pf 0 = pageFlags 0 := by
  induction i generalizing k with
  | zero => cases h
  | succ i ih =>
    have hk : 0 ≠ wrapSlot k := by have := wrapSlot_bounds k; omega
    rw [hashSlotLoop_succ] at h
    split at h
    · obtain ⟨-, rfl⟩ := Prod.mk.inj (Option.some.inj h)
      exact Function.update_of_ne hk _ _
    · split at h
      · obtain ⟨-, rfl⟩ := Prod.mk.inj (Option.some.inj h)
        rfl
      · exact ih h

theorem hashSlot_cases (pageFlags : Nat → Flags) (flags : Flags) :
    (∃ s pf, hashSlot pageFlags flags = .ok (s, pf) ∧
      Probing.locate (tableOf pageFlags) flags (probe flags) = some s ∧
      tableOf pf = Probing.insert (tableOf pageFlags) flags s ∧ pf 0 = pageFlags 0) ∨
    (hashSlot pageFlags flags = .error .hashTableFull ∧
      Probing.locate (tableOf pageFlags) flags (probe flags) = none) := by
  by_cases hf : flags = 0
  · left
    subst hf
    refine ⟨0, pageFlags, by simp [hashSlot], by simp [probe, Probing.locate], ?_, rfl⟩
    funext a
    by_cases ha : a = 0
    · subst ha; simp
    · rw [Probing.insert_of_ne _ _ ha]
  · have hloop := hashSlotLoop_eq_locate pageFlags hf (hashSize - 1) (flags &&& hashMask).toNat
    simp only [hashSlot, hf, probe, ↓reduceIte]
    cases hr : hashSlotLoop pageFlags flags (hashSize - 1) (flags &&& hashMask).toNat with
    | none =>
      right
      rw [hr] at hloop
      exact ⟨rfl, by simpa using hloop.symm⟩
    | some r =>
      left
      rw [hr, Option.map_some] at hloop
      obtain ⟨s, hs, heq⟩ := Option.map_eq_some_iff.mp hloop.symm
      obtain ⟨h₁, h₂⟩ := Prod.mk.inj heq
      exact ⟨r.1, r.2, rfl, h₁ ▸ hs, by rw [← h₂, h₁], hashSlotLoop_zero hr⟩

end MceTest.PageTypes

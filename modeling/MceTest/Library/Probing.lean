import Mathlib.Data.Finset.Card
import Mathlib.Data.Nat.Cast.Basic
import Mathlib.Algebra.BigOperators.Group.Finset.Piecewise

/-! Open addressing with an arbitrary probe sequence for every key, and the tally
kept beside such a table. -/

universe u v w

namespace MceTest.Library.Probing

variable {σ : Type u} {κ : Type v} {γ : Type w}

abbrev Table (σ : Type u) (κ : Type v) := σ → Option κ

section Search

variable [DecidableEq κ]

/-- The first slot of a path that is free or holds the key. -/
def locate (t : Table σ κ) (k : κ) : List σ → Option σ
  | [] => none
  | s :: path => match t s with
    | none => some s
    | some k' => if k' = k then some s else locate t k path

/-- Where a key is located, and what that slot can hold. -/
theorem locate_spec {t : Table σ κ} {k : κ} {path : List σ} {s : σ}
    (h : locate t k path = some s) : s ∈ path ∧ (t s = none ∨ t s = some k) := by
  induction path with
  | nil => simp [locate] at h
  | cons a path ih =>
    rw [locate] at h
    split at h
    · simp_all
    · split at h
      · simp_all
      · exact (ih h).imp_left (List.mem_cons_of_mem _)

theorem locate_eq_none {t : Table σ κ} {k : κ} {path : List σ} :
    locate t k path = none ↔ ∀ s ∈ path, ∃ k', t s = some k' ∧ k' ≠ k := by
  induction path with
  | nil => simp [locate]
  | cons a path ih =>
    rw [locate]
    cases ha : t a with
    | none => simp [ha]
    | some k' => by_cases hk : k' = k <;> simp [ha, hk, ih]

/-- Every stored key is found where it is stored.  In particular no slot before it on
its own path is free. -/
def WellFormed (probe : κ → List σ) (t : Table σ κ) : Prop :=
  ∀ s k, t s = some k → locate t k (probe k) = some s

theorem WellFormed.slot_unique {probe : κ → List σ} {t : Table σ κ}
    (h : WellFormed probe t) {s s' : σ} {k : κ} (hs : t s = some k) (hs' : t s' = some k) :
    s = s' := by
  have := (h s k hs).symm.trans (h s' k hs')
  exact Option.some.inj this

end Search

variable [DecidableEq σ]

def insert (t : Table σ κ) (k : κ) (s : σ) : Table σ κ := Function.update t s (some k)

@[simp] theorem insert_same (t : Table σ κ) (k : κ) (s : σ) : insert t k s s = some k := by
  simp [insert]

theorem insert_of_ne (t : Table σ κ) (k : κ) {s s' : σ} (h : s' ≠ s) :
    insert t k s s' = t s' := by
  simp [insert, h]

variable [DecidableEq κ]

theorem locate_insert_same {t : Table σ κ} {k : κ} {path : List σ} {s : σ}
    (h : locate t k path = some s) : locate (insert t k s) k path = some s := by
  induction path with
  | nil => simp [locate] at h
  | cons a path ih =>
    by_cases has : a = s
    · subst has
      simp [locate]
    · rw [locate] at h ⊢
      rw [insert_of_ne _ _ has]
      cases ha : t a with
      | none => simp_all
      | some k' =>
        by_cases hk : k' = k
        · simp_all
        · simp only [ha, hk, ↓reduceIte] at h ⊢
          exact ih h

/-- Filling a free slot does not move a key that is already stored: the search for
that key never went through the free slot. -/
theorem locate_insert_of_free {t : Table σ κ} {k k' : κ} {path : List σ} {s s' : σ}
    (hfree : t s = none) (hs' : t s' = some k') (h : locate t k' path = some s') :
    locate (insert t k s) k' path = some s' := by
  have hne : s' ≠ s := by rintro rfl; simp [hfree] at hs'
  induction path with
  | nil => simp [locate] at h
  | cons a path ih =>
    rw [locate] at h ⊢
    by_cases has : a = s
    · subst has
      simp only [hfree, Option.some.injEq] at h
      exact absurd h.symm hne
    · rw [insert_of_ne _ _ has]
      cases ha : t a with
      | none => simp_all
      | some k'' =>
        by_cases hk : k'' = k'
        · simp_all
        · simp only [ha, hk, ↓reduceIte] at h ⊢
          exact ih h

theorem WellFormed.insert {probe : κ → List σ} {t : Table σ κ} (h : WellFormed probe t)
    {k : κ} {s : σ} (hl : locate t k (probe k) = some s) :
    WellFormed probe (insert t k s) := by
  rcases (locate_spec hl).2 with hfree | hheld
  · intro s' k' hs'
    by_cases heq : s' = s
    · subst heq
      rw [insert_same, Option.some.injEq] at hs'
      exact hs' ▸ locate_insert_same hl
    · rw [insert_of_ne _ _ heq] at hs'
      exact locate_insert_of_free hfree hs' (h s' k' hs')
  · have hsame : Probing.insert t k s = t := by
      funext a
      by_cases ha : a = s
      · subst ha; rw [insert_same, hheld]
      · exact insert_of_ne _ _ ha
    rwa [hsame]

def Stored (t : Table σ κ) (k : κ) : Prop := ∃ s, t s = some k

theorem stored_insert_iff {t : Table σ κ} {k k' : κ} {path : List σ} {s : σ}
    (h : locate t k path = some s) :
    Stored (insert t k s) k' ↔ k' = k ∨ Stored t k' := by
  constructor
  · rintro ⟨a, ha⟩
    by_cases has : a = s
    · subst has
      rw [insert_same, Option.some.injEq] at ha
      exact Or.inl ha.symm
    · exact Or.inr ⟨a, by rwa [insert_of_ne _ _ has] at ha⟩
  · rintro (rfl | ⟨a, ha⟩)
    · exact ⟨s, insert_same _ _ _⟩
    · by_cases has : a = s
      · subst has
        rcases (locate_spec h).2 with hfree | hheld
        · simp [hfree] at ha
        · exact ⟨a, by rw [insert_same, ← hheld, ha]⟩
      · exact ⟨a, by rwa [insert_of_ne _ _ has]⟩

/-- A search that fails has seen one other key in each slot of its path, so there are
more keys than the path has slots. -/
theorem WellFormed.card_lt_of_full {probe : κ → List σ} {t : Table σ κ}
    (h : WellFormed probe t) {k : κ} (hnone : locate t k (probe k) = none)
    {keys : Finset κ} (hkeys : ∀ s ∈ probe k, ∀ k', t s = some k' → k' ∈ keys)
    (hk : k ∈ keys) : (probe k).toFinset.card < keys.card := by
  have hfull := locate_eq_none.mp hnone
  have hcard : (probe k).toFinset.card ≤ (keys.erase k).card := by
    apply Finset.card_le_card_of_injOn (fun s => (t s).getD k)
    · intro s hs
      obtain ⟨k', ht, hne⟩ := hfull s (by simpa using hs)
      have hmem := hkeys s (by simpa using hs) k' ht
      simp [ht, hne, hmem]
    · intro s hs s' hs' heq
      obtain ⟨k₁, h₁, -⟩ := hfull s (by simpa using hs)
      obtain ⟨k₂, h₂, -⟩ := hfull s' (by simpa using hs')
      have hkk : k₁ = k₂ := by simpa [h₁, h₂] using heq
      exact h.slot_unique h₁ (hkk ▸ h₂)
  calc (probe k).toFinset.card ≤ (keys.erase k).card := hcard
    _ < keys.card := Finset.card_erase_lt_of_mem hk

theorem full_of_card_le {probe : κ → List σ} {t : Table σ κ} {k : κ} (keys : Finset κ)
    (hkeys : ∀ k' ∈ keys, ∃ s ∈ probe k, t s = some k') (hk : k ∉ keys)
    (hcard : (probe k).toFinset.card ≤ keys.card) : locate t k (probe k) = none := by
  by_cases hσ : Nonempty σ
  swap
  · exact locate_eq_none.mpr fun s _ => (hσ ⟨s⟩).elim
  choose! slot hslot using hkeys
  have hinj : Set.InjOn slot keys := by
    intro a ha b hb hab
    have h₁ := (hslot a ha).2
    rw [hab, (hslot b hb).2] at h₁
    exact (Option.some.inj h₁).symm
  have himage : keys.image slot = (probe k).toFinset := by
    apply Finset.eq_of_subset_of_card_le
    · intro s hs
      obtain ⟨k', hk', rfl⟩ := Finset.mem_image.mp hs
      exact List.mem_toFinset.mpr (hslot k' hk').1
    · rwa [Finset.card_image_of_injOn hinj]
  apply locate_eq_none.mpr
  intro s hs
  have : s ∈ keys.image slot := by rw [himage]; exact List.mem_toFinset.mpr hs
  obtain ⟨k', hk', rfl⟩ := Finset.mem_image.mp this
  exact ⟨k', (hslot k' hk').2, fun heq => hk (heq ▸ hk')⟩

section Tally

variable [AddMonoidWithOne γ]

def bump (c : σ → γ) (s : σ) : σ → γ := Function.update c s (c s + 1)

/-- The counter beside a stored key is the number of times the key was recorded, and the
counters of free slots are zero. -/
structure Tallies (t : Table σ κ) (c : σ → γ) (ks : List κ) : Prop where
  stored : ∀ s k, t s = some k → c s = (ks.count k : γ)
  free : ∀ s, t s = none → c s = 0
  recorded : ∀ k ∈ ks, Stored t k

theorem Tallies.record {probe : κ → List σ} {t : Table σ κ} {c : σ → γ} {ks : List κ}
    (ht : Tallies t c ks) (hwf : WellFormed probe t) {k : κ} {s : σ}
    (hl : locate t k (probe k) = some s) :
    Tallies (insert t k s) (bump c s) (ks ++ [k]) := by
  have hcount : c s = (ks.count k : γ) := by
    rcases (locate_spec hl).2 with hfree | hheld
    · have hnot : k ∉ ks := by
        intro hk
        obtain ⟨a, ha⟩ := ht.recorded k hk
        have : a = s := Option.some.inj ((hwf a k ha).symm.trans hl)
        simp [← this, ha] at hfree
      rw [ht.free s hfree, List.count_eq_zero_of_not_mem hnot, Nat.cast_zero]
    · exact ht.stored s k hheld
  refine ⟨?_, ?_, ?_⟩
  · intro s' k' hs'
    by_cases heq : s' = s
    · subst heq
      rw [insert_same, Option.some.injEq] at hs'
      subst hs'
      simp [bump, hcount]
    · rw [insert_of_ne _ _ heq] at hs'
      have hne : k ≠ k' := by
        rintro rfl
        exact heq (Option.some.inj ((hwf s' k hs').symm.trans hl))
      simp [bump, heq, hne, ht.stored s' k' hs']
  · intro s' hs'
    have heq : s' ≠ s := by rintro rfl; simp at hs'
    rw [insert_of_ne _ _ heq] at hs'
    simp [bump, heq, ht.free s' hs']
  · intro k' hk'
    rw [stored_insert_iff hl]
    rcases List.mem_append.mp hk' with h | h
    · exact Or.inr (ht.recorded k' h)
    · exact Or.inl (by simpa using h)

end Tally

theorem sum_bump [AddCommMonoidWithOne γ] (c : σ → γ) {s : σ} {slots : Finset σ}
    (hs : s ∈ slots) : ∑ a ∈ slots, bump c s a = ∑ a ∈ slots, c a + 1 := by
  have hsplit := Finset.sum_update_of_mem hs c (c s + 1)
  rw [bump, hsplit, ← Finset.add_sum_erase slots c hs, Finset.sdiff_singleton_eq_erase]
  rw [add_right_comm]

end MceTest.Library.Probing

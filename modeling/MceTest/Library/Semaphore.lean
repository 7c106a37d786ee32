import Mathlib.Data.Finset.Card

/-! A semaphore used as a mutex, and one that counts the processes still to arrive. -/

namespace MceTest.Library.Semaphore

variable {ι : Type}

/-- The semaphore is free and nobody is inside, or taken by the only one inside. -/
def Guards (sem : Nat) (inside : ι → Prop) : Prop :=
  (sem = 1 ∧ ∀ i, ¬ inside i) ∨ (sem = 0 ∧ ∃ i, inside i ∧ ∀ j, inside j → j = i)

theorem Guards.exclusive {sem : Nat} {inside : ι → Prop} (h : Guards sem inside) {i j : ι}
    (hi : inside i) (hj : inside j) : i = j := by
  rcases h with ⟨-, hfree⟩ | ⟨-, k, -, honly⟩
  · exact absurd hi (hfree i)
  · exact (honly i hi).trans (honly j hj).symm

theorem Guards.keep {sem : Nat} {inside inside' : ι → Prop} (h : Guards sem inside)
    (hsame : ∀ i, inside' i ↔ inside i) : Guards sem inside' := by
  rwa [show inside' = inside from funext fun i => propext (hsame i)]

theorem Guards.acquire {sem : Nat} {inside inside' : ι → Prop} (h : Guards sem inside)
    (hsem : sem ≠ 0) {i : ι} (hi : inside' i) (hothers : ∀ j, j ≠ i → (inside' j ↔ inside j)) :
    Guards (sem - 1) inside' := by
  rcases h with ⟨rfl, hfree⟩ | ⟨hzero, -⟩
  · refine .inr ⟨rfl, i, hi, fun j hj => ?_⟩
    by_contra hne
    exact hfree j ((hothers j hne).mp hj)
  · exact absurd hzero hsem

theorem Guards.release {sem : Nat} {inside inside' : ι → Prop} (h : Guards sem inside) {i : ι}
    (hi : inside i) (hi' : ¬ inside' i) (hothers : ∀ j, j ≠ i → (inside' j ↔ inside j)) :
    Guards (sem + 1) inside' := by
  rcases h with ⟨-, hfree⟩ | ⟨rfl, k, -, honly⟩
  · exact absurd hi (hfree i)
  · refine .inl ⟨rfl, fun j hj => ?_⟩
    by_cases hji : j = i
    · exact hi' (hji ▸ hj)
    · exact hji ((honly j ((hothers j hji).mp hj)).trans (honly i hi).symm)

/-- The semaphore holds the number of processes of a group that are still to arrive. -/
def Counts (sem : Nat) (group : Finset ι) (early : ι → Prop) [DecidablePred early] : Prop :=
  sem = (group.filter early).card

theorem Counts.keep {sem : Nat} {group : Finset ι} {early early' : ι → Prop}
    [DecidablePred early] [DecidablePred early'] (h : Counts sem group early)
    (hsame : ∀ i ∈ group, (early' i ↔ early i)) : Counts sem group early' := by
  rw [Counts, Finset.filter_congr hsame]
  exact h

theorem Counts.arrive {sem : Nat} {group : Finset ι} {early early' : ι → Prop} [DecidableEq ι]
    [DecidablePred early] [DecidablePred early'] (h : Counts sem group early) {i : ι}
    (hi : i ∈ group) (hearly : early i) (hlate : ¬ early' i)
    (hothers : ∀ j, j ≠ i → (early' j ↔ early j)) : Counts (sem - 1) group early' := by
  have herase : group.filter early' = (group.filter early).erase i := by
    ext j
    rw [Finset.mem_erase, Finset.mem_filter, Finset.mem_filter]
    by_cases hji : j = i
    · subst hji
      exact iff_of_false (fun h => hlate h.2) fun h => h.1 rfl
    · rw [hothers j hji]
      exact ⟨fun h => ⟨hji, h⟩, fun h => h.2⟩
  rw [Counts, herase, Finset.card_erase_of_mem (Finset.mem_filter.mpr ⟨hi, hearly⟩), ← h]

theorem Counts.all_late {group : Finset ι} {early : ι → Prop} [DecidablePred early]
    (h : Counts 0 group early) {i : ι} (hi : i ∈ group) : ¬ early i := by
  have hempty : group.filter early = ∅ := Finset.card_eq_zero.mp h.symm
  exact fun hearly => Finset.notMem_empty i (hempty ▸ Finset.mem_filter.mpr ⟨hi, hearly⟩)

theorem Counts.exists_early {sem : Nat} {group : Finset ι} {early : ι → Prop}
    [DecidablePred early] (h : Counts sem group early) (hsem : sem ≠ 0) :
    ∃ i ∈ group, early i := by
  have hne : (group.filter early).Nonempty := Finset.card_pos.mp (h ▸ Nat.pos_of_ne_zero hsem)
  obtain ⟨i, hi⟩ := hne
  exact ⟨i, Finset.mem_filter.mp hi⟩

theorem Counts.pos {sem : Nat} {group : Finset ι} {early : ι → Prop} [DecidablePred early]
    (h : Counts sem group early) {i : ι} (hi : i ∈ group) (hearly : early i) : sem ≠ 0 := by
  rintro rfl
  exact h.all_late hi hearly

end MceTest.Library.Semaphore

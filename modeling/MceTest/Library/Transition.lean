import Mathlib.Data.List.Basic

/-! Runs of a system that takes one action after another, and their invariants. -/

namespace MceTest.Library.Transition

variable {σ α : Type}

/-- The states a system reaches by steps that meet a condition. -/
inductive Reaches (step : σ → α → Option σ) (ok : σ → α → Prop) (s : σ) : σ → Prop
  | refl : Reaches step ok s s
  | step {t u : σ} {a : α} :
    Reaches step ok s t → ok t a → step t a = some u → Reaches step ok s u

theorem Reaches.invariant {step : σ → α → Option σ} {ok : σ → α → Prop} {s t : σ}
    {inv : σ → Prop} (h : Reaches step ok s t) (hstart : inv s)
    (hstep : ∀ t a u, inv t → ok t a → step t a = some u → inv u) : inv t := by
  induction h with
  | refl => exact hstart
  | step _ hok hstep' ih => exact hstep _ _ _ ih hok hstep'

theorem Reaches.mono {step : σ → α → Option σ} {ok ok' : σ → α → Prop} {s t : σ}
    (h : Reaches step ok s t) (hok : ∀ t a, ok t a → ok' t a) : Reaches step ok' s t := by
  induction h with
  | refl => exact .refl
  | step _ hok' hstep ih => exact .step ih (hok _ _ hok') hstep

theorem Reaches.trans {step : σ → α → Option σ} {ok : σ → α → Prop} {s t u : σ}
    (h : Reaches step ok s t) (h' : Reaches step ok t u) : Reaches step ok s u := by
  induction h' with
  | refl => exact h
  | step _ hok hstep ih => exact .step ih hok hstep

/-- If every step makes a measure smaller, the system gets to where it has no step. -/
theorem exists_stuck {step : σ → α → Option σ} {ok : σ → α → Prop} {inv : σ → Prop}
    (measure : σ → Nat)
    (h : ∀ s a t, inv s → ok s a → step s a = some t → inv t ∧ measure t < measure s) {s : σ}
    (hs : inv s) : ∃ t, Reaches step ok s t ∧ inv t ∧ ∀ a, ok t a → step t a = none := by
  induction hn : measure s using Nat.strongRecOn generalizing s with
  | ind n ih =>
    by_cases hstuck : ∀ a, ok s a → step s a = none
    · exact ⟨s, .refl, hs, hstuck⟩
    · obtain ⟨a, hrest⟩ := not_forall.mp hstuck
      obtain ⟨hok, hstep⟩ := Classical.not_imp.mp hrest
      obtain ⟨t, ht⟩ := Option.ne_none_iff_exists'.mp hstep
      obtain ⟨hinv, hlt⟩ := h s a t hs hok ht
      obtain ⟨u, hreaches, hu⟩ := ih (measure t) (hn ▸ hlt) hinv rfl
      exact ⟨u, (Reaches.refl.step hok ht).trans hreaches, hu⟩

/-- The run of a list of actions that all meet the condition. -/
def run (step : σ → α → Option σ) (ok : σ → α → Prop) [∀ s a, Decidable (ok s a)] (s : σ) :
    List α → Option σ
  | [] => some s
  | a :: as => if ok s a then (step s a).bind fun t => run step ok t as else none

theorem reaches_of_run {step : σ → α → Option σ} {ok : σ → α → Prop}
    [∀ s a, Decidable (ok s a)] {s t : σ} {as : List α} (h : run step ok s as = some t) :
    Reaches step ok s t := by
  induction as generalizing s with
  | nil =>
    cases h
    exact .refl
  | cons a as ih =>
    rw [run] at h
    split at h
    · rename_i hok
      obtain ⟨u, hu, hrest⟩ := Option.bind_eq_some_iff.mp h
      exact (Reaches.refl.step hok hu).trans (ih hrest)
    · cases h

theorem exists_reaches {β : Type} {step : σ → α → Option σ} {ok : σ → α → Prop}
    [∀ s a, Decidable (ok s a)] {s : σ} {as : List α} {f : σ → β} {b : β}
    (h : (run step ok s as).map f = some b) : ∃ t, Reaches step ok s t ∧ f t = b := by
  obtain ⟨t, ht, hb⟩ := Option.map_eq_some_iff.mp h
  exact ⟨t, reaches_of_run ht, hb⟩

/-- If steps of a kind make a measure smaller, and others do not make it larger, a run has no more
of them than the measure allows. -/
theorem run_count {step : σ → α → Option σ} {ok : σ → α → Prop} [∀ s a, Decidable (ok s a)]
    {inv : σ → Prop} (measure : σ → Nat) (kind : α → Bool)
    (h : ∀ s a t, inv s → ok s a → step s a = some t →
      inv t ∧ measure t + (if kind a then 1 else 0) ≤ measure s)
    {s t : σ} {as : List α} (hs : inv s) (hrun : run step ok s as = some t) :
    inv t ∧ measure t + as.countP kind ≤ measure s := by
  induction as generalizing s with
  | nil =>
    cases hrun
    exact ⟨hs, Nat.le_refl _⟩
  | cons a as ih =>
    rw [run] at hrun
    split at hrun
    · rename_i hok
      obtain ⟨u, hu, hrest⟩ := Option.bind_eq_some_iff.mp hrun
      obtain ⟨hinv, hle⟩ := h s a u hs hok hu
      obtain ⟨hinv', hle'⟩ := ih hinv hrest
      refine ⟨hinv', ?_⟩
      rw [List.countP_cons]
      omega
    · cases hrun

end MceTest.Library.Transition

import Mathlib.Data.Option.Basic

/-! Counted loops whose body may have no defined result. -/

namespace MceTest.Library.Counted

variable {σ : Type}

/-- What the turns `0 … n - 1` of the body make of a state. -/
def counted (body : Nat → σ → Option σ) : Nat → σ → Option σ
  | 0, s => some s
  | n + 1, s => (counted body n s).bind (body n)

/-- The invariant rule: a turn has a result and takes the invariant one turn further. -/
theorem counted_inv (inv : Nat → σ → Prop) {body : Nat → σ → Option σ} {n : Nat} {s : σ}
    (hinit : inv 0 s)
    (hturn : ∀ i < n, ∀ t, inv i t → ∃ t', body i t = some t' ∧ inv (i + 1) t') :
    ∃ t, counted body n s = some t ∧ inv n t := by
  induction n with
  | zero => exact ⟨s, rfl, hinit⟩
  | succ n ih =>
    obtain ⟨t, ht, hinv⟩ := ih fun i hi => hturn i (Nat.lt_succ_of_lt hi)
    obtain ⟨t', ht', hinv'⟩ := hturn n (Nat.lt_succ_self n) t hinv
    refine ⟨t', ?_, hinv'⟩
    rw [counted, ht, Option.bind_some, ht']

theorem counted_none {body : Nat → σ → Option σ} {i n : Nat} {s : σ} (hi : i < n)
    (hturn : ∀ t, body i t = none) : counted body n s = none := by
  induction n with
  | zero => exact absurd hi (Nat.not_lt_zero i)
  | succ n ih =>
    rw [counted]
    rcases Nat.lt_succ_iff_lt_or_eq.mp hi with hlt | rfl
    · rw [ih hlt, Option.bind_none]
    · cases counted body i s with
      | none => rfl
      | some t => exact hturn t

end MceTest.Library.Counted

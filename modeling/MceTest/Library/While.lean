import Mathlib.Data.Sum.Basic

/-! Loops, given by what one turn does: go on with a new state or end with a result. -/

namespace MceTest.Library.While

variable {σ β : Type}

def loop (turn : σ → σ ⊕ β) : Nat → σ → Option β
  | 0, _ => none
  | fuel + 1, s =>
    match turn s with
    | .inl s' => loop turn fuel s'
    | .inr b => some b

def Ends (turn : σ → σ ⊕ β) (s : σ) (b : β) : Prop := ∃ fuel, loop turn fuel s = some b

/-- The state after some turns, if the loop has not ended by then. -/
def turns (turn : σ → σ ⊕ β) : Nat → σ → Option σ
  | 0, s => some s
  | n + 1, s =>
    match turn s with
    | .inl s' => turns turn n s'
    | .inr _ => none

variable {turn : σ → σ ⊕ β} {s s' : σ} {b : β}

theorem Ends.stop (h : turn s = .inr b) : Ends turn s b := ⟨1, by rw [loop, h]⟩

theorem Ends.next (h : turn s = .inl s') (hs : Ends turn s' b) : Ends turn s b := by
  obtain ⟨fuel, hs⟩ := hs
  exact ⟨fuel + 1, by rw [loop, h]; exact hs⟩

theorem loop_add {fuel : Nat} (h : loop turn fuel s = some b) (n : Nat) :
    loop turn (fuel + n) s = some b := by
  induction fuel generalizing s with
  | zero => cases h
  | succ fuel ih =>
    rw [Nat.succ_add, loop]
    rw [loop] at h
    cases hturn : turn s with
    | inl t =>
      rw [hturn] at h
      exact ih h
    | inr b' =>
      rw [hturn] at h
      exact h

theorem Ends.unique {b' : β} (h : Ends turn s b) (h' : Ends turn s b') : b = b' := by
  obtain ⟨n, hn⟩ := h
  obtain ⟨m, hm⟩ := h'
  have hnm := loop_add hn m
  rw [Nat.add_comm, loop_add hm n] at hnm
  exact (Option.some.inj hnm).symm

theorem not_ends {inv : σ → Prop} (h : ∀ s, inv s → ∃ s', turn s = .inl s' ∧ inv s')
    (hs : inv s) : ¬ Ends turn s b := by
  rintro ⟨fuel, hfuel⟩
  induction fuel generalizing s with
  | zero => cases hfuel
  | succ fuel ih =>
    obtain ⟨s', hturn, hs'⟩ := h s hs
    rw [loop, hturn] at hfuel
    exact ih hs' hfuel

theorem turns_next {n : Nat} {t : σ} (h : turn s = .inl s') (hs : turns turn n s' = some t) :
    turns turn (n + 1) s = some t := by
  rw [turns, h]
  exact hs

theorem turns_add {n m : Nat} (h : turns turn n s = some s') :
    turns turn (n + m) s = turns turn m s' := by
  induction n generalizing s with
  | zero =>
    cases h
    rw [Nat.zero_add]
  | succ n ih =>
    rw [Nat.succ_add, turns]
    rw [turns] at h
    cases hturn : turn s with
    | inl t =>
      rw [hturn] at h
      exact ih h
    | inr b =>
      rw [hturn] at h
      cases h

end MceTest.Library.While

import Mathlib.Data.List.Basic

/-! Runs of a system that is restarted from the state its last run left behind. -/

namespace MceTest.Library.Restart

variable {σ β : Type}

/-- A run from a state: its record, and the state it is restarted from, if it is. -/
def restarts (run : σ → β × Option σ) : Nat → σ → Option (List β)
  | 0, _ => none
  | fuel + 1, s =>
    match run s with
    | (b, none) => some [b]
    | (b, some s') => (restarts run fuel s').map (b :: ·)

end MceTest.Library.Restart

import Mathlib.Logic.Function.Basic

/-! A semaphore whose operations are undone when the process that made them ends. -/

namespace MceTest.Library.SemUndo

variable {ι : Type} [DecidableEq ι]

/-- The value, and for each process what its end will add to it. -/
structure Sem (ι : Type) where
  value : Nat
  semadj : ι → Int

/-- `SETVAL` forgets what was to be undone. -/
def Sem.set (value : Nat) : Sem ι where
  value
  semadj := fun _ => 0

def Sem.get (s : Sem ι) (i : ι) : Option (Sem ι) :=
  if s.value = 0 then none
  else some
    { value := s.value - 1
      semadj := Function.update s.semadj i (s.semadj i + 1) }

def Sem.put (s : Sem ι) (i : ι) : Sem ι where
  value := s.value + 1
  semadj := Function.update s.semadj i (s.semadj i - 1)

/-- The end of a process; the value does not get negative. -/
def Sem.leave (s : Sem ι) (i : ι) : Sem ι where
  value := (s.value + s.semadj i).toNat
  semadj := Function.update s.semadj i 0

theorem Sem.get_some {s t : Sem ι} {i : ι} (h : s.get i = some t) : s.value = t.value + 1 := by
  rw [get] at h
  split at h
  · cases h
  · rename_i hvalue
    cases h
    exact (Nat.sub_add_cancel (Nat.pos_of_ne_zero hvalue)).symm

theorem Sem.get_none {s : Sem ι} {i : ι} : s.get i = none ↔ s.value = 0 := by
  rw [get]
  split <;> simp [*]

end MceTest.Library.SemUndo

import MceTest.Hwpoison.Inject
import MceTest.Library.While

/-! The loop of `pfn_inj` for the page type `all`. -/

namespace MceTest.Hwpoison

open MceTest.Library.Numeral MceTest.Library.While MceTest.PageTypes

/-- The frame numbers `setup_meminfo` computes, which are shell integers. -/
structure MemInfo where
  lowmemS : Nat
  lowmemE : Nat
  highmemS : Nat
  highmemE : Nat
  maxpfn : Nat
  low : lowmemS ≤ lowmemE
  hole : lowmemE < highmemS
  high : highmemS ≤ highmemE
  integer : highmemE < 2 ^ 63

/-- The variables of the loop, how often it has read the clock, and what it has given to
`$inj`. -/
structure FullPass where
  pfn : Nat
  i : Nat
  readings : Nat
  injected : List (List Char)

def FullPass.start (m : MemInfo) : FullPass where
  pfn := m.lowmemS
  i := 0
  readings := 0
  injected := []

/-- The argument of `$inj`: `0x$pg` with the `pg` that `printf "%x" $pfn` prints. -/
def injArg (pfn : Nat) : List Char := '0' :: 'x' :: printfX (decText pfn)

/-- The two assignments to `pfn` in the body. -/
def MemInfo.next (m : MemInfo) (pfn : Nat) : Nat :=
  let pfn := pfn + 1
  if pfn > m.lowmemE then m.highmemS else pfn

def FullPass.turn (m : MemInfo) (progress timeE : Nat) (clock : Nat → Nat) (s : FullPass) :
    FullPass ⊕ List (List Char) :=
  if s.pfn < m.maxpfn then
    let injected := s.injected ++ [injArg s.pfn]
    let pfn := m.next s.pfn
    if pfn > m.highmemE then .inr injected
    else
      let i := s.i + 1
      if i = progress then
        if clock s.readings ≥ timeE then .inr injected
        else .inl { pfn, i := 0, readings := s.readings + 1, injected }
      else .inl { pfn, i, readings := s.readings, injected }
  else .inr s.injected

/-- The frames of the two ranges that are below the frame count. -/
def MemInfo.Covered (m : MemInfo) (p : Nat) : Prop :=
  p < m.maxpfn ∧ (m.lowmemS ≤ p ∧ p ≤ m.lowmemE ∨ m.highmemS ≤ p ∧ p ≤ m.highmemE)

/-- The numbers injected are those of the covered frames, each once and in order. -/
def CoversOnce (m : MemInfo) (injected : List (List Char)) : Prop :=
  ∃ frames : List Nat, List.Forall₂ CNumber injected frames ∧ frames.Pairwise (· < ·) ∧
    ∀ p, p ∈ frames ↔ m.Covered p

variable {m : MemInfo} (progress : Nat) {timeE : Nat} {clock : Nat → Nat} {s : FullPass}

theorem turn_next (hclock : ∀ k, clock k < timeE) (hlt : s.pfn < m.maxpfn) :
    ∃ i readings, s.turn m progress timeE clock =
      .inl ⟨m.next s.pfn, i, readings, s.injected ++ [injArg s.pfn]⟩ := by
  have hnext : ¬ m.next s.pfn > m.highmemE := by
    have := m.hole
    have := m.high
    rw [MemInfo.next]
    split <;> omega
  rw [FullPass.turn, if_pos hlt]
  dsimp only
  rw [if_neg hnext, if_neg (hclock s.readings).not_ge]
  split
  · exact ⟨_, _, rfl⟩
  · exact ⟨_, _, rfl⟩

theorem turn_stop (h : m.maxpfn ≤ s.pfn) :
    s.turn m progress timeE clock = .inr s.injected := by
  rw [FullPass.turn, if_neg h.not_gt]

theorem low_ends (hclock : ∀ k, clock k < timeE) (hmax : m.maxpfn ≤ m.highmemS) {d : Nat}
    (hlow : s.pfn ≤ m.lowmemE) (hd : min (m.lowmemE + 1) m.maxpfn - s.pfn = d) :
    Ends (FullPass.turn m progress timeE clock) s
      (s.injected ++ (List.range' s.pfn d).map injArg) := by
  induction d generalizing s with
  | zero =>
    rw [List.range'_zero, List.map_nil, List.append_nil]
    exact .stop (turn_stop progress (by omega))
  | succ d ih =>
    obtain ⟨i, readings, hturn⟩ := turn_next progress (s := s) hclock
      (show s.pfn < m.maxpfn by omega)
    refine .next hturn ?_
    by_cases hlast : s.pfn = m.lowmemE
    · have hhigh : m.next s.pfn = m.highmemS := if_pos (by omega)
      obtain rfl : d = 0 := by omega
      rw [hhigh]
      exact .stop (turn_stop progress hmax)
    · have hmore : m.next s.pfn = s.pfn + 1 := if_neg (by omega)
      have hrest := ih (s := ⟨s.pfn + 1, i, readings, s.injected ++ [injArg s.pfn]⟩)
        (show s.pfn + 1 ≤ m.lowmemE by omega) (show _ - (s.pfn + 1) = d by omega)
      rw [hmore, List.range'_succ, List.map_cons,
        List.append_cons s.injected _ ((List.range' (s.pfn + 1) d).map injArg)]
      exact hrest

theorem injArg_number {p : Nat} (hp : p < 2 ^ 63) : CNumber (injArg p) p := by
  have htext : printfX (decText p) = hexText p := by
    rw [printfX, decText, (cNumber_decimal p).strtoull, Nat.min_eq_left (by omega)]
  rw [injArg, htext]
  exact cNumber_hex p

theorem low_covers (hmax : m.maxpfn ≤ m.highmemS) :
    CoversOnce m ((List.range' m.lowmemS (min (m.lowmemE + 1) m.maxpfn - m.lowmemS)).map
      injArg) := by
  refine ⟨List.range' m.lowmemS (min (m.lowmemE + 1) m.maxpfn - m.lowmemS), ?_,
    List.pairwise_lt_range', fun p => ?_⟩
  · rw [List.forall₂_map_left_iff, List.forall₂_same]
    intro p hp
    rw [List.mem_range'_1] at hp
    have := m.hole
    have := m.high
    have := m.integer
    exact injArg_number (by omega)
  · rw [List.mem_range'_1, MemInfo.Covered]
    omega

def InPass (m : MemInfo) (s : FullPass) : Prop := s.pfn ≤ m.lowmemE ∨ s.pfn = m.highmemS

theorem InPass.turn (hclock : ∀ k, clock k < timeE) (hmax : m.highmemS < m.maxpfn)
    (hs : InPass m s) : ∃ s', s.turn m progress timeE clock = .inl s' ∧ InPass m s' := by
  have hlt : s.pfn < m.maxpfn := by
    have := m.hole
    rcases hs with hs | hs <;> omega
  obtain ⟨i, readings, hturn⟩ := turn_next progress (s := s) hclock hlt
  refine ⟨_, hturn, ?_⟩
  change m.next s.pfn ≤ m.lowmemE ∨ m.next s.pfn = m.highmemS
  rw [MemInfo.next]
  split <;> omega

/-- With a frame behind the hole the loop has no end. -/
theorem endless (hclock : ∀ k, clock k < timeE) (hmax : m.highmemS < m.maxpfn)
    (injected : List (List Char)) :
    ¬ Ends (FullPass.turn m progress timeE clock) (.start m) injected :=
  not_ends (fun _ => InPass.turn progress hclock hmax) (.inl m.low)

/-- A pass that the time limit does not end ends by itself, and then covers the memory once, if
and only if there is no frame behind the hole to be injected. -/
theorem fullPass_iff (hclock : ∀ k, clock k < timeE) :
    (∃ injected, Ends (FullPass.turn m progress timeE clock) (.start m) injected ∧
      CoversOnce m injected) ↔ m.maxpfn ≤ m.highmemS := by
  constructor
  · rintro ⟨injected, hends, -⟩
    by_contra hmax
    exact endless progress hclock (not_le.mp hmax) injected hends
  · intro hmax
    have hlow : (FullPass.start m).pfn ≤ m.lowmemE := m.low
    exact ⟨_, low_ends progress hclock hmax hlow rfl, low_covers hmax⟩

theorem high_again (hclock : ∀ k, clock k < timeE) (hmax : m.highmemS < m.maxpfn)
    (hs : s.pfn = m.highmemS) (n : Nat) :
    ∃ s', turns (FullPass.turn m progress timeE clock) n s = some s' ∧
      s'.injected = s.injected ++ List.replicate n (injArg m.highmemS) := by
  induction n generalizing s with
  | zero => exact ⟨s, rfl, by rw [List.replicate_zero, List.append_nil]⟩
  | succ n ih =>
    obtain ⟨i, readings, hturn⟩ := turn_next progress (s := s) hclock (hs ▸ hmax)
    have hsame : m.next s.pfn = m.highmemS := if_pos (by have := m.hole; omega)
    obtain ⟨s', hturns, hinjected⟩ := ih
      (s := ⟨m.next s.pfn, i, readings, s.injected ++ [injArg s.pfn]⟩) hsame
    refine ⟨s', turns_next hturn hturns, ?_⟩
    rw [hinjected, hs, List.replicate_succ, List.append_assoc, List.singleton_append]

theorem reaches_high (hclock : ∀ k, clock k < timeE) (hmax : m.highmemS < m.maxpfn)
    {d : Nat} (hd : s.pfn + d = m.lowmemE) :
    ∃ n s', turns (FullPass.turn m progress timeE clock) n s = some s' ∧
      s'.pfn = m.highmemS := by
  have hhole := m.hole
  induction d generalizing s with
  | zero =>
    obtain ⟨i, readings, hturn⟩ := turn_next progress (s := s) hclock (m := m)
      (by omega)
    exact ⟨1, _, turns_next hturn rfl, if_pos (by omega)⟩
  | succ d ih =>
    obtain ⟨i, readings, hturn⟩ := turn_next progress (s := s) hclock (m := m)
      (by omega)
    have hmore : m.next s.pfn = s.pfn + 1 := if_neg (by omega)
    obtain ⟨n, s', hturns, hs'⟩ := ih
      (s := ⟨m.next s.pfn, i, readings, s.injected ++ [injArg s.pfn]⟩)
      (show m.next s.pfn + d = m.lowmemE by omega)
    exact ⟨n + 1, s', turns_next hturn hturns, hs'⟩

theorem repeats (hclock : ∀ k, clock k < timeE) (hmax : m.highmemS < m.maxpfn) (n : Nat) :
    ∃ k s, turns (FullPass.turn m progress timeE clock) k (.start m) = some s ∧
      List.replicate n (injArg m.highmemS) <:+ s.injected := by
  have hlow : (FullPass.start m).pfn + (m.lowmemE - m.lowmemS) = m.lowmemE :=
    Nat.add_sub_cancel' m.low
  obtain ⟨k, s, hturns, hs⟩ := reaches_high progress hclock hmax hlow
  obtain ⟨t, hmore, ht⟩ := high_again progress hclock hmax hs n
  exact ⟨k + n, t, by rw [turns_add hturns, hmore], s.injected, ht.symm⟩

def eightGiB : MemInfo where
  lowmemS := 256
  lowmemE := 0xbffff
  highmemS := 0x100000
  highmemE := 0x23ffff
  maxpfn := 2025000
  low := by decide
  hole := by decide
  high := by decide
  integer := by decide

/-- The same machine with all its memory below the hole: the pass ends. -/
def threeGiB : MemInfo := { eightGiB with maxpfn := 780000 }

theorem fullPass_threeGiB : (∀ _ : Nat, 0 < 120) ∧
    ∃ injected, Ends (FullPass.turn threeGiB 1200 120 fun _ => 0) (.start threeGiB) injected ∧
      CoversOnce threeGiB injected :=
  ⟨fun _ => by decide, (fullPass_iff 1200 fun _ => by decide).mpr (by decide)⟩

/-- The pass has no end if half of the memory is behind the hole:
it injects the first frame there again and again. -/
theorem eightGiB_endless :
    (¬ ∃ injected, Ends (FullPass.turn eightGiB 1200 120 fun _ => 0) (.start eightGiB) injected ∧
      CoversOnce eightGiB injected) ∧
    ∀ n, ∃ k s, turns (FullPass.turn eightGiB 1200 120 fun _ => 0) k (.start eightGiB) = some s ∧
      List.replicate n (injArg 0x100000) <:+ s.injected := by
  have hclock : ∀ _ : Nat, 0 < 120 := fun _ => by decide
  have hmax : eightGiB.highmemS < eightGiB.maxpfn := by decide
  refine ⟨fun ⟨injected, hends, _⟩ => endless 1200 hclock hmax injected hends, fun n => ?_⟩
  exact repeats 1200 hclock hmax n

end MceTest.Hwpoison

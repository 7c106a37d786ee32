import MceTest.Library.CInt
import MceTest.Library.Counted
import Mathlib.Logic.Function.Basic

/-! The access loops of `hugepage.h`. Addresses are offsets from the head of the range. -/

namespace MceTest.Thugetlb

open MceTest.Library.CInt MceTest.Library.Counted

/-- The bytes of the process, and the addresses it has accessed. -/
structure Memory where
  bytes : Nat → UInt8
  touched : List Nat

def Memory.store (m : Memory) (a : Nat) (b : UInt8) : Memory where
  bytes := Function.update m.bytes a b
  touched := a :: m.touched

def Memory.touch (m : Memory) (a : Nat) : Memory := { m with touched := a :: m.touched }

/-- `(char)('a' + ((i + j) % 26))` -/
def letter (i j : Nat) : UInt8 := UInt8.ofNat (97 + (i + j) % 26)

/-- The loop over the bytes of page `i`, which starts at `base`. -/
def writeBytes (base i : Nat) : Nat → Memory → Option Memory :=
  counted fun j m => some (m.store (base + j) (letter i j))

/-- `write_hugepage`; no result if `i * HPS` overflows. -/
def writeHugepage (hps nr : Nat) (avoid : Option Int) : Memory → Option Memory :=
  counted (fun i m =>
    (intMul i hps).bind fun base =>
      if avoid = some base then some m else writeBytes base.toNat i hps m) nr

/-- The loop over the bytes of page `i` from byte `j` on: the place of the first mismatch. -/
def readBytes (base i : Nat) : Nat → Nat → Memory → Option Nat × Memory
  | _, 0, m => (none, m)
  | j, n + 1, m =>
    if m.bytes (base + j) ≠ letter i j then (some (i + j), m.touch (base + j))
    else readBytes base i (j + 1) n (m.touch (base + j))

structure Reading where
  mismatches : List Nat
  ret : Int
  memory : Memory

/-- `read_hugepage`; no result if `i * HPS` overflows. -/
def readHugepage (hps nr : Nat) (avoid : Option Int) (m : Memory) : Option Reading :=
  counted (fun i r =>
    (intMul i hps).map fun base =>
      if avoid = some base then r
      else
        match readBytes base.toNat i 0 hps r.memory with
        | (none, m) => { r with memory := m }
        | (some k, m) => { mismatches := r.mismatches ++ [k], ret := -1, memory := m })
    nr { mismatches := [], ret := 0, memory := m }

/-- The addresses of the pages that the loops do not skip. -/
def Visited (hps nr : Nat) (avoid : Option Int) (a : Nat) : Prop :=
  a < nr * hps ∧ avoid ≠ some ((a / hps : Nat) * hps : Int)

instance (hps nr : Nat) (avoid : Option Int) (a : Nat) : Decidable (Visited hps nr avoid a) :=
  inferInstanceAs (Decidable (_ ∧ _))

variable {hps nr : Nat} {avoid : Option Int} {m : Memory}

theorem visited_zero (a : Nat) : ¬ Visited hps 0 avoid a := by
  rintro ⟨h, -⟩
  rw [Nat.zero_mul] at h
  exact absurd h (Nat.not_lt_zero a)

theorem visited_succ (hhps : 0 < hps) (i a : Nat) :
    Visited hps (i + 1) avoid a ↔
      Visited hps i avoid a ∨ a / hps = i ∧ avoid ≠ some (i * hps : Int) := by
  rw [Visited, Visited, ← Nat.div_lt_iff_lt_mul hhps, ← Nat.div_lt_iff_lt_mul hhps,
    Nat.lt_succ_iff_lt_or_eq]
  constructor
  · rintro ⟨hlt | rfl, hne⟩
    · exact .inl ⟨hlt, hne⟩
    · exact .inr ⟨rfl, hne⟩
  · rintro (⟨hlt, hne⟩ | ⟨rfl, hne⟩)
    · exact ⟨.inl hlt, hne⟩
    · exact ⟨.inr rfl, hne⟩

theorem visited_skip (hhps : 0 < hps) {i : Nat} (hskip : avoid = some (i * hps : Int)) (a : Nat) :
    Visited hps (i + 1) avoid a ↔ Visited hps i avoid a := by
  rw [visited_succ hhps]
  exact or_iff_left fun h => h.2 hskip

theorem visited_keep (hhps : 0 < hps) {i : Nat} (hkeep : avoid ≠ some (i * hps : Int)) (a : Nat) :
    Visited hps (i + 1) avoid a ↔ Visited hps i avoid a ∨ a / hps = i := by
  rw [visited_succ hhps, and_iff_left hkeep]

/-- What the loops have to leave on an address. -/
def patternAt (hps a : Nat) : UInt8 := letter (a / hps) (a % hps)

theorem patternAt_page (i : Nat) {j : Nat} (hj : j < hps) :
    patternAt hps (i * hps + j) = letter i j := by
  rw [patternAt, Nat.mul_comm, Nat.mul_add_div (Nat.zero_lt_of_lt hj), Nat.div_eq_of_lt hj,
    Nat.mul_add_mod, Nat.mod_eq_of_lt hj, Nat.add_zero]

structure Written (hps : Nat) (range : Nat → Prop) (m m' : Memory) : Prop where
  inside : ∀ a, range a → m'.bytes a = patternAt hps a
  outside : ∀ a, ¬ range a → m'.bytes a = m.bytes a
  touched : ∀ a, a ∈ m'.touched ↔ a ∈ m.touched ∨ range a

theorem written_none {range : Nat → Prop} (h : ∀ a, ¬ range a) : Written hps range m m where
  inside := fun a ha => absurd ha (h a)
  outside := fun _ _ => rfl
  touched := fun a => (or_iff_left (h a)).symm

theorem Written.congr {range range' : Nat → Prop} {m' : Memory} (h : Written hps range m m')
    (hrange : ∀ a, range a ↔ range' a) : Written hps range' m m' := by
  obtain rfl : range = range' := funext fun a => propext (hrange a)
  exact h

theorem Written.trans {range range' : Nat → Prop} {m' m'' : Memory}
    (h : Written hps range m m') (h' : Written hps range' m' m'') :
    Written hps (fun a => range a ∨ range' a) m m'' where
  inside := by
    intro a ha
    by_cases hlast : range' a
    · exact h'.inside a hlast
    · rw [h'.outside a hlast]
      exact h.inside a (ha.resolve_right hlast)
  outside := by
    intro a ha
    rw [not_or] at ha
    rw [h'.outside a ha.2, h.outside a ha.1]
  touched := by
    intro a
    rw [h'.touched, h.touched, or_assoc]

theorem store_written (m : Memory) (a : Nat) :
    Written hps (· = a) m (m.store a (patternAt hps a)) where
  inside := by
    rintro b rfl
    exact Function.update_self ..
  outside := fun b hb => Function.update_of_ne hb ..
  touched := by
    intro b
    rw [Memory.store, List.mem_cons, or_comm]

theorem page_succ (i : Nat) {j : Nat} (hj : j < hps) (a : Nat) :
    a / hps = i ∧ a % hps < j + 1 ↔ (a / hps = i ∧ a % hps < j) ∨ a = i * hps + j := by
  have hsplit := Nat.div_add_mod' a hps
  rw [Nat.lt_succ_iff_lt_or_eq, and_or_left, or_congr_right]
  constructor
  · rintro ⟨rfl, rfl⟩
    exact hsplit.symm
  · rintro rfl
    rw [Nat.mul_comm, Nat.mul_add_div (Nat.zero_lt_of_lt hj), Nat.div_eq_of_lt hj,
      Nat.mul_add_mod, Nat.mod_eq_of_lt hj]
    exact ⟨rfl, rfl⟩

theorem writeBytes_written (hhps : 0 < hps) (i : Nat) (m : Memory) :
    ∃ m', writeBytes (i * hps) i hps m = some m' ∧ Written hps (fun a => a / hps = i) m m' := by
  obtain ⟨m', hm', hwritten⟩ : ∃ m', writeBytes (i * hps) i hps m = some m' ∧
      Written hps (fun a => a / hps = i ∧ a % hps < hps) m m' := by
    apply counted_inv fun j m' => Written hps (fun a => a / hps = i ∧ a % hps < j) m m'
    · exact written_none fun a ha => Nat.not_lt_zero _ ha.2
    · intro j hj m₁ h₁
      refine ⟨_, rfl, ?_⟩
      rw [← patternAt_page i hj]
      exact (h₁.trans (store_written m₁ _)).congr fun a => (page_succ i hj a).symm
  exact ⟨m', hm', hwritten.congr fun a => and_iff_left (Nat.mod_lt a hhps)⟩

theorem intMul_page {i : Nat} (hi : i * hps < 2 ^ 31) :
    intMul i hps = some (i * hps : Int) := by
  have hint : IsInt (i * hps : Int) := by
    rw [IsInt, ← Int.natCast_mul]
    omega
  rw [intMul, if_pos hint]

theorem writeHugepage_written (hhps : 0 < hps) (hnr : (nr - 1) * hps < 2 ^ 31) (m : Memory) :
    ∃ m', writeHugepage hps nr avoid m = some m' ∧ Written hps (Visited hps nr avoid) m m' := by
  apply counted_inv fun i m' => Written hps (Visited hps i avoid) m m'
  · exact written_none visited_zero
  · intro i hi m₁ h₁
    have hint : intMul i hps = some (i * hps : Int) :=
      intMul_page (Nat.lt_of_le_of_lt (Nat.mul_le_mul_right hps (Nat.le_sub_one_of_lt hi)) hnr)
    rw [hint, Option.bind_some]
    by_cases hskip : avoid = some (i * hps : Int)
    · rw [if_pos hskip]
      exact ⟨m₁, rfl, h₁.congr fun a => (visited_skip hhps hskip a).symm⟩
    · rw [if_neg hskip, ← Int.natCast_mul, Int.toNat_natCast]
      obtain ⟨m₂, hm₂, h₂⟩ := writeBytes_written hhps i m₁
      exact ⟨m₂, hm₂, (h₁.trans h₂).congr fun a => (visited_keep hhps hskip a).symm⟩

theorem writeHugepage_undefined {i : Nat} (hi : i < nr) (hover : 2 ^ 31 ≤ i * hps) :
    writeHugepage hps nr avoid m = none := by
  have hint : ¬ IsInt (i * hps : Int) := by
    rw [IsInt, ← Int.natCast_mul]
    omega
  refine counted_none hi fun m' => ?_
  rw [intMul, if_neg hint, Option.bind_none]

theorem readBytes_touched (base i : Nat) {j n : Nat} {m : Memory}
    (h : ∀ k, j ≤ k → k < j + n → m.bytes (base + k) = letter i k) :
    ∃ m', readBytes base i j n m = (none, m') ∧ m'.bytes = m.bytes ∧
      ∀ a, a ∈ m'.touched ↔ a ∈ m.touched ∨ base + j ≤ a ∧ a < base + j + n := by
  induction n generalizing j m with
  | zero => exact ⟨m, rfl, rfl, fun a => (or_iff_left (by omega)).symm⟩
  | succ n ih =>
    obtain ⟨m', hm', hbytes, htouched⟩ := ih (j := j + 1) (m := m.touch (base + j))
      fun k hk hk' => h k (by omega) (by omega)
    refine ⟨m', ?_, hbytes, fun a => ?_⟩
    · rw [readBytes, if_neg (not_not.mpr (h j (Nat.le_refl j) (by omega)))]
      exact hm'
    · rw [htouched, Memory.touch, List.mem_cons, or_comm (a := a = base + j), or_assoc]
      refine or_congr_right ?_
      omega

structure Intact (range : Nat → Prop) (m : Memory) (r : Reading) : Prop where
  ret : r.ret = 0
  mismatches : r.mismatches = []
  bytes : r.memory.bytes = m.bytes
  touched : ∀ a, a ∈ r.memory.touched ↔ a ∈ m.touched ∨ range a

theorem readHugepage_intact (hhps : 0 < hps) (hnr : (nr - 1) * hps < 2 ^ 31)
    (h : ∀ a, Visited hps nr avoid a → m.bytes a = patternAt hps a) :
    ∃ r, readHugepage hps nr avoid m = some r ∧ Intact (Visited hps nr avoid) m r := by
  apply counted_inv fun i r => Intact (Visited hps i avoid) m r
  · exact ⟨rfl, rfl, rfl, fun a => (or_iff_left (visited_zero a)).symm⟩
  · intro i hi r hr
    have hint : intMul i hps = some (i * hps : Int) :=
      intMul_page (Nat.lt_of_le_of_lt (Nat.mul_le_mul_right hps (Nat.le_sub_one_of_lt hi)) hnr)
    rw [hint, Option.map_some]
    by_cases hskip : avoid = some (i * hps : Int)
    · rw [if_pos hskip]
      refine ⟨r, rfl, hr.ret, hr.mismatches, hr.bytes, fun a => ?_⟩
      rw [hr.touched, visited_skip hhps hskip]
    · rw [if_neg hskip, ← Int.natCast_mul, Int.toNat_natCast]
      have hpage (j : Nat) (hj : j < hps) : r.memory.bytes (i * hps + j) = letter i j := by
        have hdiv : (i * hps + j) / hps = i := ((page_succ i hj _).mpr (.inr rfl)).1
        rw [hr.bytes, ← patternAt_page i hj]
        refine h _ ⟨(Nat.div_lt_iff_lt_mul hhps).mp (hdiv.symm ▸ hi), ?_⟩
        rw [hdiv]
        exact hskip
      obtain ⟨m', hm', hbytes, htouched⟩ := readBytes_touched (i * hps) i (j := 0) (n := hps)
        fun j _ hj => hpage j (by omega)
      rw [hm']
      refine ⟨_, rfl, hr.ret, hr.mismatches, hbytes.trans hr.bytes, fun a => ?_⟩
      rw [htouched, hr.touched, visited_keep hhps hskip, or_assoc, Nat.div_eq_iff hhps,
        Nat.add_zero, Nat.lt_iff_le_pred (Nat.add_pos_right _ hhps)]

end MceTest.Thugetlb

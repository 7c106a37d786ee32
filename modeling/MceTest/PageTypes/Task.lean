import MceTest.Library.Interval
import MceTest.PageTypes.Show
import Mathlib.Logic.Function.Basic
import Mathlib.Data.List.GetD

/-! The VMA table of a process and the walk of its address space. -/

namespace MceTest.PageTypes

open MceTest.Library.Interval

def maxVmas : Nat := 10240

/-- `pg_start` and `pg_end` are static arrays, so zero where no VMA was stored. -/
structure VmaTable where
  nrVmas : Nat := 0
  pgStart : Nat → Nat := fun _ => 0
  pgEnd : Nat → Nat := fun _ => 0

/-- A line of `/proc/pid/maps`: the two addresses if `sscanf` finds all ten fields. -/
inductive MapsLine
  | vma (vmStart vmEnd : Nat)
  | unexpected (text : List Char)

inductive MapsWarning
  | unexpectedLine (text : List Char)
  | tooManyVmas

def VmaTable.store (t : VmaTable) (pageSize vmStart vmEnd : Nat) : VmaTable where
  nrVmas := t.nrVmas + 1
  pgStart := Function.update t.pgStart t.nrVmas (vmStart / pageSize)
  pgEnd := Function.update t.pgEnd t.nrVmas (vmEnd / pageSize)

/-- The loop of `parse_pid` over the lines of the maps file. -/
def parsePid (pageSize : Nat) (t : VmaTable) : List MapsLine → VmaTable × List MapsWarning
  | [] => (t, [])
  | .unexpected text :: lines =>
    let r := parsePid pageSize t lines
    (r.1, .unexpectedLine text :: r.2)
  | .vma vmStart vmEnd :: lines =>
    let t := t.store pageSize vmStart vmEnd
    if t.nrVmas ≥ maxVmas then (t, [.tooManyVmas]) else parsePid pageSize t lines

/-- What `walk_task` does: the table slots it reads, the `(start, length)` pairs it
passes to `walk_vma`, and whether it aborts in its assertion. -/
structure TaskWalk where
  slots : List Nat := []
  pieces : List (Nat × Nat) := []
  assertFailed : Bool := false

/-- The inner loop: the slots of `pg_end` it reads, and the cursor unless it returns. -/
def skipVmas (t : VmaTable) (index i : Nat) : List Nat × Option Nat :=
  if t.pgEnd i ≤ index then
    if i + 1 ≥ t.nrVmas then ([i], none)
    else
      let r := skipVmas t index (i + 1)
      (i :: r.1, r.2)
  else ([i], some i)
termination_by t.nrVmas - i

def walkTaskLoop (t : VmaTable) (end_ index i : Nat) : TaskWalk :=
  if index < end_ then
    match skipVmas t index i with
    | (slots, none) => { slots }
    | (slots, some i) =>
      if t.pgStart i ≥ end_ then { slots := slots ++ [i] }
      else
        let start := max (t.pgStart i) index
        let index' := min (t.pgEnd i) end_
        if start < index' then
          let rest := walkTaskLoop t end_ index' i
          { slots := slots ++ i :: rest.slots
            pieces := (start, index' - start) :: rest.pieces
            assertFailed := rest.assertFailed }
        else { slots := slots ++ [i], assertFailed := true }
  else {}
termination_by end_ - index

def walkTask (t : VmaTable) (index count : Nat) : TaskWalk :=
  walkTaskLoop t (ulong (index + count)) index 0

/-- The table holds these page intervals and nothing else. -/
structure VmaTable.Holds (t : VmaTable) (vmas : List (Nat × Nat)) : Prop where
  nrVmas : t.nrVmas = vmas.length
  slot : ∀ i, (t.pgStart i, t.pgEnd i) = vmas.getD i (0, 0)

theorem VmaTable.Holds.empty : VmaTable.Holds {} [] where
  nrVmas := rfl
  slot := by simp

theorem VmaTable.Holds.store {t : VmaTable} {vmas : List (Nat × Nat)} (h : t.Holds vmas)
    (pageSize vmStart vmEnd : Nat) :
    (t.store pageSize vmStart vmEnd).Holds
      (vmas ++ [(vmStart / pageSize, vmEnd / pageSize)]) where
  nrVmas := by simp [VmaTable.store, h.nrVmas]
  slot := by
    intro i
    have hi := h.slot i
    rcases Nat.lt_trichotomy i vmas.length with hlt | rfl | hgt
    · simpa [VmaTable.store, h.nrVmas, Function.update_apply, hlt.ne, hlt,
        List.getElem?_append_left] using hi
    · simp [VmaTable.store, h.nrVmas]
    · have hkept : ((t.store pageSize vmStart vmEnd).pgStart i,
          (t.store pageSize vmStart vmEnd).pgEnd i) = (t.pgStart i, t.pgEnd i) := by
        simp [VmaTable.store, h.nrVmas, Function.update_of_ne hgt.ne']
      have hlen : (vmas ++ [(vmStart / pageSize, vmEnd / pageSize)]).length ≤ i := by
        rw [List.length_append]
        exact hgt
      rw [hkept, hi, List.getD_eq_default _ _ hgt.le, List.getD_eq_default _ _ hlen]

def mapsOf (pageSize : Nat) (vmas : List (Nat × Nat)) : List MapsLine :=
  vmas.map fun vma => .vma (vma.1 * pageSize) (vma.2 * pageSize)

theorem parsePid_holds {pageSize : Nat} (hps : 0 < pageSize) {t : VmaTable}
    {stored : List (Nat × Nat)} (h : t.Holds stored) (vmas : List (Nat × Nat))
    (hlen : stored.length + vmas.length ≤ maxVmas) :
    (parsePid pageSize t (mapsOf pageSize vmas)).1.Holds (stored ++ vmas) := by
  induction vmas generalizing t stored with
  | nil => simpa [mapsOf, parsePid] using h
  | cons vma vmas ih =>
    have hstore := h.store pageSize (vma.1 * pageSize) (vma.2 * pageSize)
    rw [Nat.mul_div_cancel _ hps, Nat.mul_div_cancel _ hps] at hstore
    rw [List.length_cons] at hlen
    change (parsePid pageSize t (.vma _ _ :: mapsOf pageSize vmas)).1.Holds _
    rw [parsePid]
    split
    · rename_i hfull
      rw [hstore.nrVmas, List.length_append, List.length_singleton] at hfull
      obtain rfl : vmas = [] := List.eq_nil_of_length_eq_zero (by omega)
      exact hstore
    · have := ih hstore (by simp; omega)
      simpa using this

theorem VmaTable.Holds.drop_eq {t : VmaTable} {vmas : List (Nat × Nat)} (h : t.Holds vmas)
    {i : Nat} (hi : i < vmas.length) :
    vmas.drop i = (t.pgStart i, t.pgEnd i) :: vmas.drop (i + 1) := by
  rw [List.drop_eq_getElem_cons hi, h.slot i, List.getD_eq_getElem _ _ hi]

theorem VmaTable.Holds.lt_length {t : VmaTable} {vmas : List (Nat × Nat)} (h : t.Holds vmas)
    {i index : Nat} (hi : index < t.pgEnd i) : i < vmas.length := by
  by_contra hge
  have hslot := h.slot i
  rw [List.getD_eq_default _ _ (by omega)] at hslot
  have : t.pgEnd i = 0 := congrArg Prod.snd hslot
  omega

theorem skipVmas_spec {t : VmaTable} {vmas : List (Nat × Nat)} (h : t.Holds vmas)
    (index end_ i : Nat) (hi : i < max vmas.length 1) :
    (∀ k ∈ (skipVmas t index i).1, k < max vmas.length 1) ∧
    ((skipVmas t index i).2 = none → clip index end_ (vmas.drop i) = []) ∧
    ∀ j, (skipVmas t index i).2 = some j → index < t.pgEnd j ∧
      clip index end_ (vmas.drop i) = clip index end_ (vmas.drop j) := by
  induction i using skipVmas.induct t index with
  | case1 i hend hlast =>
    rw [skipVmas, if_pos hend, if_pos hlast]
    refine ⟨by simpa using hi, fun _ => ?_, by simp⟩
    rw [h.nrVmas] at hlast
    rcases Nat.lt_or_ge i vmas.length with hlt | hge
    · rw [h.drop_eq hlt, clip_cons_of_le _ (Or.inl hend), List.drop_of_length_le hlast]
      rfl
    · rw [List.drop_of_length_le hge]
      rfl
  | case2 i hend hmore ih =>
    rw [skipVmas, if_pos hend, if_neg hmore]
    rw [h.nrVmas] at hmore
    obtain ⟨hslots, hnone, hsome⟩ := ih (by omega)
    have hskip : clip index end_ (vmas.drop i) = clip index end_ (vmas.drop (i + 1)) := by
      rw [h.drop_eq (by omega), clip_cons_of_le _ (Or.inl hend)]
    refine ⟨?_, fun hn => hskip.trans (hnone hn), fun j hj => ?_⟩
    · intro k hk
      rcases List.mem_cons.mp hk with rfl | hk
      · exact hi
      · exact hslots k hk
    · exact ⟨(hsome j hj).1, hskip.trans (hsome j hj).2⟩
  | case3 i hend =>
    rw [skipVmas, if_neg hend]
    refine ⟨by simpa using hi, by simp, ?_⟩
    rintro j hj
    obtain rfl : i = j := by simpa using hj
    exact ⟨Nat.lt_of_not_le hend, rfl⟩

def extent (piece : Nat × Nat) : Nat × Nat := (piece.1, piece.1 + piece.2)

/-- From cursor `i` on, the loop produces the part of the remaining VMAs that lies
between `index` and the end. -/
theorem walkTaskLoop_spec {t : VmaTable} {vmas : List (Nat × Nat)} (h : t.Holds vmas)
    (hasc : Ascending vmas) (end_ index i : Nat) (hi : i < max vmas.length 1) :
    (walkTaskLoop t end_ index i).assertFailed = false ∧
    (∀ k ∈ (walkTaskLoop t end_ index i).slots, k < max vmas.length 1) ∧
    (walkTaskLoop t end_ index i).pieces.map extent = clip index end_ (vmas.drop i) := by
  induction index, i using walkTaskLoop.induct t end_ with
  | case1 index i hlt slots hskip =>
    obtain ⟨hslots, hnone, -⟩ := skipVmas_spec h index end_ i hi
    rw [hskip] at hslots hnone
    rw [walkTaskLoop, if_pos hlt]
    simp only [hskip]
    exact ⟨trivial, hslots, (hnone rfl).symm⟩
  | case2 index i hlt slots j hskip hstart =>
    obtain ⟨hslots, -, hsome⟩ := skipVmas_spec h index end_ i hi
    rw [hskip] at hslots hsome
    obtain ⟨hend, hclip⟩ := hsome j rfl
    have hj := h.lt_length hend
    rw [walkTaskLoop, if_pos hlt]
    simp only [hskip, if_pos hstart]
    refine ⟨trivial, ?_, ?_⟩
    · intro k hk
      rcases List.mem_append.mp hk with hk | hk
      · exact hslots k hk
      · obtain rfl : k = j := by simpa using hk
        omega
    · rw [hclip, h.drop_eq hj]
      exact (Ascending.clip_eq_nil (h.drop_eq hj ▸ hasc.drop j) hstart).symm
  | case3 index i hlt slots j hskip hstart start index' hpiece ih =>
    obtain ⟨hslots, -, hsome⟩ := skipVmas_spec h index end_ i hi
    rw [hskip] at hslots hsome
    obtain ⟨hend, hclip⟩ := hsome j rfl
    have hj := h.lt_length hend
    obtain ⟨hassert, hrest, hpieces⟩ := ih (by omega)
    rw [walkTaskLoop, if_pos hlt]
    simp only [hskip, if_neg hstart]
    rw [if_pos hpiece]
    refine ⟨hassert, ?_, ?_⟩
    · intro k hk
      rcases List.mem_append.mp hk with hk | hk
      · exact hslots k hk
      · rcases List.mem_cons.mp hk with rfl | hk
        · omega
        · exact hrest k hk
    · have hsplit := Ascending.clip_cons (h.drop_eq hj ▸ hasc.drop j) hend
        (Nat.lt_of_not_le hstart) hlt
      rw [List.map_cons, hclip, h.drop_eq hj, hsplit, hpieces, h.drop_eq hj]
      congr 1
      exact Prod.ext rfl (Nat.add_sub_cancel' hpiece.le)
  | case4 index i hlt slots j hskip hstart start index' hfail =>
    obtain ⟨-, -, hsome⟩ := skipVmas_spec h index end_ i hi
    rw [hskip] at hsome
    obtain ⟨hend, -⟩ := hsome j rfl
    have hvma : t.pgStart j < t.pgEnd j := by
      have hj := h.lt_length hend
      exact (hasc.drop j).nonempty (t.pgStart j, t.pgEnd j) (by rw [h.drop_eq hj]; simp)
    -- the assertion cannot fail: both ends of the piece are clipped against nonempty sets
    exact absurd (lt_min (max_lt hvma hend) (max_lt (Nat.lt_of_not_le hstart) hlt)) hfail
  | case5 index i hge =>
    rw [walkTaskLoop, if_neg hge]
    refine ⟨rfl, by simp, ?_⟩
    symm
    apply clip_of_le
    exact Nat.le_of_not_lt hge

/-- The walk of a range over the VMAs of a process. -/
theorem walkTask_exact {pageSize : Nat} (hps : 0 < pageSize) {vmas : List (Nat × Nat)}
    (hlen : vmas.length ≤ maxVmas) (hasc : Ascending vmas) {index count : Nat}
    (hrange : index + count ≤ ulongMax) :
    let t := (parsePid pageSize {} (mapsOf pageSize vmas)).1
    let w := walkTask t index count
    t.nrVmas = vmas.length ∧ w.assertFailed = false ∧
      (∀ i ∈ w.slots, i < max t.nrVmas 1) ∧ Ascending (w.pieces.map extent) ∧
      points (w.pieces.map extent) = Set.Ico index (index + count) ∩ points vmas := by
  intro t w
  have ht : t.Holds vmas := parsePid_holds hps VmaTable.Holds.empty vmas (by simpa using hlen)
  have hend : ulong (index + count) = index + count :=
    ulong_of_lt (by unfold ulongMax at hrange; omega)
  obtain ⟨hassert, hslots, hpieces⟩ :=
    walkTaskLoop_spec ht hasc (ulong (index + count)) index 0 (by omega)
  change w.pieces.map extent = clip index (ulong (index + count)) (vmas.drop 0) at hpieces
  refine ⟨ht.nrVmas, hassert, ht.nrVmas ▸ hslots, ?_, ?_⟩
  · rw [hpieces]
    exact (hasc.drop 0).clip _ _
  · rw [hpieces, points_clip, hend, List.drop_zero, Set.inter_comm]

theorem walkTask_exact_gap :
    let w := walkTask (parsePid 4096 {} (mapsOf 4096 [(2, 5), (8, 9)])).1 3 10
    w.assertFailed = false ∧
      points (w.pieces.map extent) = Set.Ico 3 13 ∩ points [(2, 5), (8, 9)] := by
  have hasc : Ascending [(2, 5), (8, 9)] := ⟨by simp, by simp⟩
  obtain ⟨-, hassert, -, -, hpoints⟩ := walkTask_exact (by decide : 0 < 4096)
    (by decide) hasc (by decide : 3 + 10 ≤ ulongMax)
  exact ⟨hassert, hpoints⟩

end MceTest.PageTypes

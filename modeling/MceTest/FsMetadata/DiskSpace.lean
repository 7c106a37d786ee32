import MceTest.FsMetadata.Entries
import MceTest.Library.Bc
import Mathlib.Algebra.Order.BigOperators.Group.Finset

/-! `check_disk_space`, against what `k_tree_gen` creates. -/

namespace MceTest.FsMetadata

open MceTest.Library MceTest.Library.FileSystem MceTest.Library.Bc

variable {nodeNr depth : Nat} {s : Sys Name}

/-- `scale=2; (1-$width^$depth)/(1-$width) *2*4/1024`, in MiB. -/
def treeSize (depth width : Nat) : Option Bc.Num :=
  let depth := depth + 1
  let nodes := Expr.div (.sub (.num (.int 1)) (.pow (.num (.int width)) depth))
    (.sub (.num (.int 1)) (.num (.int width)))
  Expr.eval 2 (.div (.mul (.mul nodes (.num (.int 2))) (.num (.int 4))) (.num (.int 1024)))

/-- `scale=2; $tree_size * 2 * $thread`, which is no expression without a tree size.  A number of
69 digits or more, which `bc` breaks over two lines, stays whole here. -/
def totalSize (treeSize : Option Bc.Num) (thread : Nat) : Option Bc.Num :=
  treeSize.bind fun size =>
    Expr.eval 2 (.mul (.mul (.num size) (.num (.int 2))) (.num (.int thread)))

/-- `$1>$2` of `awk`; `above` says whether 0 is above a missing field, in which the
implementations differ. -/
def greater (above : Bool) (free : Nat) : Option Bc.Num → Bool
  | none => 0 < free || above
  | some total => total.coeff < free * 10 ^ total.scale

def checkDiskSpace (above : Bool) (freeSpace depth width thread : Nat) : Nat :=
  let total := totalSize (treeSize depth width) thread
  let ready := if greater above freeSpace total then 0 else 1
  if ready ≠ 0 then 1 else 0

def entriesSize (entries : Nat) : Bc.Num := ⟨entries * 4 * 100 / 1024, 2⟩

/-- The estimate is there, and not below two trees of so many entries for each thread. -/
def Estimated (depth width thread entries : Nat) : Prop :=
  ∃ total, totalSize (treeSize depth width) thread = some total ∧
    total.scale = (entriesSize entries).scale ∧
    (entriesSize entries).coeff * 2 * thread ≤ total.coeff

theorem treeSize_one (depth : Nat) : treeSize depth 1 = none := by
  rw [treeSize]
  simp only [Expr.eval, Option.pure_def, Option.bind_eq_bind, Option.bind_some, Bc.Num.sub_int]
  rfl

theorem treeSize_of_ne_one {width : Nat} (h : width ≠ 1) (depth : Nat) :
    treeSize depth width =
      some ⟨(∑ i ∈ Finset.range (depth + 1), (width : Int) ^ i) * 800 / 1024, 2⟩ := by
  have hne : (1 : Int) - width ≠ 0 := by omega
  rw [treeSize]
  simp only [Expr.eval, Option.pure_def, Option.bind_eq_bind, Option.bind_some, Bc.Num.sub_int,
    Bc.Num.pow_int, Bc.Num.div_int 2 _ hne, Bc.Num.mul_int]
  rw [Bc.Num.div_places _ (by decide), ← geom_sum_mul_neg (width : Int),
    mul_right_comm _ (1 - (width : Int)), Int.mul_tdiv_cancel _ hne]
  have hnonneg : 0 ≤ ∑ i ∈ Finset.range (depth + 1), (width : Int) ^ i :=
    Finset.sum_nonneg fun i _ => pow_nonneg (Int.natCast_nonneg width) i
  rw [Int.tdiv_eq_ediv_of_nonneg (by omega)]
  congr 3
  ring

theorem totalSize_none (thread : Nat) : totalSize none thread = none := rfl

theorem totalSize_some (size : Bc.Num) (thread : Nat) :
    totalSize (some size) thread = some ⟨size.coeff * 2 * thread, size.scale⟩ := by
  rw [totalSize]
  simp only [Expr.eval, Option.pure_def, Option.bind_eq_bind, Option.bind_some, Bc.Num.mul_int]

theorem nodes_entries (depth width : Nat) :
    (∑ i ∈ Finset.range (depth + 1), (width : Int) ^ i) * 2 = treeEntries width depth + 2 := by
  rw [Finset.sum_range_succ', treeEntries]
  push_cast
  ring

theorem estimated_iff (depth width thread : Nat) :
    Estimated depth width thread (treeEntries width depth) ↔ width ≠ 1 := by
  constructor
  · rintro ⟨total, htotal, -⟩ rfl
    rw [treeSize_one, totalSize_none] at htotal
    cases htotal
  · intro h
    rw [Estimated, treeSize_of_ne_one h, totalSize_some]
    refine ⟨_, rfl, rfl, ?_⟩
    have hnodes := nodes_entries depth width
    dsimp only [entriesSize]
    gcongr ?_ * 2 * (thread : Int)
    omega

/-- The check bounds what the workload creates exactly if the trees have more than one branch
at a node. -/
theorem diskSpace_bounds_iff (hs : EmptyDir s) (thread : Nat) :
    (Created s (kTreeGen nodeNr depth s) (treeEntries nodeNr depth) ∧
      (kTreeGen nodeNr depth s).cwd = s.cwd ∧
      Estimated depth nodeNr thread (treeEntries nodeNr depth)) ↔ nodeNr ≠ 1 := by
  rw [estimated_iff]
  exact ⟨fun h => h.2.2, fun h => ⟨kTreeGen_created hs, hs.generated.cwd, h⟩⟩

theorem checkDiskSpace_ready (above : Bool) (freeSpace depth width thread : Nat) :
    checkDiskSpace above freeSpace depth width thread = 0 ↔
      greater above freeSpace (totalSize (treeSize depth width) thread) = true := by
  rw [checkDiskSpace]
  cases greater above freeSpace (totalSize (treeSize depth width) thread) <;> decide

/-- What has been found ready has the room for all entries, if there is more than one branch. -/
theorem ready_fits {above : Bool} {freeSpace depth width thread : Nat} (hwidth : width ≠ 1)
    (hready : checkDiskSpace above freeSpace depth width thread = 0) :
    (entriesSize (treeEntries width depth)).coeff * 2 * thread < freeSpace * 10 ^ 2 := by
  obtain ⟨total, htotal, hscale, hle⟩ := (estimated_iff depth width thread).mpr hwidth
  rw [checkDiskSpace_ready, htotal, greater, hscale] at hready
  exact Int.lt_of_le_of_lt hle (of_decide_eq_true hready)

theorem one_branch_ready (above : Bool) {freeSpace : Nat} (hfree : 0 < freeSpace)
    (depth thread : Nat) : checkDiskSpace above freeSpace depth 1 thread = 0 := by
  rw [checkDiskSpace_ready, treeSize_one, totalSize_none, greater, Bool.or_eq_true]
  exact .inl (decide_eq_true hfree)

/-- In the directory of `atRoot`, with three branches to a depth of two and four threads. -/
theorem diskSpace_bounds_iff_atRoot :
    EmptyDir atRoot ∧ (Created atRoot (kTreeGen 3 2 atRoot) (treeEntries 3 2) ∧
      (kTreeGen 3 2 atRoot).cwd = atRoot.cwd ∧ Estimated 2 3 4 (treeEntries 3 2)) :=
  ⟨atRoot_empty, (diskSpace_bounds_iff atRoot_empty 4).mpr (by decide)⟩

/-- Trees of one branch have no estimate, and are found to fit into any free space. -/
theorem diskSpace_one_branch :
    EmptyDir atRoot ∧ totalSize (treeSize 3 1) 2 = none ∧
      (∀ above, checkDiskSpace above 1 3 1 2 = 0) ∧
      ¬ (Created atRoot (kTreeGen 1 3 atRoot) (treeEntries 1 3) ∧
        (kTreeGen 1 3 atRoot).cwd = atRoot.cwd ∧ Estimated 3 1 2 (treeEntries 1 3)) := by
  have hnone : totalSize (treeSize 3 1) 2 = none := by
    rw [treeSize_one, totalSize_none]
  refine ⟨atRoot_empty, hnone, fun above => one_branch_ready above (by decide) 3 2, ?_⟩
  rintro ⟨-, -, total, htotal, -⟩
  rw [hnone] at htotal
  cases htotal

end MceTest.FsMetadata

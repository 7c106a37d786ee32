import MceTest.PageTypes.FileWalk
import Mathlib.Algebra.Order.Group.Nat

/-! Which pages of a file reach `add_page`, and where a SIGBUS ends the walk. -/

namespace MceTest.PageTypes

open MceTest.Library

variable {env : FileEnv} {c : FileContent env.pageSize}

theorem pagemapPfn_le (val : BitVec 64) : pagemapPfn val ≤ ulongMax / 8 := by
  unfold pagemapPfn
  split
  · rw [pmPframe, BitVec.toNat_and]
    exact Nat.and_le_right.trans (by decide)
  · exact Nat.zero_le _

theorem Holds.flags_read (h : Holds env c) (j : Nat) (val : BitVec 64) :
    doU64Read env.kpageflags j (pagemapPfn val) 1 = .ok (c.flags j (pagemapPfn val)).toList := by
  rw [doU64Read, if_neg (by have := pagemapPfn_le val; omega), h.kpageflags]
  rfl

def pagesFrom (c : FileContent env.pageSize) (k n : Nat) : List PageArgs :=
  (List.range' k n).filterMap c.page

theorem pagesFrom_add (c : FileContent env.pageSize) (k m n : Nat) :
    pagesFrom c k (m + n) = pagesFrom c k m ++ pagesFrom c (k + m) n := by
  rw [pagesFrom, ← List.range'_append, List.filterMap_append, Nat.one_mul]
  rfl

theorem Holds.harvestPages (h : Holds env c) (k i n : Nat) (hv : Harvest) :
    PageTypes.harvestPages env (k * env.pageSize) i ((List.range' (k + i) n).map c.pme) hv =
      (pagesFrom c (k + i) n).foldlM (passPage env) hv := by
  induction n generalizing i hv with
  | zero => rfl
  | succ n ih =>
    have hoff : k * env.pageSize / env.pageSize = k := Nat.mul_div_cancel k h.pageSize_pos
    have hnext := ih (i + 1)
    rw [← Nat.add_assoc] at hnext
    have hcons : pagesFrom c (k + i) (n + 1) =
        (c.page (k + i)).toList ++ pagesFrom c (k + i + 1) n := by
      rw [pagesFrom, List.range'_succ, List.filterMap_cons]
      cases c.page (k + i) <;> rfl
    rw [List.range'_succ, List.map_cons, PageTypes.harvestPages, hoff, hcons, FileContent.page]
    split
    · exact hnext hv
    · rw [h.flags_read]
      cases c.flags (k + i) (pagemapPfn (c.pme (k + i))) with
      | none => exact hnext hv
      | some flags =>
        simp only [Option.toList_some, Option.map_some, List.singleton_append, List.foldlM_cons]
        cases hpass : passPage env hv ⟨k + i, pagemapPfn (c.pme (k + i)), flags,
            c.pme (k + i)⟩ with
        | error r => rfl
        | ok hv' => exact hnext hv'

def batchSize (env : FileEnv) (k : Nat) : Nat := min (filePagesNumber env - k) pagemapBatch

/-- How a walk ends that has come to page `k`: without a SIGBUS from then on, or with
one in a batch from there on. -/
inductive WalkEnds (env : FileEnv) (c : FileContent env.pageSize) (k : Nat) (hv : Harvest)
    (r : FileResult) : Prop
  | quiet (none : r.1.interrupts = [])
      (pages : r.pages = (pagesFrom c k (filePagesNumber env - k)).foldlM (passPage env) hv)
      (clean : ∀ hv', r.pages = .ok hv' → ∀ j, k ≤ j → ¬ Faulty env c j)
  | interrupted (b addr j : Nat)
      (one : r.1.interrupts = [⟨b * env.pageSize, c.ptr b, addr, addr - c.ptr b⟩])
      (batch : b = k ∨ k + pagemapBatch ≤ b)
      (before : ∀ i, k ≤ i → i < b → ¬ Faulty env c i)
      (start : b ≤ j) (stop : j < b + pagemapBatch) (faulty : Faulty env c j)

theorem WalkEnds.batch {k : Nat} {hv hv' : Harvest} {r : FileResult}
    (hk : k < filePagesNumber env)
    (hbatch : (pagesFrom c k (batchSize env k)).foldlM (passPage env) hv = .ok hv')
    (hclean : ∀ j, k ≤ j → j < k + batchSize env k → ¬ Faulty env c j)
    (h : WalkEnds env c (k + batchSize env k) hv' r) : WalkEnds env c k hv r := by
  have hm : batchSize env k ≤ filePagesNumber env - k := Nat.min_le_left _ _
  have hbefore : ∀ {b}, (∀ i, k + batchSize env k ≤ i → i < b → ¬ Faulty env c i) →
      ∀ i, k ≤ i → i < b → ¬ Faulty env c i := by
    intro b hb i hki hi
    rcases Nat.lt_or_ge i (k + batchSize env k) with hlt | hge
    · exact hclean i hki hlt
    · exact hb i hge hi
  cases h with
  | quiet none pages clean =>
    refine .quiet none ?_ ?_
    · have hsplit : filePagesNumber env - k =
          batchSize env k + (filePagesNumber env - (k + batchSize env k)) := by omega
      rw [hsplit, pagesFrom_add, List.foldlM_append, hbatch]
      exact pages
    · intro hv'' hr j hkj
      exact hbefore (b := j + 1) (fun i hi _ => clean hv'' hr i hi) j hkj (Nat.lt_succ_self j)
  | interrupted b addr j one batch before start stop faulty =>
    refine .interrupted b addr j one (Or.inr ?_) (hbefore before) start stop faulty
    have hj := faulty.1
    have hsize : batchSize env k = pagemapBatch := by
      unfold batchSize at *
      omega
    omega

end MceTest.PageTypes

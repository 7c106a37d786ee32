import MceTest.FsMetadata.Generate

/-! `k_tree_trav` in the tree that `k_tree_gen` has made. -/

namespace MceTest.FsMetadata

open MceTest.Library.FileSystem MceTest.Library.FileSystem.Sys

variable {nodeNr lvl depth : Nat} {s t : Sys Name} {refused : Nat → Bool}

theorem names_restored {cnt : Nat} (hfile : s.kind (fileName cnt :: s.cwd) = some .file)
    (htemp : s.kind (tempName cnt :: s.cwd) = none)
    (hlink : s.kind (linkName cnt :: s.cwd) = none) :
    ((((s.link (fileName cnt) (tempName cnt)).unlink (fileName cnt)).rename
      (tempName cnt) (fileName cnt)).symlink (linkName cnt) (fileName cnt)).unlink
        (linkName cnt) = s := by
  obtain ⟨inode, hentry⟩ := kind_file.mp hfile
  rw [link_unlink_rename (tempName_ne_fileName cnt cnt).symm hentry (kind_none.mp htemp),
    symlink_existing hentry, unlink_missing (kind_none.mp hlink)]

theorem kTreeTrav_same (hlvl : lvl ≤ depth) (hdir : s.kind s.cwd = some .dir)
    (hgrown : Grown nodeNr s.kind depth s.cwd) (hfree : Free s.kind s.cwd) :
    Same s (kTreeTrav refused nodeNr lvl s) := by
  induction lvl generalizing depth s with
  | zero => exact .refl s
  | succ lvl ih =>
    obtain ⟨depth, rfl⟩ : ∃ d, depth = d + 1 := ⟨depth - 1, by omega⟩
    rw [kTreeTrav]
    refine List.foldlRecOn _ _ (.refl s) fun t ht cnt hcnt => ht.trans ?_
    have hkind : t.kind = s.kind := funext ht.kind
    obtain ⟨hfile, hsub, hbelow⟩ := hgrown cnt (List.mem_range.mp hcnt)
    obtain ⟨htemp, hlink⟩ := hfree s.cwd (List.suffix_refl _) cnt
    rw [← hkind, ← ht.cwd] at hfile htemp hlink
    rw [travTurn, names_restored hfile htemp hlink]
    -- the recursive call starts in the sub-directory, or here if it is refused
    have hchmod := chmod_same t (dirName cnt) readWrite
    generalize hu : t.chmod (dirName cnt) readWrite = u at hchmod
    have hukind : u.kind = s.kind := (funext hchmod.kind).trans hkind
    have hucwd : u.cwd = s.cwd := hchmod.cwd.trans ht.cwd
    have hvkind : (u.chdir refused (dirName cnt)).kind = s.kind :=
      (funext (chdir_kind u refused (dirName cnt))).trans hukind
    have hrec : Same (u.chdir refused (dirName cnt))
        (kTreeTrav refused nodeNr lvl (u.chdir refused (dirName cnt))) := by
      have husub : u.kind (dirName cnt :: u.cwd) = some .dir := by
        rw [hukind, hucwd]
        exact hsub
      rcases chdir_cwd refused husub with hcwd | hcwd
      · apply ih (Nat.le_of_succ_le hlvl)
        · rw [hvkind, hcwd, hucwd]
          exact hdir
        · rw [hvkind, hcwd, hucwd]
          exact hgrown
        · rw [hvkind, hcwd, hucwd]
          exact hfree
      · apply ih (Nat.le_of_succ_le_succ hlvl)
        · rw [hvkind, hcwd, hucwd]
          exact hsub
        · rw [hvkind, hcwd, hucwd]
          exact hbelow
        · rw [hvkind, hcwd, hucwd]
          exact hfree.below _
    refine ⟨chdirBack_cwd ?_, fun p => ?_⟩
    · rw [hrec.kind, hvkind, ht.cwd]
      exact hdir
    · rw [chdirBack_kind, hrec.kind, hvkind, ← hkind]

structure EmptyDir (s : Sys Name) : Prop where
  dir : s.kind s.cwd = some .dir
  empty : ∀ p, p ≠ [] → s.kind (p ++ s.cwd) = none

structure Extends (s t : Sys Name) : Prop where
  cwd : t.cwd = s.cwd
  kept : ∀ p k, s.kind p = some k → t.kind p = some k

theorem EmptyDir.entry (h : EmptyDir s) {q : List Name} (hq : s.cwd <:+ q) (n : Name) :
    s.kind (n :: q) = none := by
  obtain ⟨p, rfl⟩ := hq
  exact h.empty (n :: p) (List.cons_ne_nil n p)

theorem EmptyDir.typed (h : EmptyDir s) : Typed s.kind s.cwd := fun q hq cnt => by
  rw [h.entry hq, h.entry hq]
  exact ⟨by decide, by decide⟩

theorem EmptyDir.generated (h : EmptyDir s) : Generated nodeNr depth s (kTreeGen nodeNr depth s) :=
  kTreeGen_generated h.dir h.typed

theorem Generated.free (h : Generated nodeNr depth s t) (hs : EmptyDir s) : Free t.kind s.cwd := by
  intro q hq cnt
  constructor
  · rcases h.adds (tempName cnt :: q) with hsame | ⟨-, r, cnt', ⟨heq, -⟩ | ⟨heq, -⟩⟩
    · exact hsame.trans (hs.entry hq _)
    · exact absurd (List.cons.inj heq).1 (tempName_ne_fileName cnt cnt')
    · exact absurd (List.cons.inj heq).1 (tempName_ne_dirName cnt cnt')
  · rcases h.adds (linkName cnt :: q) with hsame | ⟨-, r, cnt', ⟨heq, -⟩ | ⟨heq, -⟩⟩
    · exact hsame.trans (hs.entry hq _)
    · exact absurd (List.cons.inj heq).1 (linkName_ne_fileName cnt cnt')
    · exact absurd (List.cons.inj heq).1 (linkName_ne_dirName cnt cnt')

/-- `k_tree_trav` leaves the working directory and all paths as they were, whichever changes to
a sub-directory are refused. -/
theorem kTreeTrav_unchanged (refused : Nat → Bool) (hs : EmptyDir s)
    (ht : Extends (kTreeGen nodeNr depth s) t) (hfree : Free t.kind t.cwd) :
    Same t (kTreeTrav refused nodeNr depth t) := by
  have hgen : Generated nodeNr depth s (kTreeGen nodeNr depth s) := hs.generated
  have hcwd : t.cwd = s.cwd := ht.cwd.trans hgen.cwd
  refine kTreeTrav_same (Nat.le_refl depth) ?_ ?_ hfree
  · rw [hcwd]
    exact ht.kept _ _ (hgen.adds.keep hs.dir)
  · rw [hcwd]
    exact hgen.grown.mono ht.kept

def atRoot : Sys Name where
  fs := fun p => if p = [] then some (.dir 0o755) else none
  cwd := []
  inodes := 0
  chdirs := 0

theorem atRoot_empty : EmptyDir atRoot := by
  refine ⟨by decide, fun p hp => kind_none.mpr (if_neg ?_)⟩
  rwa [show atRoot.cwd = [] from rfl, List.append_nil]

/-- The tree of depth 2 and width 3, with every second change of the directory refused. -/
theorem kTreeTrav_unchanged_atRoot :
    EmptyDir atRoot ∧ Extends (kTreeGen 3 2 atRoot) (kTreeGen 3 2 atRoot) ∧
      Free (kTreeGen 3 2 atRoot).kind (kTreeGen 3 2 atRoot).cwd ∧
      Same (kTreeGen 3 2 atRoot)
        (kTreeTrav (fun k => k % 2 = 1) 3 2 (kTreeGen 3 2 atRoot)) := by
  have hgen : Generated 3 2 atRoot (kTreeGen 3 2 atRoot) := atRoot_empty.generated
  have hext : Extends (kTreeGen 3 2 atRoot) (kTreeGen 3 2 atRoot) := ⟨rfl, fun _ _ h => h⟩
  have hfree : Free (kTreeGen 3 2 atRoot).kind (kTreeGen 3 2 atRoot).cwd :=
    hgen.cwd ▸ hgen.free atRoot_empty
  exact ⟨atRoot_empty, hext, hfree,
    kTreeTrav_unchanged (fun k => k % 2 = 1) atRoot_empty hext hfree⟩

end MceTest.FsMetadata

import MceTest.Library.FileSystem
import Mathlib.Data.Nat.Digits.Defs

/-! `k_tree_gen` and `k_tree_trav`, which walk a tree of directories by `chdir`. -/

namespace MceTest.FsMetadata

open MceTest.Library.FileSystem MceTest.Library.FileSystem.Sys

abbrev Name := List Char

/-- `sprintf` with `"%d"` and a suffix. -/
def named (cnt : Nat) (suffix : String) : Name := Nat.toDigits 10 cnt ++ suffix.toList

def dirName (cnt : Nat) : Name := named cnt "-d"
def fileName (cnt : Nat) : Name := named cnt "-f"
def tempName (cnt : Nat) : Name := named cnt "-f-t"
def linkName (cnt : Nat) : Name := named cnt "-l"

/-- `S_IRUSR | S_IWUSR | S_IRGRP | S_IROTH` -/
def readWrite : Nat := 0o644

/-- The body of the loop in `k_tree_gen`, around the recursive call; the reads and writes of the
new file leave the names alone. -/
def genTurn (k_tree_gen : Sys Name → Sys Name) (s : Sys Name) (cnt : Nat) : Sys Name :=
  let s := (s.creat (fileName cnt)).mkdir (dirName cnt) 0o777
  let cwd := s.cwd
  (k_tree_gen (s.chdir (fun _ => false) (dirName cnt))).chdirBack cwd

def kTreeGen (nodeNr : Nat) : Nat → Sys Name → Sys Name
  | 0, s => s
  | lvl + 1, s => (List.range nodeNr).foldl (genTurn (kTreeGen nodeNr lvl)) s

/-- The body of the loop in `k_tree_trav`, around the recursive call. -/
def travTurn (refused : Nat → Bool) (k_tree_trav : Sys Name → Sys Name) (s : Sys Name)
    (cnt : Nat) : Sys Name :=
  let s := ((s.link (fileName cnt) (tempName cnt)).unlink (fileName cnt)).rename
    (tempName cnt) (fileName cnt)
  let s := (s.symlink (linkName cnt) (fileName cnt)).unlink (linkName cnt)
  let cwd := s.cwd
  let s := (s.chmod (dirName cnt) readWrite).chdir refused (dirName cnt)
  (k_tree_trav s).chdirBack cwd

/-- `k_tree_trav`, with the calls of `chdir` to a sub-directory that are refused. -/
def kTreeTrav (refused : Nat → Bool) (nodeNr : Nat) : Nat → Sys Name → Sys Name
  | 0, s => s
  | lvl + 1, s => (List.range nodeNr).foldl (travTurn refused (kTreeTrav refused nodeNr lvl)) s

theorem named_ne {suffix suffix' : String} (h : suffix.toList.getLast? ≠ suffix'.toList.getLast?)
    (hne : suffix.toList ≠ []) (hne' : suffix'.toList ≠ []) (cnt cnt' : Nat) :
    named cnt suffix ≠ named cnt' suffix' := by
  intro heq
  apply h
  have hlast := congrArg List.getLast? heq
  rwa [named, named, List.getLast?_append_of_ne_nil _ hne,
    List.getLast?_append_of_ne_nil _ hne'] at hlast

theorem fileName_ne_dirName (cnt cnt' : Nat) : fileName cnt ≠ dirName cnt' :=
  named_ne (by decide) (by decide) (by decide) cnt cnt'

theorem tempName_ne_fileName (cnt cnt' : Nat) : tempName cnt ≠ fileName cnt' :=
  named_ne (by decide) (by decide) (by decide) cnt cnt'

theorem tempName_ne_dirName (cnt cnt' : Nat) : tempName cnt ≠ dirName cnt' :=
  named_ne (by decide) (by decide) (by decide) cnt cnt'

theorem linkName_ne_fileName (cnt cnt' : Nat) : linkName cnt ≠ fileName cnt' :=
  named_ne (by decide) (by decide) (by decide) cnt cnt'

theorem linkName_ne_dirName (cnt cnt' : Nat) : linkName cnt ≠ dirName cnt' :=
  named_ne (by decide) (by decide) (by decide) cnt cnt'

/-- A directory has the files and directories of a tree in it. -/
def Grown (nodeNr : Nat) (kind : List Name → Option Kind) : Nat → List Name → Prop
  | 0, _ => True
  | depth + 1, p => ∀ cnt < nodeNr, kind (fileName cnt :: p) = some .file ∧
      kind (dirName cnt :: p) = some .dir ∧ Grown nodeNr kind depth (dirName cnt :: p)

/-- The names that `k_tree_trav` uses for a while are free in and below a directory. -/
def Free (kind : List Name → Option Kind) (p : List Name) : Prop :=
  ∀ q, p <:+ q → ∀ cnt, kind (tempName cnt :: q) = none ∧ kind (linkName cnt :: q) = none

variable {kind kind' : List Name → Option Kind}

theorem Free.below {p : List Name} (h : Free kind p) (n : Name) :
    Free kind (n :: p) := fun q hq => h q ((List.suffix_cons n p).trans hq)

theorem Grown.mono (hkept : ∀ p k, kind p = some k → kind' p = some k) {nodeNr depth : Nat}
    {p : List Name} (h : Grown nodeNr kind depth p) : Grown nodeNr kind' depth p := by
  induction depth generalizing p with
  | zero => trivial
  | succ depth ih =>
    intro cnt hcnt
    obtain ⟨hfile, hdir, hbelow⟩ := h cnt hcnt
    exact ⟨hkept _ _ hfile, hkept _ _ hdir, ih hbelow⟩

end MceTest.FsMetadata

import Mathlib.Logic.Function.Basic
import Mathlib.Data.List.Basic

/-! A name space of files, directories and symbolic links, with the POSIX calls of one process on
it.  A path is the list of its names, the last one first. -/

namespace MceTest.Library.FileSystem

variable {Name : Type}

inductive Node (Name : Type)
  | file (inode : Nat)
  | dir (mode : Nat)
  | symlink (target : Name)
  deriving DecidableEq

inductive Kind
  | file | dir | symlink
  deriving DecidableEq

def Node.kind : Node Name → Kind
  | .file _ => .file
  | .dir _ => .dir
  | .symlink _ => .symlink

/-- The name space, the working directory, the next inode, and how often the process has called
`chdir` with a name. -/
structure Sys (Name : Type) where
  fs : List Name → Option (Node Name)
  cwd : List Name
  inodes : Nat
  chdirs : Nat

namespace Sys

def kind (s : Sys Name) (p : List Name) : Option Kind := (s.fs p).map Node.kind

def entry (s : Sys Name) (n : Name) : Option (Node Name) := s.fs (n :: s.cwd)

variable {s t u : Sys Name} {n f f' : Name}

/-- The same working directory and the same names, each of the same kind. -/
structure Same (s t : Sys Name) : Prop where
  cwd : t.cwd = s.cwd
  kind : ∀ p, t.kind p = s.kind p

theorem Same.refl (s : Sys Name) : Same s s := ⟨rfl, fun _ => rfl⟩

theorem Same.trans (h : Same s t) (h' : Same t u) : Same s u :=
  ⟨h'.cwd.trans h.cwd, fun p => (h'.kind p).trans (h.kind p)⟩

theorem kind_dir {p : List Name} : s.kind p = some .dir ↔ ∃ mode, s.fs p = some (.dir mode) := by
  rw [kind]
  cases s.fs p with
  | none => simp
  | some node => cases node <;> simp [Node.kind]

theorem kind_file {p : List Name} :
    s.kind p = some .file ↔ ∃ inode, s.fs p = some (.file inode) := by
  rw [kind]
  cases s.fs p with
  | none => simp
  | some node => cases node <;> simp [Node.kind]

theorem kind_none {p : List Name} : s.kind p = none ↔ s.fs p = none := Option.map_eq_none_iff

section Calls

variable [DecidableEq Name]

def set (s : Sys Name) (n : Name) (node : Option (Node Name)) : Sys Name :=
  { s with fs := Function.update s.fs (n :: s.cwd) node }

def make (s : Sys Name) (n : Name) (node : Node Name) : Sys Name :=
  match s.entry n with
  | none => s.set n (some node)
  | some _ => s

/-- `open` with `O_CREAT`. -/
def creat (s : Sys Name) (n : Name) : Sys Name :=
  { s.make n (.file s.inodes) with inodes := s.inodes + 1 }

def mkdir (s : Sys Name) (n : Name) (mode : Nat) : Sys Name := s.make n (.dir mode)

def link (s : Sys Name) (old new : Name) : Sys Name :=
  match s.entry old, s.entry new with
  | some (.file inode), none => s.set new (some (.file inode))
  | some (.symlink target), none => s.set new (some (.symlink target))
  | _, _ => s

def unlink (s : Sys Name) (n : Name) : Sys Name :=
  match s.entry n with
  | some (.file _) | some (.symlink _) => s.set n none
  | _ => s

/-- `rename` of what is no directory; of two links to one file it keeps both. -/
def rename (s : Sys Name) (old new : Name) : Sys Name :=
  match s.entry old with
  | none | some (.dir _) => s
  | some node =>
    match s.entry new with
    | some (.dir _) => s
    | some node' => if node = node' then s else (s.set old none).set new (some node)
    | none => (s.set old none).set new (some node)

def symlink (s : Sys Name) (target n : Name) : Sys Name := s.make n (.symlink target)

def chmod (s : Sys Name) (n : Name) (mode : Nat) : Sys Name :=
  match s.entry n with
  | some (.dir _) => s.set n (some (.dir mode))
  | _ => s

/-- `chdir` to a name, which the system may refuse. -/
def chdir (s : Sys Name) (refused : Nat → Bool) (n : Name) : Sys Name :=
  match s.entry n with
  | some (.dir _) =>
    if refused s.chdirs then { s with chdirs := s.chdirs + 1 }
    else { s with cwd := n :: s.cwd, chdirs := s.chdirs + 1 }
  | _ => { s with chdirs := s.chdirs + 1 }

/-- `chdir` to what `getcwd` has returned. -/
def chdirBack (s : Sys Name) (cwd : List Name) : Sys Name :=
  match s.fs cwd with
  | some (.dir _) => { s with cwd }
  | _ => s

theorem entry_set_self (node : Option (Node Name)) : (s.set n node).entry n = node :=
  Function.update_self ..

theorem entry_set_of_ne {m : Name} (h : m ≠ n) (node : Option (Node Name)) :
    (s.set n node).entry m = s.entry m :=
  Function.update_of_ne (fun heq => h (List.cons.inj heq).1) ..

theorem set_set (node node' : Option (Node Name)) : (s.set n node).set n node' = s.set n node' :=
  congrArg (fun fs => { s with fs }) (Function.update_idem ..)

theorem set_comm {m : Name} (h : m ≠ n) (node node' : Option (Node Name)) :
    (s.set n node).set m node' = (s.set m node').set n node := by
  have hne : m :: s.cwd ≠ n :: s.cwd := fun heq => h (List.cons.inj heq).1
  exact congrArg (fun fs => { s with fs }) (Function.update_comm hne.symm ..)

theorem set_same {node : Option (Node Name)} (h : s.entry n = node) : s.set n node = s := by
  subst h
  exact congrArg (fun fs => { s with fs }) (Function.update_eq_self ..)

theorem kind_set_self (node : Option (Node Name)) :
    (s.set n node).kind (n :: s.cwd) = node.map Node.kind :=
  congrArg (Option.map Node.kind) (Function.update_self ..)

theorem kind_set_of_ne {p : List Name} (h : p ≠ n :: s.cwd) (node : Option (Node Name)) :
    (s.set n node).kind p = s.kind p :=
  congrArg (Option.map Node.kind) (Function.update_of_ne h ..)

theorem make_cwd (s : Sys Name) (n : Name) (node : Node Name) : (s.make n node).cwd = s.cwd := by
  rw [make]
  split <;> rfl

theorem make_kind (s : Sys Name) (n : Name) (node : Node Name) (p : List Name) :
    (s.make n node).kind p =
      if p = n :: s.cwd ∧ s.kind p = none then some node.kind else s.kind p := by
  rw [make]
  split
  · rename_i hnone
    by_cases hp : p = n :: s.cwd
    · subst hp
      rw [if_pos ⟨rfl, kind_none.mpr hnone⟩]
      exact kind_set_self _
    · rw [if_neg fun h => hp h.1]
      exact kind_set_of_ne hp _
  · rename_i node' hsome
    have hp : ¬ (p = n :: s.cwd ∧ s.kind p = none) := by
      rintro ⟨rfl, hnone⟩
      exact Option.some_ne_none node' (hsome.symm.trans (kind_none.mp hnone))
    rw [if_neg hp]

/-- A file that is given a second name, loses its first and gets it back is what it was. -/
theorem link_unlink_rename (hne : f ≠ f') {inode : Nat} (hf : s.entry f = some (.file inode))
    (hf' : s.entry f' = none) : ((s.link f f').unlink f).rename f' f = s := by
  have hlink : s.link f f' = s.set f' (some (.file inode)) := by
    rw [link, hf, hf']
  have hunlink : (s.set f' (some (.file inode))).unlink f =
      (s.set f' (some (.file inode))).set f none := by
    rw [unlink, entry_set_of_ne hne, hf]
  have hrename : ((s.set f' (some (.file inode))).set f none).rename f' f =
      (((s.set f' (some (.file inode))).set f none).set f' none).set f (some (.file inode)) := by
    rw [rename, entry_set_of_ne hne.symm, entry_set_self, entry_set_self]
  rw [hlink, hunlink, hrename, set_comm hne.symm, set_set, set_set, set_same hf', set_same hf]

theorem symlink_existing {target : Name} {node : Node Name} (h : s.entry n = some node) :
    s.symlink target n = s := by
  rw [symlink, make, h]

theorem unlink_missing (h : s.entry n = none) : s.unlink n = s := by
  rw [unlink, h]

theorem chmod_same (s : Sys Name) (n : Name) (mode : Nat) : Same s (s.chmod n mode) := by
  rw [chmod]
  split
  · rename_i mode' hdir
    refine ⟨rfl, fun p => ?_⟩
    by_cases hp : p = n :: s.cwd
    · subst hp
      have hset : (s.set n (some (.dir mode))).fs (n :: s.cwd) = some (.dir mode) :=
        Function.update_self ..
      rw [kind, kind, hset, show s.fs (n :: s.cwd) = some (.dir mode') from hdir]
      rfl
    · have hset : (s.set n (some (.dir mode))).fs p = s.fs p := Function.update_of_ne hp ..
      rw [kind, kind, hset]
  · exact .refl s

end Calls

theorem chdir_kind (s : Sys Name) (refused : Nat → Bool) (n : Name) (p : List Name) :
    (s.chdir refused n).kind p = s.kind p := by
  rw [chdir]
  split
  · split <;> rfl
  · rfl

theorem chdir_cwd (refused : Nat → Bool) (h : s.kind (n :: s.cwd) = some .dir) :
    (s.chdir refused n).cwd = s.cwd ∨ (s.chdir refused n).cwd = n :: s.cwd := by
  obtain ⟨mode, hdir⟩ := kind_dir.mp h
  rw [chdir, entry, hdir]
  dsimp only
  split
  · exact .inl rfl
  · exact .inr rfl

theorem chdir_enter {refused : Nat → Bool} (hrefused : refused s.chdirs = false)
    (h : s.kind (n :: s.cwd) = some .dir) : (s.chdir refused n).cwd = n :: s.cwd := by
  obtain ⟨mode, hdir⟩ := kind_dir.mp h
  rw [chdir, entry, hdir]
  dsimp only
  rw [hrefused]
  rfl

theorem chdirBack_kind (s : Sys Name) (cwd p : List Name) :
    (s.chdirBack cwd).kind p = s.kind p := by
  rw [chdirBack]
  split <;> rfl

theorem chdirBack_cwd {cwd : List Name} (h : s.kind cwd = some .dir) :
    (s.chdirBack cwd).cwd = cwd := by
  obtain ⟨mode, hdir⟩ := kind_dir.mp h
  rw [chdirBack, hdir]

end Sys

end MceTest.Library.FileSystem

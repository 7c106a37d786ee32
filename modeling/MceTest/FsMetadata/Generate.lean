import MceTest.FsMetadata.Tree

/-! What `k_tree_gen` adds to a name space. -/

namespace MceTest.FsMetadata

open MceTest.Library.FileSystem MceTest.Library.FileSystem.Sys

variable {nodeNr lvl depth : Nat} {s : Sys Name} {kind kind' kind'' : List Name → Option Kind}

def Adds (kind kind' : List Name → Option Kind) : Prop :=
  ∀ p, kind' p = kind p ∨ kind p = none ∧ ∃ q cnt,
    p = fileName cnt :: q ∧ kind' p = some .file ∨ p = dirName cnt :: q ∧ kind' p = some .dir

theorem Adds.refl (kind : List Name → Option Kind) : Adds kind kind := fun _ => .inl rfl

theorem Adds.keep (h : Adds kind kind') {p : List Name} {k : Kind} (hp : kind p = some k) :
    kind' p = some k := by
  rcases h p with hsame | ⟨hnone, -⟩
  · exact hsame.trans hp
  · cases hnone.symm.trans hp

theorem Adds.trans (h : Adds kind kind') (h' : Adds kind' kind'') : Adds kind kind'' := by
  intro p
  rcases h' p with hsame | ⟨hnone, q, cnt, hnew⟩
  · rw [hsame]
    exact h p
  · rcases h p with hsame' | ⟨hnone', -⟩
    · exact .inr ⟨hsame'.symm.trans hnone, q, cnt, hnew⟩
    · exact .inr ⟨hnone', q, cnt, hnew⟩

theorem Grown.keep (hadds : Adds kind kind') {p : List Name} (h : Grown nodeNr kind depth p) :
    Grown nodeNr kind' depth p := h.mono fun _ _ => hadds.keep

def Typed (kind : List Name → Option Kind) (p : List Name) : Prop :=
  ∀ q, p <:+ q → ∀ cnt, kind (fileName cnt :: q) ∈ [none, some Kind.file] ∧
    kind (dirName cnt :: q) ∈ [none, some Kind.dir]

theorem Typed.below {p : List Name} (h : Typed kind p) (n : Name) : Typed kind (n :: p) :=
  fun q hq => h q ((List.suffix_cons n p).trans hq)

theorem Typed.keep (hadds : Adds kind kind') {p : List Name} (h : Typed kind p) :
    Typed kind' p := by
  intro q hq cnt
  constructor
  · rcases hadds (fileName cnt :: q) with hsame | ⟨-, r, cnt', ⟨-, hnew⟩ | ⟨heq, -⟩⟩
    · rw [hsame]
      exact (h q hq cnt).1
    · rw [hnew]
      decide
    · exact absurd (List.cons.inj heq).1 (fileName_ne_dirName cnt cnt')
  · rcases hadds (dirName cnt :: q) with hsame | ⟨-, r, cnt', ⟨heq, -⟩ | ⟨-, hnew⟩⟩
    · rw [hsame]
      exact (h q hq cnt).2
    · exact absurd (List.cons.inj heq).1.symm (fileName_ne_dirName cnt' cnt)
    · rw [hnew]
      decide

structure Generated (nodeNr depth : Nat) (s t : Sys Name) : Prop where
  cwd : t.cwd = s.cwd
  adds : Adds s.kind t.kind
  grown : Grown nodeNr t.kind depth s.cwd

theorem make_adds {n : Name} (node : Node Name) {cnt : Nat}
    (h : n = fileName cnt ∧ node.kind = .file ∨ n = dirName cnt ∧ node.kind = .dir) :
    Adds s.kind (s.make n node).kind := by
  intro p
  rw [make_kind]
  split
  · rename_i hnew
    refine .inr ⟨hnew.2, s.cwd, cnt, ?_⟩
    rw [hnew.1]
    rcases h with ⟨rfl, hkind⟩ | ⟨rfl, hkind⟩
    · exact .inl ⟨rfl, congrArg some hkind⟩
    · exact .inr ⟨rfl, congrArg some hkind⟩
  · exact .inl rfl

theorem make_right {n : Name} (node : Node Name)
    (h : s.kind (n :: s.cwd) ∈ [none, some node.kind]) :
    (s.make n node).kind (n :: s.cwd) = some node.kind := by
  rw [make_kind]
  split
  · rfl
  · rename_i hne
    rcases List.mem_cons.mp h with hnone | hsome
    · exact absurd ⟨rfl, hnone⟩ hne
    · exact List.mem_singleton.mp hsome

def Only (ps : List (List Name)) (s t : Sys Name) : Prop := ∀ q ∉ ps, t.kind q = s.kind q

theorem make_only (s : Sys Name) (n : Name) (node : Node Name) :
    Only [n :: s.cwd] s (s.make n node) := by
  intro q hq
  rw [make_kind, if_neg fun h => hq (List.mem_singleton.mpr h.1)]

structure Entered (s w : Sys Name) (cnt : Nat) : Prop where
  cwd : w.cwd = dirName cnt :: s.cwd
  adds : Adds s.kind w.kind
  only : Only [fileName cnt :: s.cwd, dirName cnt :: s.cwd] s w
  file : w.kind (fileName cnt :: s.cwd) = some .file
  dir : w.kind w.cwd = some .dir
  typed : Typed w.kind w.cwd

theorem genTurn_entered (k_tree_gen : Sys Name → Sys Name) (htyped : Typed s.kind s.cwd)
    (cnt : Nat) :
    ∃ w, Entered s w cnt ∧ genTurn k_tree_gen s cnt = (k_tree_gen w).chdirBack s.cwd := by
  -- the file
  have hfile : Adds s.kind (s.creat (fileName cnt)).kind :=
    make_adds (.file s.inodes) (.inl ⟨rfl, rfl⟩)
  have hfileonly : Only [fileName cnt :: s.cwd] s (s.creat (fileName cnt)) :=
    make_only s _ (.file s.inodes)
  have hfilecwd : (s.creat (fileName cnt)).cwd = s.cwd := make_cwd ..
  have hfilekind : (s.creat (fileName cnt)).kind (fileName cnt :: s.cwd) = some .file :=
    make_right (.file s.inodes) (htyped s.cwd (List.suffix_refl _) cnt).1
  rw [genTurn]
  generalize s.creat (fileName cnt) = u at hfile hfileonly hfilecwd hfilekind
  have hutyped : Typed u.kind s.cwd := htyped.keep hfile
  -- the directory
  have hsub : Adds u.kind (u.mkdir (dirName cnt) 0o777).kind :=
    make_adds (.dir 0o777) (.inr ⟨rfl, rfl⟩)
  have hsubonly : Only [dirName cnt :: s.cwd] u (u.mkdir (dirName cnt) 0o777) :=
    hfilecwd ▸ make_only u _ (.dir 0o777)
  have hsubcwd : (u.mkdir (dirName cnt) 0o777).cwd = s.cwd := (make_cwd ..).trans hfilecwd
  have hsubkind : (u.mkdir (dirName cnt) 0o777).kind (dirName cnt :: s.cwd) = some .dir := by
    rw [← hfilecwd]
    refine make_right (.dir 0o777) ?_
    rw [hfilecwd]
    exact (hutyped s.cwd (List.suffix_refl _) cnt).2
  generalize u.mkdir (dirName cnt) 0o777 = v at hsub hsubonly hsubcwd hsubkind
  have hvtyped : Typed v.kind s.cwd := hutyped.keep hsub
  -- the change to it
  have hin : (v.chdir (fun _ => false) (dirName cnt)).cwd = dirName cnt :: s.cwd := by
    rw [chdir_enter rfl (hsubcwd ▸ hsubkind), hsubcwd]
  have hkind : (v.chdir (fun _ => false) (dirName cnt)).kind = v.kind :=
    funext (chdir_kind v _ _)
  refine ⟨v.chdir (fun _ => false) (dirName cnt), ⟨hin, ?_, fun q hq => ?_, ?_, ?_, ?_⟩, ?_⟩
  · rw [hkind]
    exact hfile.trans hsub
  · obtain ⟨hqfile, hqdir⟩ := not_or.mp (mt List.mem_cons.mpr hq)
    rw [hkind]
    exact (hsubonly q hqdir).trans (hfileonly q (mt List.mem_singleton.mp hqfile))
  · rw [hkind]
    exact hsub.keep hfilekind
  · rw [hkind, hin]
    exact hsubkind
  · rw [hkind, hin]
    exact hvtyped.below _
  · rw [hsubcwd]

structure Turned (nodeNr depth : Nat) (s t : Sys Name) (cnt : Nat) : Prop where
  cwd : t.cwd = s.cwd
  adds : Adds s.kind t.kind
  file : t.kind (fileName cnt :: s.cwd) = some .file
  dir : t.kind (dirName cnt :: s.cwd) = some .dir
  grown : Grown nodeNr t.kind depth (dirName cnt :: s.cwd)

theorem genTurn_turned {k_tree_gen : Sys Name → Sys Name}
    (hrec : ∀ u : Sys Name, u.kind u.cwd = some .dir → Typed u.kind u.cwd →
      Generated nodeNr depth u (k_tree_gen u))
    (hdir : s.kind s.cwd = some .dir) (htyped : Typed s.kind s.cwd) (cnt : Nat) :
    Turned nodeNr depth s (genTurn k_tree_gen s cnt) cnt := by
  obtain ⟨w, hw, heq⟩ := genTurn_entered k_tree_gen htyped cnt
  obtain ⟨-, hadds, hgrown⟩ := hrec w hw.dir hw.typed
  have hback : ((k_tree_gen w).chdirBack s.cwd).kind = (k_tree_gen w).kind :=
    funext (chdirBack_kind _ _)
  rw [heq]
  constructor
  · exact chdirBack_cwd (hadds.keep (hw.adds.keep hdir))
  · rw [hback]
    exact hw.adds.trans hadds
  · rw [hback]
    exact hadds.keep hw.file
  · rw [hback, ← hw.cwd]
    exact hadds.keep hw.dir
  · rw [hback, ← hw.cwd]
    exact hgrown

theorem genTurns_generated {k_tree_gen : Sys Name → Sys Name}
    (hrec : ∀ u : Sys Name, u.kind u.cwd = some .dir → Typed u.kind u.cwd →
      Generated nodeNr depth u (k_tree_gen u))
    (hdir : s.kind s.cwd = some .dir) (htyped : Typed s.kind s.cwd) (n : Nat) :
    ((List.range n).foldl (genTurn k_tree_gen) s).cwd = s.cwd ∧
      Adds s.kind ((List.range n).foldl (genTurn k_tree_gen) s).kind ∧
      ∀ cnt < n, ∃ t, Turned nodeNr depth s t cnt ∧
        Adds t.kind ((List.range n).foldl (genTurn k_tree_gen) s).kind := by
  induction n with
  | zero => exact ⟨rfl, Adds.refl _, fun cnt hcnt => absurd hcnt (Nat.not_lt_zero cnt)⟩
  | succ n ih =>
    obtain ⟨hcwd, hadds, hturns⟩ := ih
    rw [List.range_succ, List.foldl_append, List.foldl_cons, List.foldl_nil]
    generalize (List.range n).foldl (genTurn k_tree_gen) s = t at hcwd hadds hturns
    have hturn := genTurn_turned hrec (s := t) (hcwd ▸ hadds.keep hdir)
      (hcwd ▸ htyped.keep hadds) n
    refine ⟨hturn.cwd.trans hcwd, hadds.trans hturn.adds, fun cnt hcnt => ?_⟩
    rcases Nat.lt_succ_iff_lt_or_eq.mp hcnt with hlt | rfl
    · obtain ⟨u, hu, huadds⟩ := hturns cnt hlt
      exact ⟨u, hu, huadds.trans hturn.adds⟩
    · refine ⟨_, ⟨hturn.cwd.trans hcwd, hadds.trans hturn.adds, ?_, ?_, ?_⟩, Adds.refl _⟩
      · exact hcwd ▸ hturn.file
      · exact hcwd ▸ hturn.dir
      · exact hcwd ▸ hturn.grown

theorem kTreeGen_generated (hdir : s.kind s.cwd = some .dir) (htyped : Typed s.kind s.cwd) :
    Generated nodeNr lvl s (kTreeGen nodeNr lvl s) := by
  induction lvl generalizing s with
  | zero => exact ⟨rfl, Adds.refl _, trivial⟩
  | succ lvl ih =>
    obtain ⟨hcwd, hadds, hturns⟩ := genTurns_generated
      (fun u hu htyped => ih hu htyped) hdir htyped nodeNr
    refine ⟨hcwd, hadds, fun cnt hcnt => ?_⟩
    obtain ⟨t, ht, htadds⟩ := hturns cnt hcnt
    exact ⟨htadds.keep ht.file, htadds.keep ht.dir, ht.grown.keep htadds⟩

end MceTest.FsMetadata

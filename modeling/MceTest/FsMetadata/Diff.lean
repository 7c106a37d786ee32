import MceTest.FsMetadata.Pieces
import Mathlib.Logic.Function.Basic

/-! `k_tree_diff`, which compares the digests of what `find` prints of two directories. -/

namespace MceTest.FsMetadata

open Entries

/-- The two hold the same relative paths. -/
def SamePaths (e e' : Entries) : Prop := ∀ p, p ∈ e.listing ↔ p ∈ e'.listing

def SameOrder (e e' : Entries) : Prop := ∀ p, e.namesAt p = e'.namesAt p

variable {e e' sub sub' rest rest' : Entries} {n m : Name} {p q : List Name}

theorem mem_below (h : Heads e n sub rest) (hok : e.Ok) (hq : q ≠ []) :
    n :: q ∈ e.listing ↔ q ∈ sub.listing := by
  have hnew := (h.ok hok).2.1
  rw [h.mem_listing]
  constructor
  · rintro (heq | ⟨r, hr, heq⟩ | hrest)
    · exact absurd (List.cons.inj heq).2 hq
    · exact (List.cons.inj heq).2 ▸ hr
    · exact absurd (rest.listing_head n q hrest) hnew
  · exact fun hq => .inr (.inl ⟨q, hq, rfl⟩)

theorem mem_after (h : Heads e n sub rest) (hok : e.Ok) :
    p ∈ rest.listing ↔ p ∈ e.listing ∧ p.head? ≠ some n := by
  have hnew := (h.ok hok).2.1
  rw [h.mem_listing]
  constructor
  · intro hp
    refine ⟨.inr (.inr hp), fun hhead => ?_⟩
    obtain ⟨q, rfl⟩ := List.head?_eq_some_iff.mp hhead
    exact hnew (rest.listing_head n q hp)
  · rintro ⟨rfl | ⟨q, -, rfl⟩ | hp, hhead⟩
    · exact absurd rfl hhead
    · exact absurd rfl hhead
    · exact hp

theorem SamePaths.below (h : SamePaths e e') (hd : Heads e n sub rest) (hok : e.Ok)
    (hd' : Heads e' n sub' rest') (hok' : e'.Ok) : SamePaths sub sub' := by
  intro q
  by_cases hq : q = []
  · subst hq
    exact iff_of_false (fun h => sub.listing_ne_nil [] h rfl) fun h => sub'.listing_ne_nil [] h rfl
  · rw [← mem_below hd hok hq, ← mem_below hd' hok' hq]
    exact h (n :: q)

theorem SamePaths.after (h : SamePaths e e') (hd : Heads e n sub rest) (hok : e.Ok)
    (hd' : Heads e' n sub' rest') (hok' : e'.Ok) : SamePaths rest rest' := by
  intro p
  rw [mem_after hd hok, mem_after hd' hok', h p]

theorem SamePaths.eq_nil (h : SamePaths nil e) : e = nil := by
  cases e with
  | nil => rfl
  | file n rest => exact absurd ((h [n]).mpr List.mem_cons_self) List.not_mem_nil
  | dir n sub rest => exact absurd ((h [n]).mpr List.mem_cons_self) List.not_mem_nil

theorem SamePaths.heads (h : SamePaths e e') (hd : Heads e n sub rest) :
    ∃ m sub' rest', Heads e' m sub' rest' := by
  have hn : [n] ∈ e'.listing := (h [n]).mp (hd.listing ▸ List.mem_cons_self)
  have hmem := e'.listing_head n [] hn
  obtain ⟨m, ns, hnames⟩ := List.exists_cons_of_ne_nil (List.ne_nil_of_mem hmem)
  exact ⟨m, heads_of_names hnames⟩

theorem SameOrder.of_heads (hd : Heads e n sub rest) (hd' : Heads e' n sub' rest')
    (hsub : SameOrder sub sub') (hrest : SameOrder rest rest') : SameOrder e e' := by
  have hnames : rest.names = rest'.names := by
    rw [← namesAt_nil rest, ← namesAt_nil rest']
    exact hrest []
  intro p
  cases p with
  | nil => rw [namesAt_nil, namesAt_nil, hd.names, hd'.names, hnames]
  | cons m p =>
    by_cases hm : n = m
    · subst hm
      rw [hd.namesAt_same, hd'.namesAt_same]
      exact hsub p
    · rw [hd.namesAt_other hm, hd'.namesAt_other hm]
      exact hrest (m :: p)

theorem namesAt_of_not_mem (e : Entries) (p : List Name) :
    ∀ n ∉ e.names, e.namesAt (n :: p) = [] := by
  induction e using heads_induction with
  | nil => exact fun n _ => rfl
  | @entry e n sub rest h _ ih =>
    intro m hm
    rw [h.names, List.mem_cons, not_or] at hm
    rw [h.namesAt_other (fun heq => hm.1 heq.symm), ih m hm.2]

theorem SameOrder.listing_eq (h : SameOrder e e') (hok : e.Ok) (hok' : e'.Ok) :
    e.listing = e'.listing := by
  have hnames {e e' : Entries} (h : SameOrder e e') : e.names = e'.names := by
    rw [← namesAt_nil e, ← namesAt_nil e']
    exact h []
  induction e using heads_induction generalizing e' with
  | nil =>
    cases e' with
    | nil => rfl
    | file n rest => cases hnames h
    | dir n sub rest => cases hnames h
  | @entry e n sub rest hd ihsub ih =>
    have hhead := hnames h
    rw [hd.names] at hhead
    obtain ⟨sub', rest', hd'⟩ := heads_of_names hhead.symm
    rw [hd'.names, List.cons.injEq] at hhead
    obtain ⟨-, hnew, hsub, hrest⟩ := hd.ok hok
    obtain ⟨-, hnew', hsub', hrest'⟩ := hd'.ok hok'
    have hbelow : SameOrder sub sub' := fun p => by
      rw [← hd.namesAt_same, ← hd'.namesAt_same]
      exact h (n :: p)
    have hafter : SameOrder rest rest' := fun p => by
      cases p with
      | nil => rw [namesAt_nil, namesAt_nil, hhead.2]
      | cons m p =>
        by_cases hm : n = m
        · subst hm
          rw [namesAt_of_not_mem rest p n hnew, namesAt_of_not_mem rest' p n hnew']
        · rw [← hd.namesAt_other hm, ← hd'.namesAt_other hm]
          exact h (m :: p)
    rw [hd.listing, hd'.listing, ihsub hbelow hsub hsub', ih hafter hrest hrest']

/-- With the same paths, the pieces tell the order, also below a directory. -/
theorem order_of_pieces (h : SamePaths e e') (hok : e.Ok) (hok' : e'.Ok) (above : List Name)
    {X Y : List (List Name)}
    (heq : e.listing.flatMap (fun p => cut (above ++ p)) ++ X =
      e'.listing.flatMap (fun p => cut (above ++ p)) ++ Y) : SameOrder e e' ∧ X = Y := by
  induction e using heads_induction generalizing e' above X Y with
  | nil =>
    rw [h.eq_nil] at heq ⊢
    exact ⟨fun _ => rfl, heq⟩
  | @entry e n sub rest hd ihsub ih =>
    obtain ⟨m, sub', rest', hd'⟩ := h.heads hd
    rw [hd.listing, hd'.listing, List.flatMap_cons, List.flatMap_cons, List.flatMap_append,
      List.flatMap_append, List.flatMap_map, List.flatMap_map, List.append_assoc,
      List.append_assoc, List.append_assoc, List.append_assoc] at heq
    obtain ⟨hfirst, heq⟩ := List.append_inj heq (cut_concat_length above n m)
    obtain rfl := cut_concat_inj above hfirst
    obtain ⟨-, -, hsub, hrest⟩ := hd.ok hok
    obtain ⟨-, -, hsub', hrest'⟩ := hd'.ok hok'
    have hunder (q : List Name) : cut (above ++ n :: q) = cut (above ++ [n] ++ q) :=
      congrArg cut (List.append_cons above n q)
    simp only [hunder] at heq
    obtain ⟨hbelow, heq⟩ := ihsub (h.below hd hok hd' hok') hsub hsub' (above ++ [n]) heq
    obtain ⟨hafter, hend⟩ := ih (h.after hd hok hd' hok') hrest hrest' above heq
    exact ⟨.of_heads hd hd' hbelow hafter, hend⟩

/-- No directory with entries has a name that ends like the text before a path. -/
def Plain (e : Entries) : Prop := ∀ p ∈ e.listing, ∀ n ∈ p.dropLast, ¬ Broken n

theorem cut_plain (hp : p ≠ []) (h : ∀ n ∈ p.dropLast, ¬ Broken n) : cut p = [p] := by
  induction p with
  | nil => exact absurd rfl hp
  | cons n p ih =>
    cases p with
    | nil => rfl
    | cons m p =>
      rw [List.dropLast_cons_of_ne_nil (List.cons_ne_nil m p), List.forall_mem_cons] at h
      rw [cut_cons, ih (List.cons_ne_nil m p) h.2, above, if_neg h.1]

theorem pieces_plain (h : Plain e) : pieces e = e.listing := by
  have hcut : e.listing.flatMap cut = e.listing.flatMap fun p => [p] :=
    List.flatMap_congr fun p hp => cut_plain (e.listing_ne_nil p hp) (h p hp)
  rw [pieces, hcut, List.flatMap_singleton']

structure Directory where
  entries : Entries
  ok : entries.Ok

variable {Digest : Type} [DecidableEq Digest]

/-- The status of `k_tree_diff`. -/
def kTreeDiff (md5sum : List Char → Digest) (ta tb : Entries) : Nat :=
  if md5sum (findText ta) = md5sum (findText tb) then 0 else 1

/-- The order is the same if the paths are; and where a name makes the output of `find`
ambiguous, other paths give other output. -/
def Comparable (ta tb : Entries) : Prop :=
  (SamePaths ta tb → SameOrder ta tb) ∧
    (¬ (Plain ta ∧ Plain tb) → pieces ta = pieces tb → SamePaths ta tb)

theorem kTreeDiff_zero {md5sum : List Char → Digest} (hmd5 : Function.Injective md5sum)
    (ta tb : Directory) :
    kTreeDiff md5sum ta.entries tb.entries = 0 ↔ pieces ta.entries = pieces tb.entries := by
  rw [kTreeDiff, ← findText_inj ta.ok tb.ok, ← hmd5.eq_iff]
  split
  · exact iff_of_true rfl (by assumption)
  · exact iff_of_false Nat.one_ne_zero (by assumption)

/-- `k_tree_diff` tells whether the paths are the same exactly where the order is too. -/
theorem kTreeDiff_iff {md5sum : List Char → Digest} (hmd5 : Function.Injective md5sum)
    (ta tb : Directory) :
    (kTreeDiff md5sum ta.entries tb.entries = 0 ↔ SamePaths ta.entries tb.entries) ↔
      Comparable ta.entries tb.entries := by
  rw [kTreeDiff_zero hmd5]
  constructor
  · intro h
    refine ⟨fun hsame => ?_, fun _ => h.mp⟩
    exact (order_of_pieces hsame ta.ok tb.ok [] (congrArg (· ++ []) (h.mpr hsame))).1
  · rintro ⟨horder, hother⟩
    constructor
    · intro heq
      by_cases hplain : Plain ta.entries ∧ Plain tb.entries
      · rw [pieces_plain hplain.1, pieces_plain hplain.2] at heq
        intro p
        rw [heq]
      · exact hother hplain heq
    · intro hsame
      rw [pieces, pieces, (horder hsame).listing_eq ta.ok tb.ok]

/-- A file and a directory of `k_tree_gen`, as they may be enumerated. -/
def fileFirst : Directory :=
  ⟨.file (fileName 0) (.dir (dirName 0) .nil .nil), by decide⟩

def dirFirst : Directory :=
  ⟨.dir (dirName 0) .nil (.file (fileName 0) .nil), by decide⟩

def dirOnly : Directory := ⟨.dir (dirName 0) .nil .nil, by decide⟩

/-- Two trees that are different, and found so. -/
theorem kTreeDiff_iff_lost :
    Function.Injective (id : List Char → List Char) ∧
      kTreeDiff id fileFirst.entries dirOnly.entries = 1 ∧
      ¬ SamePaths fileFirst.entries dirOnly.entries := by
  have hother : ¬ SamePaths fileFirst.entries dirOnly.entries := fun hsame =>
    absurd ((hsame [fileName 0]).mp List.mem_cons_self) (by decide +kernel)
  have hpieces : pieces fileFirst.entries ≠ pieces dirOnly.entries := by decide +kernel
  have hiff := (kTreeDiff_iff Function.injective_id fileFirst dirOnly).mpr
    ⟨fun hsame => absurd hsame hother, fun _ heq => absurd heq hpieces⟩
  refine ⟨Function.injective_id, ?_, hother⟩
  rw [kTreeDiff, if_neg]
  exact fun heq => hother (hiff.mp (if_pos heq))

/-- The same paths, taken for others. -/
theorem order_reported :
    SamePaths fileFirst.entries dirFirst.entries ∧
      kTreeDiff id fileFirst.entries dirFirst.entries = 1 := by
  refine ⟨fun p => ?_, by decide +kernel⟩
  simp only [fileFirst, dirFirst, listing, List.map_nil, List.cons_append, List.nil_append,
    List.mem_cons]
  exact or_left_comm

end MceTest.FsMetadata

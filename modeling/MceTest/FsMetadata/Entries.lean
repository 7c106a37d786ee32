import MceTest.FsMetadata.Traverse
import MceTest.Library.Numeral
import Mathlib.Algebra.Ring.GeomSum

/-! Which entries `k_tree_gen` creates in an empty directory, and how many. -/

namespace MceTest.FsMetadata

open MceTest.Library.FileSystem MceTest.Library.FileSystem.Sys

variable {nodeNr lvl depth : Nat} {s t : Sys Name}

def treePaths (nodeNr : Nat) : Nat → List Name → List (List Name)
  | 0, _ => []
  | lvl + 1, p => (List.range nodeNr).flatMap fun cnt =>
      (fileName cnt :: p) :: (dirName cnt :: p) :: treePaths nodeNr lvl (dirName cnt :: p)

/-- Two for each node of a tree with `nodeNr` branches at each of `depth` levels. -/
def treeEntries (nodeNr depth : Nat) : Nat := 2 * ∑ i ∈ Finset.range depth, nodeNr ^ (i + 1)

theorem treeEntries_succ (nodeNr depth : Nat) :
    treeEntries nodeNr (depth + 1) = nodeNr * (treeEntries nodeNr depth + 2) := by
  have hshift : ∑ i ∈ Finset.range depth, nodeNr ^ (i + 1 + 1) =
      (∑ i ∈ Finset.range depth, nodeNr ^ (i + 1)) * nodeNr := by
    rw [Finset.sum_mul]
    exact Finset.sum_congr rfl fun i _ => pow_succ nodeNr (i + 1)
  rw [treeEntries, treeEntries, Finset.sum_range_succ', hshift, Nat.zero_add, pow_one]
  ring

theorem treePaths_length (nodeNr depth : Nat) (p : List Name) :
    (treePaths nodeNr depth p).length = treeEntries nodeNr depth := by
  induction depth generalizing p with
  | zero => rfl
  | succ depth ih =>
    have hturn : (fun cnt => ((fileName cnt :: p) :: (dirName cnt :: p) ::
        treePaths nodeNr depth (dirName cnt :: p)).length) =
        fun _ => treeEntries nodeNr depth + 2 := by
      funext cnt
      rw [List.length_cons, List.length_cons, ih]
    rw [treePaths, List.length_flatMap, hturn, List.map_const', List.sum_replicate_nat,
      List.length_range, treeEntries_succ]

theorem treePaths_below {p q : List Name} (h : q ∈ treePaths nodeNr depth p) :
    ∃ n r, q = r ++ n :: p := by
  induction depth generalizing p with
  | zero => cases h
  | succ depth ih =>
    obtain ⟨cnt, -, hq⟩ := List.mem_flatMap.mp h
    rcases List.mem_cons.mp hq with rfl | hq
    · exact ⟨fileName cnt, [], rfl⟩
    · rcases List.mem_cons.mp hq with rfl | hq
      · exact ⟨dirName cnt, [], rfl⟩
      · obtain ⟨n, r, rfl⟩ := ih hq
        exact ⟨dirName cnt, r ++ [n], by rw [List.append_assoc]; rfl⟩

theorem named_inj {cnt cnt' : Nat} {suffix : String} (h : named cnt suffix = named cnt' suffix) :
    cnt = cnt' :=
  Library.Numeral.toDigits_injective (by decide) (by decide) (List.append_cancel_right h)

theorem turn_below {cnt : Nat} {p q : List Name}
    (h : q ∈ (fileName cnt :: p) :: (dirName cnt :: p) ::
      treePaths nodeNr depth (dirName cnt :: p)) :
    q = fileName cnt :: p ∨ ∃ r, q = r ++ dirName cnt :: p := by
  rcases List.mem_cons.mp h with rfl | h
  · exact .inl rfl
  · rcases List.mem_cons.mp h with rfl | h
    · exact .inr ⟨[], rfl⟩
    · obtain ⟨n, r, rfl⟩ := treePaths_below h
      exact .inr ⟨r ++ [n], by rw [List.append_assoc]; rfl⟩

theorem turns_disjoint {cnt cnt' : Nat} (hne : cnt ≠ cnt') {p q : List Name}
    (h : q = fileName cnt :: p ∨ ∃ r, q = r ++ dirName cnt :: p)
    (h' : q = fileName cnt' :: p ∨ ∃ r, q = r ++ dirName cnt' :: p) : False := by
  have hfile (c c' : Nat) {r : List Name} (h : fileName c :: p = r ++ dirName c' :: p) : False := by
    have hsuffix : [fileName c] ++ p = (r ++ [dirName c']) ++ p := by
      rw [List.append_assoc]
      exact h
    have hlast := congrArg List.getLast? (List.append_cancel_right hsuffix)
    rw [List.getLast?_concat] at hlast
    exact fileName_ne_dirName c c' (Option.some.inj hlast)
  rcases h with rfl | ⟨r, rfl⟩
  · rcases h' with h' | ⟨r', h'⟩
    · exact hne (named_inj (List.cons.inj h').1)
    · exact hfile cnt cnt' h'
  · rcases h' with h' | ⟨r', h'⟩
    · exact hfile cnt' cnt h'.symm
    · have hsuffix : (r ++ [dirName cnt]) ++ p = (r' ++ [dirName cnt']) ++ p := by
        rw [List.append_assoc, List.append_assoc]
        exact h'
      have hlast := congrArg List.getLast? (List.append_cancel_right hsuffix)
      rw [List.getLast?_concat, List.getLast?_concat] at hlast
      exact hne (named_inj (Option.some.inj hlast))

theorem treePaths_nodup (nodeNr depth : Nat) (p : List Name) :
    (treePaths nodeNr depth p).Nodup := by
  induction depth generalizing p with
  | zero => exact List.nodup_nil
  | succ depth ih =>
    refine List.nodup_flatMap.mpr ⟨fun cnt _ => ?_, List.nodup_range.imp fun hne q h h' =>
      turns_disjoint hne (turn_below h) (turn_below h')⟩
    have hbelow (q : List Name) (hq : q.length ≤ p.length + 1) :
        q ∉ treePaths nodeNr depth (dirName cnt :: p) := by
      intro h
      obtain ⟨n, r, rfl⟩ := treePaths_below h
      simp at hq
      omega
    refine List.nodup_cons.mpr ⟨fun h => ?_, List.nodup_cons.mpr ⟨hbelow _ (Nat.le_refl _), ih _⟩⟩
    rcases List.mem_cons.mp h with h | h
    · exact fileName_ne_dirName cnt cnt (List.cons.inj h).1
    · exact hbelow _ (Nat.le_refl _) h

theorem genTurn_only {k_tree_gen : Sys Name → Sys Name}
    (hrec : ∀ u : Sys Name, u.kind u.cwd = some .dir → Typed u.kind u.cwd →
      Only (treePaths nodeNr depth u.cwd) u (k_tree_gen u))
    (htyped : Typed s.kind s.cwd) (cnt : Nat) :
    Only ((fileName cnt :: s.cwd) :: (dirName cnt :: s.cwd) ::
      treePaths nodeNr depth (dirName cnt :: s.cwd)) s (genTurn k_tree_gen s cnt) := by
  intro q hq
  obtain ⟨w, hw, heq⟩ := genTurn_entered k_tree_gen htyped cnt
  rw [heq, chdirBack_kind, hrec w hw.dir hw.typed q, hw.only q]
  · exact fun h => hq (List.mem_append_left _ h)
  · rw [hw.cwd]
    exact fun h => hq (List.mem_append_right [_, _] h)

theorem genTurns_only {k_tree_gen : Sys Name → Sys Name}
    (hgen : ∀ u : Sys Name, u.kind u.cwd = some .dir → Typed u.kind u.cwd →
      Generated nodeNr depth u (k_tree_gen u))
    (honly : ∀ u : Sys Name, u.kind u.cwd = some .dir → Typed u.kind u.cwd →
      Only (treePaths nodeNr depth u.cwd) u (k_tree_gen u))
    (hdir : s.kind s.cwd = some .dir) (htyped : Typed s.kind s.cwd) (n : Nat) :
    Only ((List.range n).flatMap fun cnt => (fileName cnt :: s.cwd) :: (dirName cnt :: s.cwd) ::
      treePaths nodeNr depth (dirName cnt :: s.cwd)) s
      ((List.range n).foldl (genTurn k_tree_gen) s) := by
  induction n with
  | zero => exact fun q _ => rfl
  | succ n ih =>
    intro q hq
    rw [List.range_succ, List.flatMap_append, List.flatMap_singleton] at hq
    rw [List.range_succ, List.foldl_append, List.foldl_cons, List.foldl_nil]
    obtain ⟨hcwd, hadds, -⟩ := genTurns_generated hgen hdir htyped n
    have hturn := genTurn_only honly (hcwd ▸ htyped.keep hadds) n q
    rw [hcwd] at hturn
    rw [hturn fun h => hq (List.mem_append_right _ h)]
    exact ih q fun h => hq (List.mem_append_left _ h)

theorem kTreeGen_only (hdir : s.kind s.cwd = some .dir) (htyped : Typed s.kind s.cwd) :
    Only (treePaths nodeNr lvl s.cwd) s (kTreeGen nodeNr lvl s) := by
  induction lvl generalizing s with
  | zero => exact fun q _ => rfl
  | succ lvl ih =>
    exact genTurns_only (fun u hu htyped => kTreeGen_generated hu htyped)
      (fun u hu htyped => ih hu htyped) hdir htyped nodeNr

theorem Grown.paths {kind : List Name → Option Kind} {p q : List Name}
    (h : Grown nodeNr kind depth p) (hq : q ∈ treePaths nodeNr depth p) : kind q ≠ none := by
  induction depth generalizing p with
  | zero => cases hq
  | succ depth ih =>
    obtain ⟨cnt, hcnt, hq⟩ := List.mem_flatMap.mp hq
    obtain ⟨hfile, hdir, hbelow⟩ := h cnt (List.mem_range.mp hcnt)
    rcases List.mem_cons.mp hq with rfl | hq
    · rw [hfile]
      exact Option.some_ne_none _
    · rcases List.mem_cons.mp hq with rfl | hq
      · rw [hdir]
        exact Option.some_ne_none _
      · exact ih hbelow hq

/-- A number of entries is new, and the old ones are what they were. -/
structure Created (s t : Sys Name) (n : Nat) : Prop where
  kept : ∀ p, s.kind p ≠ none → t.kind p = s.kind p
  created : ∃ ps : List (List Name), ps.Nodup ∧ ps.length = n ∧
    ∀ p, p ∈ ps ↔ s.kind p = none ∧ t.kind p ≠ none

theorem kTreeGen_created (hs : EmptyDir s) :
    Created s (kTreeGen nodeNr depth s) (treeEntries nodeNr depth) := by
  have hgen : Generated nodeNr depth s (kTreeGen nodeNr depth s) := hs.generated
  have honly : Only (treePaths nodeNr depth s.cwd) s (kTreeGen nodeNr depth s) :=
    kTreeGen_only hs.dir hs.typed
  refine ⟨fun p hp => ?_, treePaths nodeNr depth s.cwd, treePaths_nodup .., treePaths_length ..,
    fun p => ⟨fun hp => ⟨?_, hgen.grown.paths hp⟩, fun hp => ?_⟩⟩
  · obtain ⟨k, hk⟩ := Option.ne_none_iff_exists'.mp hp
    rw [hk]
    exact hgen.adds.keep hk
  · obtain ⟨n, r, rfl⟩ := treePaths_below hp
    have hempty := hs.empty (r ++ [n]) (List.append_ne_nil_of_right_ne_nil r (List.cons_ne_nil n _))
    rwa [List.append_assoc] at hempty
  · by_contra hmem
    exact hp.2 ((honly p hmem).trans hp.1)

end MceTest.FsMetadata

import MceTest.FsMetadata.Find
import MceTest.Library.Separated

/-! What can be read back from the output of `find`: the paths, but for a directory's name that
ends like the text before a path. -/

namespace MceTest.FsMetadata

open MceTest.Library.Separated Entries

def lead : List Char := ['\n', '.', '/']

/-- A directory's name after which a path looks like the end of one and the lead of another. -/
def Broken (n : Name) : Prop := ['\n', '.'] <:+ n

instance (n : Name) : Decidable (Broken n) := inferInstanceAs (Decidable (_ <:+ _))

/-- A directory's name goes before the first of the pieces of a path below. -/
def above (n : Name) : List (List Name) → List (List Name)
  | [] => [[n]]
  | q :: qs => if Broken n then [n.take (n.length - 2)] :: q :: qs else (n :: q) :: qs

def cut (p : List Name) : List (List Name) := p.foldr above []

/-- The paths that the output of `find` in a directory is taken for. -/
def pieces (e : Entries) : List (List Name) := e.listing.flatMap cut

variable {e e' : Entries} {n m : Name} {p q : List Name} {qs : List (List Name)}

theorem cut_cons (n : Name) (p : List Name) : cut (n :: p) = above n (cut p) := rfl

theorem above_ne_nil (n : Name) (qs : List (List Name)) : above n qs ≠ [] := by
  cases qs with
  | nil => exact List.cons_ne_nil [n] []
  | cons q qs =>
    rw [above]
    split
    · exact List.cons_ne_nil _ _
    · exact List.cons_ne_nil _ _

theorem cut_ne_nil (hp : p ≠ []) : cut p ≠ [] := by
  cases p with
  | nil => exact absurd rfl hp
  | cons n p => exact above_ne_nil n (cut p)

theorem above_inj {rs : List (List Name)} (hq : qs ≠ []) (hr : rs ≠ [])
    (h : above n qs = above n rs) : qs = rs := by
  obtain ⟨q, qs, rfl⟩ := List.exists_cons_of_ne_nil hq
  obtain ⟨r, rs, rfl⟩ := List.exists_cons_of_ne_nil hr
  rw [above, above] at h
  split at h
  · exact (List.cons.inj h).2
  · rw [List.cons.injEq, List.cons.injEq] at h
    rw [h.1.2, h.2]

theorem above_length {rs : List (List Name)} (hq : qs ≠ []) (hr : rs ≠ [])
    (h : qs.length = rs.length) : (above n qs).length = (above n rs).length := by
  obtain ⟨q, qs, rfl⟩ := List.exists_cons_of_ne_nil hq
  obtain ⟨r, rs, rfl⟩ := List.exists_cons_of_ne_nil hr
  rw [above, above]
  split
  · exact congrArg (· + 1) h
  · exact h

theorem concat_ne_nil (p : List Name) (n : Name) : p ++ [n] ≠ [] :=
  List.append_ne_nil_of_right_ne_nil p (List.cons_ne_nil n [])

theorem cut_concat_length (p : List Name) (n m : Name) :
    (cut (p ++ [n])).length = (cut (p ++ [m])).length := by
  induction p with
  | nil => rfl
  | cons k p ih =>
    exact above_length (cut_ne_nil (concat_ne_nil p n)) (cut_ne_nil (concat_ne_nil p m)) ih

theorem cut_concat_inj (p : List Name) (h : cut (p ++ [n]) = cut (p ++ [m])) : n = m := by
  induction p with
  | nil =>
    obtain ⟨rfl⟩ : [[n]] = [[m]] := h
    rfl
  | cons k p ih =>
    exact ih (above_inj (cut_ne_nil (concat_ne_nil p n)) (cut_ne_nil (concat_ne_nil p m)) h)

def IsPiece (q : List Name) : Prop :=
  q ≠ [] ∧ (∀ n ∈ q, '/' ∉ n) ∧ ∀ n ∈ q.dropLast, ¬ Broken n

theorem above_isPiece (hn : '/' ∉ n) (hqs : ∀ q ∈ qs, IsPiece q) : ∀ q ∈ above n qs, IsPiece q := by
  have hone {m : Name} (hm : '/' ∉ m) : IsPiece [m] :=
    ⟨List.cons_ne_nil m [], by simpa using hm, fun _ h => absurd h List.not_mem_nil⟩
  cases qs with
  | nil => simpa only [above, List.forall_mem_singleton] using hone hn
  | cons q qs =>
    rw [List.forall_mem_cons] at hqs
    obtain ⟨⟨hne, hslash, hbroken⟩, hrest⟩ := hqs
    rw [above]
    split
    · rw [List.forall_mem_cons, List.forall_mem_cons]
      exact ⟨hone fun h => hn (List.mem_of_mem_take h), ⟨hne, hslash, hbroken⟩, hrest⟩
    · rename_i hnot
      rw [List.forall_mem_cons]
      refine ⟨⟨List.cons_ne_nil n q, List.forall_mem_cons.mpr ⟨hn, hslash⟩, ?_⟩, hrest⟩
      rw [List.dropLast_cons_of_ne_nil hne]
      exact List.forall_mem_cons.mpr ⟨hnot, hbroken⟩

theorem cut_isPiece (hp : ∀ n ∈ p, '/' ∉ n) : ∀ q ∈ cut p, IsPiece q := by
  induction p with
  | nil => exact fun q hq => absurd hq List.not_mem_nil
  | cons n p ih =>
    rw [List.forall_mem_cons] at hp
    exact above_isPiece hp.1 (ih hp.2)

theorem cut_text (hp : p ≠ []) (hslash : ∀ n ∈ p, '/' ∉ n) :
    (cut p).flatMap (fun q => lead ++ slashed q) = lead ++ slashed p := by
  induction p with
  | nil => exact absurd rfl hp
  | cons n p ih =>
    rw [List.forall_mem_cons] at hslash
    cases p with
    | nil => exact List.flatMap_singleton _ [n]
    | cons m p =>
      specialize ih (List.cons_ne_nil m p) hslash.2
      have hpiece := cut_isPiece hslash.2
      rw [cut_cons, slashed_cons n (List.cons_ne_nil m p)]
      cases hcut : cut (m :: p) with
      | nil => exact absurd hcut (cut_ne_nil (List.cons_ne_nil m p))
      | cons q qs =>
        rw [hcut] at ih hpiece
        rw [List.flatMap_cons] at ih
        rw [above]
        split
        · rename_i hbroken
          obtain ⟨k, rfl⟩ := hbroken
          rw [List.flatMap_cons, List.flatMap_cons, ih]
          simp [slashed, lead]
        · have hq := (hpiece q List.mem_cons_self).1
          rw [List.append_assoc, List.append_cancel_left_eq] at ih
          rw [List.flatMap_cons, slashed_cons n hq, ← ih]
          simp

theorem lead_infix_append {t : List Char} (hn : '/' ∉ n) (h : lead <:+: n ++ '/' :: t) :
    Broken n ∨ lead <:+: t := by
  obtain ⟨s, r, h⟩ := h
  have hsplit : (s ++ ['\n', '.']) ++ '/' :: r = n ++ '/' :: t := by
    rw [← h, lead, List.append_assoc, List.append_assoc]
    rfl
  rcases List.append_eq_append_iff.mp hsplit with ⟨d, hd, hrest⟩ | ⟨d, hd, hrest⟩
  · cases d with
    | nil => exact .inl ⟨s, by rw [hd, List.append_nil]⟩
    | cons c d =>
      obtain ⟨rfl, -⟩ := List.cons.inj hrest
      rw [hd] at hn
      exact absurd (List.mem_append_right _ List.mem_cons_self) hn
  · cases d with
    | nil => exact .inl ⟨s, by rw [hd, List.append_nil]⟩
    | cons c d =>
      obtain ⟨rfl, rfl⟩ := List.cons.inj hrest
      have hend : '/' :: d <:+ s ++ ['\n', '.'] := ⟨n, hd.symm⟩
      rcases List.suffix_or_suffix_of_suffix hend (List.suffix_append s ['\n', '.']) with h | h
      · exact absurd (h.subset List.mem_cons_self) (by decide)
      · obtain ⟨k, rfl⟩ := (List.suffix_cons_iff.mp h).resolve_left (by simp)
        exact .inr ⟨k, r, by simp [lead]⟩

theorem slashed_no_lead (hq : IsPiece q) : ¬ lead <:+: slashed q := by
  induction q with
  | nil => exact absurd rfl hq.1
  | cons n q ih =>
    obtain ⟨-, hslash, hbroken⟩ := hq
    rw [List.forall_mem_cons] at hslash
    cases q with
    | nil =>
      intro h
      rw [slashed, List.intercalate_singleton] at h
      exact hslash.1 (h.subset (by decide))
    | cons m q =>
      rw [List.dropLast_cons_of_ne_nil (List.cons_ne_nil m q), List.forall_mem_cons] at hbroken
      rw [slashed_cons n (List.cons_ne_nil m q)]
      intro h
      rcases lead_infix_append hslash.1 h with h | h
      · exact hbroken.1 h
      · exact ih ⟨List.cons_ne_nil m q, hslash.2, hbroken.2⟩ h

theorem splitOn_slashed (hq : IsPiece q) : (slashed q).splitOn '/' = q :=
  List.splitOn_intercalate '/' hq.2.1 hq.1

theorem listing_slash (h : e.Ok) : ∀ p ∈ e.listing, ∀ n ∈ p, '/' ∉ n := by
  induction e using heads_induction with
  | nil => exact fun p hp => absurd hp List.not_mem_nil
  | @entry e n sub rest hheads ihsub ih =>
    obtain ⟨hn, -, hsub, hrest⟩ := hheads.ok h
    intro p hp
    rcases hheads.mem_listing.mp hp with rfl | ⟨q, hq, rfl⟩ | hp
    · exact List.forall_mem_singleton.mpr hn.2.1
    · exact List.forall_mem_cons.mpr ⟨hn.2.1, ihsub hsub q hq⟩
    · exact ih hrest p hp

theorem flatMap_shift {α β : Type} (f : α → List β) (x : List β) (l : List α) :
    x ++ l.flatMap (fun a => f a ++ x) = l.flatMap (fun a => x ++ f a) ++ x := by
  induction l with
  | nil => exact List.append_nil x
  | cons a l ih =>
    rw [List.flatMap_cons, List.flatMap_cons, List.append_assoc (f a), ih]
    simp only [List.append_assoc]

theorem findText_eq (h : e.Ok) :
    findText e = '.' :: joined lead ['\n'] ((pieces e).map slashed) := by
  have htext : ((pieces e).map slashed).flatMap (lead ++ ·) =
      e.listing.flatMap fun p => lead ++ slashed p := by
    rw [List.flatMap_map, pieces, List.flatMap_assoc]
    exact List.flatMap_congr fun p hp => cut_text (e.listing_ne_nil p hp) (listing_slash h p hp)
  rw [joined, htext, findText, find_eq_listing, List.flatMap_cons, List.flatMap_map]
  refine congrArg ('.' :: ·) ?_
  exact flatMap_shift (fun p => ['.'] ++ '/' :: slashed p) ['\n'] e.listing

theorem lead_stop {t : List Char} (ht : ¬ lead <:+: t) : ¬ lead <:+: t ++ ['\n'] := by
  rw [List.infix_concat_iff, not_or]
  refine ⟨fun ⟨k, h⟩ => ?_, ht⟩
  have hlast := congrArg List.getLast? h
  rw [List.getLast?_append_of_ne_nil _ (by decide), List.getLast?_concat] at hlast
  cases hlast

theorem pieces_isPiece (h : e.Ok) : ∀ q ∈ pieces e, IsPiece q := by
  intro q hq
  obtain ⟨p, hp, hq⟩ := List.mem_flatMap.mp hq
  exact cut_isPiece (listing_slash h p hp) q hq

/-- The output of `find` tells the pieces of the paths, and no more. -/
theorem findText_inj (h : e.Ok) (h' : e'.Ok) : findText e = findText e' ↔ pieces e = pieces e' := by
  have hlead {e : Entries} (h : e.Ok) : ∀ t ∈ (pieces e).map slashed, ¬ lead <:+: t :=
    List.forall_mem_map.mpr fun q hq => slashed_no_lead (pieces_isPiece h q hq)
  have hread {e : Entries} (h : e.Ok) :
      ((pieces e).map slashed).map (List.splitOn '/') = pieces e := by
    rw [List.map_map]
    refine (List.map_congr_left fun q hq => ?_).trans (List.map_id (pieces e))
    exact splitOn_slashed (pieces_isPiece h q hq)
  constructor
  · intro heq
    rw [findText_eq h, findText_eq h', List.cons.injEq] at heq
    have hmap := joined_injective (by decide) (fun _ => lead_stop) (hlead h) (hlead h') heq.2
    rw [← hread h, ← hread h', hmap]
  · intro heq
    rw [findText_eq h, findText_eq h', heq]

end MceTest.FsMetadata

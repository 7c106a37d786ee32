import Mathlib.Data.List.Induction
import Mathlib.Data.List.Nodup

/-! Recording each value once, where a value counts as recorded when something it is found in has
been recorded before. -/

namespace MceTest.Library.Once

variable {α : Type} (R : α → α → Prop) [DecidableRel R]

def record (recorded : List α) (x : α) : List α :=
  if recorded.any fun y => R x y then recorded else recorded ++ [x]

def recordAll (xs : List α) : List α := xs.foldl (record R) []

theorem recordAll_concat (xs : List α) (x : α) :
    recordAll R (xs ++ [x]) = record R (recordAll R xs) x := by
  rw [recordAll, List.foldl_append]
  rfl

variable {R}

theorem record_of_found {recorded : List α} {x : α} (h : ∃ y ∈ recorded, R x y) :
    record R recorded x = recorded := by
  obtain ⟨y, hy, hxy⟩ := h
  exact if_pos (List.any_eq_true.mpr ⟨y, hy, decide_eq_true hxy⟩)

theorem record_of_not_found {recorded : List α} {x : α} (h : ¬ ∃ y ∈ recorded, R x y) :
    record R recorded x = recorded ++ [x] := by
  refine if_neg fun hany => h ?_
  obtain ⟨y, hy, hxy⟩ := List.any_eq_true.mp hany
  exact ⟨y, hy, of_decide_eq_true hxy⟩

theorem mem_of_mem_recordAll {xs : List α} {y : α} (h : y ∈ recordAll R xs) : y ∈ xs := by
  induction xs using List.reverseRecOn with
  | nil => exact h
  | append_singleton xs x ih =>
    rw [recordAll_concat] at h
    by_cases hfound : ∃ y ∈ recordAll R xs, R x y
    · rw [record_of_found hfound] at h
      exact List.mem_append_left _ (ih h)
    · rw [record_of_not_found hfound] at h
      rcases List.mem_append.mp h with h | h
      · exact List.mem_append_left _ (ih h)
      · exact List.mem_append_right _ h

variable (hrefl : ∀ x, R x x)
include hrefl

/-- Whatever has come by is found in something recorded. -/
theorem found_recordAll {xs : List α} {x : α} (h : x ∈ xs) : ∃ y ∈ recordAll R xs, R x y := by
  induction xs using List.reverseRecOn with
  | nil => cases h
  | append_singleton xs z ih =>
    rw [recordAll_concat]
    by_cases hfound : ∃ y ∈ recordAll R xs, R z y
    · rw [record_of_found hfound]
      rcases List.mem_append.mp h with h | h
      · exact ih h
      · rwa [List.mem_singleton.mp h]
    · rw [record_of_not_found hfound]
      rcases List.mem_append.mp h with h | h
      · obtain ⟨y, hy, hxy⟩ := ih h
        exact ⟨y, List.mem_append_left _ hy, hxy⟩
      · exact ⟨x, List.mem_append_right _ h, hrefl x⟩

theorem nodup_recordAll (xs : List α) : (recordAll R xs).Nodup := by
  induction xs using List.reverseRecOn with
  | nil => exact List.nodup_nil
  | append_singleton xs x ih =>
    rw [recordAll_concat]
    by_cases hfound : ∃ y ∈ recordAll R xs, R x y
    · rwa [record_of_found hfound]
    · rw [record_of_not_found hfound]
      refine List.nodup_append'.mpr ⟨ih, List.nodup_singleton x, ?_⟩
      exact List.disjoint_singleton.mpr fun hx => hfound ⟨x, hx, hrefl x⟩

variable (htrans : ∀ x y z, R x y → R y z → R x z)
include htrans

theorem found_recordAll_iff {xs : List α} {x : α} :
    (∃ y ∈ recordAll R xs, R x y) ↔ ∃ y ∈ xs, R x y := by
  constructor
  · rintro ⟨y, hy, hxy⟩
    exact ⟨y, mem_of_mem_recordAll hy, hxy⟩
  · rintro ⟨y, hy, hxy⟩
    obtain ⟨z, hz, hyz⟩ := found_recordAll hrefl hy
    exact ⟨z, hz, htrans x y z hxy hyz⟩

/-- A value is recorded when it comes before everything it is found in. -/
theorem mem_recordAll_iff {xs : List α} {x : α} :
    x ∈ recordAll R xs ↔ ∃ pre post, xs = pre ++ x :: post ∧ ∀ y ∈ pre, ¬ R x y := by
  induction xs using List.reverseRecOn with
  | nil =>
    constructor
    · nofun
    · rintro ⟨pre, post, h, -⟩
      exact absurd h.symm (by simp)
  | append_singleton xs z ih =>
    have hsplit : (∃ pre post, xs ++ [z] = pre ++ x :: post ∧ ∀ y ∈ pre, ¬ R x y) ↔
        (∃ pre post, xs = pre ++ x :: post ∧ ∀ y ∈ pre, ¬ R x y) ∨
          x = z ∧ ∀ y ∈ xs, ¬ R x y := by
      constructor
      · rintro ⟨pre, post, h, hpre⟩
        rcases List.eq_nil_or_concat post with rfl | ⟨post, b, rfl⟩
        · obtain ⟨rfl, hz⟩ := List.append_inj' h rfl
          exact Or.inr ⟨(List.singleton_inj.mp hz).symm, hpre⟩
        · rw [List.concat_eq_append, ← List.cons_append, ← List.append_assoc] at h
          obtain ⟨hxs, -⟩ := List.append_inj' h rfl
          exact Or.inl ⟨pre, post, hxs, hpre⟩
      · rintro (⟨pre, post, rfl, hpre⟩ | ⟨rfl, hxs⟩)
        · exact ⟨pre, post ++ [z], by simp, hpre⟩
        · exact ⟨xs, [], rfl, hxs⟩
    rw [recordAll_concat, hsplit, ← ih]
    by_cases hfound : ∃ y ∈ recordAll R xs, R z y
    · rw [record_of_found hfound]
      refine ⟨Or.inl, fun h => h.resolve_right ?_⟩
      rintro ⟨rfl, hxs⟩
      obtain ⟨y, hy, hxy⟩ := (found_recordAll_iff hrefl htrans).mp hfound
      exact hxs y hy hxy
    · rw [record_of_not_found hfound, List.mem_append, List.mem_singleton]
      refine or_congr_right ⟨?_, And.left⟩
      rintro rfl
      refine ⟨rfl, fun y hy hxy => hfound ?_⟩
      exact (found_recordAll_iff hrefl htrans).mpr ⟨y, hy, hxy⟩

theorem mem_recordAll_iff_of_mem {xs : List α} {x : α} (hx : x ∈ xs) :
    x ∈ recordAll R xs ↔
      ∀ pre post, xs = pre ++ x :: post → ∀ y ∈ pre, R x y → x ∈ pre := by
  rw [mem_recordAll_iff hrefl htrans]
  constructor
  · rintro ⟨pre₀, post₀, h₀, hpre₀⟩ pre post h y hy hxy
    rcases List.append_eq_append_iff.mp (h₀.symm.trans h) with ⟨mid, hmid, hpost⟩ | ⟨mid, hmid, -⟩
    · cases mid with
      | nil =>
        rw [List.append_nil] at hmid
        exact absurd hxy (hpre₀ y (hmid ▸ hy))
      | cons z mid =>
        rw [List.cons_append] at hpost
        obtain ⟨rfl, -⟩ := List.cons.inj hpost
        rw [hmid]
        exact List.mem_append_right _ (.head _)
    · exact absurd hxy (hpre₀ y (hmid ▸ List.mem_append_left _ hy))
  · intro h
    obtain ⟨pre, post, hxs, hfirst⟩ := List.eq_append_cons_of_mem hx
    exact ⟨pre, post, hxs, fun y hy hxy => hfirst (h pre post hxs y hy hxy)⟩

end MceTest.Library.Once

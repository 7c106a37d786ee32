import Mathlib.Order.Interval.Set.Basic
import Mathlib.Order.MinMax
import Mathlib.Data.List.Basic

/-! Lists of half-open intervals in ascending order, and the part of such a list that
lies in a window. -/

namespace MceTest.Library.Interval

variable {α : Type*} [LinearOrder α]

def points (ivs : List (α × α)) : Set α := { x | ∃ iv ∈ ivs, x ∈ Set.Ico iv.1 iv.2 }

/-- Nonempty intervals in ascending order without overlap. -/
structure Ascending (ivs : List (α × α)) : Prop where
  nonempty : ∀ iv ∈ ivs, iv.1 < iv.2
  ordered : ivs.Pairwise fun a b => a.2 ≤ b.1

def trim (lo hi : α) (iv : α × α) : α × α := (max iv.1 lo, min iv.2 hi)

/-- The nonempty intersections with the window from `lo` to `hi`. -/
def clip (lo hi : α) (ivs : List (α × α)) : List (α × α) :=
  (ivs.map (trim lo hi)).filter fun iv => iv.1 < iv.2

theorem mem_clip {lo hi : α} {ivs : List (α × α)} {iv : α × α} :
    iv ∈ clip lo hi ivs ↔ iv.1 < iv.2 ∧ ∃ a ∈ ivs, trim lo hi a = iv := by
  rw [clip, List.mem_filter, List.mem_map, decide_eq_true_iff, and_comm]

theorem mem_trim {lo hi x : α} {iv : α × α} :
    x ∈ Set.Ico (trim lo hi iv).1 (trim lo hi iv).2 ↔
      x ∈ Set.Ico iv.1 iv.2 ∧ x ∈ Set.Ico lo hi := by
  simp only [trim, Set.mem_Ico, max_le_iff, lt_min_iff]
  tauto

theorem points_clip (lo hi : α) (ivs : List (α × α)) :
    points (clip lo hi ivs) = points ivs ∩ Set.Ico lo hi := by
  ext x
  constructor
  · rintro ⟨iv, hiv, hx⟩
    obtain ⟨-, a, ha, rfl⟩ := mem_clip.mp hiv
    obtain ⟨hxa, hwin⟩ := mem_trim.mp hx
    exact ⟨⟨a, ha, hxa⟩, hwin⟩
  · rintro ⟨⟨a, ha, hxa⟩, hwin⟩
    have hx := mem_trim.mpr ⟨hxa, hwin⟩
    exact ⟨trim lo hi a, mem_clip.mpr ⟨hx.1.trans_lt hx.2, a, ha, rfl⟩, hx⟩

theorem Ascending.clip {ivs : List (α × α)} (h : Ascending ivs) (lo hi : α) :
    Ascending (clip lo hi ivs) where
  nonempty := fun _ hiv => (mem_clip.mp hiv).1
  ordered := by
    apply List.Pairwise.filter
    rw [List.pairwise_map]
    apply h.ordered.imp
    intro a b hab
    exact (min_le_left _ _).trans (hab.trans (le_max_left _ _))

theorem Ascending.drop {ivs : List (α × α)} (h : Ascending ivs) (n : Nat) :
    Ascending (ivs.drop n) where
  nonempty := fun iv hiv => h.nonempty iv (List.mem_of_mem_drop hiv)
  ordered := h.ordered.sublist (List.drop_sublist n ivs)

theorem clip_cons_of_le {lo hi : α} {iv : α × α} (ivs : List (α × α))
    (h : iv.2 ≤ lo ∨ hi ≤ iv.1) : clip lo hi (iv :: ivs) = clip lo hi ivs := by
  have hempty : ¬ (trim lo hi iv).1 < (trim lo hi iv).2 := by
    rw [not_lt]
    rcases h with h | h
    · exact (min_le_left _ _).trans (h.trans (le_max_right _ _))
    · exact (min_le_right _ _).trans (h.trans (le_max_left _ _))
  rw [clip, List.map_cons, List.filter_cons_of_neg (by simpa using hempty)]
  rfl

theorem clip_of_le {lo hi : α} (h : hi ≤ lo) (ivs : List (α × α)) : clip lo hi ivs = [] := by
  rw [clip, List.filter_eq_nil_iff]
  intro iv hiv
  obtain ⟨a, -, rfl⟩ := List.mem_map.mp hiv
  have hle : (trim lo hi a).2 ≤ (trim lo hi a).1 :=
    (min_le_right _ _).trans (h.trans (le_max_right _ _))
  simpa using hle

theorem clip_eq_nil {lo hi : α} {ivs : List (α × α)}
    (h : ∀ iv ∈ ivs, iv.2 ≤ lo ∨ hi ≤ iv.1) : clip lo hi ivs = [] := by
  induction ivs with
  | nil => rfl
  | cons iv ivs ih =>
    rw [clip_cons_of_le ivs (h iv (by simp))]
    exact ih fun a ha => h a (List.mem_cons_of_mem _ ha)

theorem Ascending.clip_eq_nil {lo hi : α} {iv : α × α} {ivs : List (α × α)}
    (h : Ascending (iv :: ivs)) (hhi : hi ≤ iv.1) : Interval.clip lo hi (iv :: ivs) = [] := by
  apply Interval.clip_eq_nil
  intro a ha
  right
  rcases List.mem_cons.mp ha with rfl | ha
  · exact hhi
  · calc hi ≤ iv.1 := hhi
      _ ≤ iv.2 := (h.nonempty iv (by simp)).le
      _ ≤ a.1 := List.rel_of_pairwise_cons h.ordered ha

/-- The first interval that meets the window gives the first piece, and the window can
be moved up to the end of that piece. -/
theorem Ascending.clip_cons {lo hi : α} {iv : α × α} {ivs : List (α × α)}
    (h : Ascending (iv :: ivs)) (hlo : lo < iv.2) (hhi : iv.1 < hi) (hwin : lo < hi) :
    Interval.clip lo hi (iv :: ivs) =
      trim lo hi iv :: Interval.clip (min iv.2 hi) hi (iv :: ivs) := by
  have hpiece : (trim lo hi iv).1 < (trim lo hi iv).2 :=
    lt_min (max_lt (h.nonempty iv (by simp)) hlo) (max_lt hhi hwin)
  have hrest : ivs.map (trim lo hi) = ivs.map (trim (min iv.2 hi) hi) := by
    apply List.map_congr_left
    intro a ha
    have hiv : iv.2 ≤ a.1 := List.rel_of_pairwise_cons h.ordered ha
    rw [trim, trim, max_eq_left (hlo.le.trans hiv),
      max_eq_left ((min_le_left _ _).trans hiv)]
  have hfirst : Interval.clip (min iv.2 hi) hi (iv :: ivs) =
      Interval.clip (min iv.2 hi) hi ivs := by
    rcases le_total iv.2 hi with hle | hle
    · exact clip_cons_of_le ivs (Or.inl (min_eq_left hle).ge)
    · rw [min_eq_right hle, clip_of_le le_rfl, clip_of_le le_rfl]
  rw [hfirst, Interval.clip, List.map_cons, List.filter_cons_of_pos (by simpa using hpiece),
    hrest]
  rfl

instance decidableMemPoints (ivs : List (α × α)) : DecidablePred (· ∈ points ivs) :=
  fun x => inferInstanceAs (Decidable (∃ iv ∈ ivs, iv.1 ≤ x ∧ x < iv.2))

theorem points_cons (iv : α × α) (ivs : List (α × α)) (x : α) :
    x ∈ points (iv :: ivs) ↔ x ∈ Set.Ico iv.1 iv.2 ∨ x ∈ points ivs := by
  simp [points]

theorem filter_append_filter {β : Type*} {p q : β → Prop} [DecidablePred p] [DecidablePred q]
    {l : List β} (hl : l.Pairwise fun a b => q a → ¬ p b) (hpq : ∀ b ∈ l, p b → ¬ q b) :
    (l.filter fun b => p b) ++ (l.filter fun b => q b) = l.filter fun b => p b ∨ q b := by
  induction l with
  | nil => rfl
  | cons b l ih =>
    obtain ⟨hb, hl⟩ := List.pairwise_cons.mp hl
    have hrest := ih hl fun a ha => hpq a (List.mem_cons_of_mem b ha)
    have hno := hpq b List.mem_cons_self
    by_cases hp : p b
    · simpa [hp, hno hp] using hrest
    · by_cases hq : q b
      · have hnone : (l.filter fun a => p a) = [] := by
          rw [List.filter_eq_nil_iff]
          intro a ha
          simpa using hb a ha hq
        rw [hnone, List.nil_append] at hrest
        simpa [hp, hq, hnone] using hrest
      · simpa [hp, hq] using hrest

/-- A sorted list, cut at ascending intervals and put together again. -/
theorem Ascending.flatMap_filter {β : Type*} {ivs : List (α × α)} (h : Ascending ivs) {f : β → α}
    {l : List β} (hl : l.Pairwise fun a b => f a ≤ f b) :
    (ivs.flatMap fun iv => l.filter fun b => iv.1 ≤ f b ∧ f b < iv.2) =
      l.filter fun b => f b ∈ points ivs := by
  induction ivs with
  | nil => simp [points]
  | cons iv ivs ih =>
    obtain ⟨hiv, hordered⟩ := List.pairwise_cons.mp h.ordered
    have hlater {x : α} (hx : x ∈ points ivs) : iv.2 ≤ x := by
      obtain ⟨a, ha, hx⟩ := hx
      exact (hiv a ha).trans hx.1
    rw [List.flatMap_cons, ih ⟨fun a ha => h.nonempty a (List.mem_cons_of_mem iv ha), hordered⟩,
      filter_append_filter]
    · simp only [points_cons, Set.mem_Ico]
    · apply hl.imp
      rintro a b hab ha ⟨-, hb⟩
      exact absurd ((hlater ha).trans hab) hb.not_ge
    · rintro b - ⟨-, hb⟩ hmem
      exact absurd (hlater hmem) hb.not_ge

end MceTest.Library.Interval

import Mathlib.Data.List.Infix

/-! Texts made of items that a word goes before: when the items can be read back. -/

namespace MceTest.Library.Separated

variable {α : Type}

/-- No part of the word both begins and ends it. -/
def Borderless (w : List α) : Prop := ∀ d ∈ w.inits, d ≠ [] → d <:+ w → d = w

instance [DecidableEq α] (w : List α) : Decidable (Borderless w) :=
  inferInstanceAs (Decidable (∀ d ∈ w.inits, d ≠ [] → d <:+ w → d = w))

def joined (w stop : List α) (items : List (List α)) : List α :=
  items.flatMap (w ++ ·) ++ stop

variable {w stop : List α}

theorem joined_cons (q : List α) (qs : List (List α)) :
    joined w stop (q :: qs) = w ++ (q ++ joined w stop qs) := by
  rw [joined, List.flatMap_cons, List.append_assoc, List.append_assoc, joined]

theorem Borderless.split_le (hw : Borderless w) {a b x y : List α} (hb : ¬ w <:+: b)
    (h : a ++ (w ++ x) = b ++ (w ++ y)) (hle : a.length ≤ b.length) : a = b ∧ x = y := by
  obtain ⟨c, rfl⟩ : a <+: b :=
    List.prefix_of_prefix_length_le (List.prefix_append a (w ++ x)) (h ▸ List.prefix_append b _) hle
  rw [List.append_assoc, List.append_cancel_left_eq] at h
  rcases List.append_eq_append_iff.mp h with ⟨d, hd, -⟩ | ⟨d, hd, hrest⟩
  · exact absurd ⟨a, d, by rw [hd, List.append_assoc]⟩ hb
  · by_cases hnil : d = []
    · rw [hnil, List.append_nil] at hd
      exact absurd ⟨a, [], by rw [hd, List.append_nil]⟩ hb
    · have hsuffix : d <:+ w := ⟨c, hd.symm⟩
      have hprefix : d <+: w :=
        List.prefix_of_prefix_length_le (List.prefix_append d x) (hrest ▸ List.prefix_append w y)
          hsuffix.length_le
      obtain rfl := hw d ((List.mem_inits d _).mpr hprefix) hnil hsuffix
      have hc : c = [] := List.append_left_eq_self.mp hd.symm
      rw [List.append_cancel_left_eq] at hrest
      rw [hc, List.append_nil]
      exact ⟨rfl, hrest.symm⟩

/-- A borderless word comes first at one place of a text only. -/
theorem Borderless.split (hw : Borderless w) {a b x y : List α} (ha : ¬ w <:+: a)
    (hb : ¬ w <:+: b) (h : a ++ (w ++ x) = b ++ (w ++ y)) : a = b ∧ x = y := by
  rcases Nat.le_total a.length b.length with hle | hle
  · exact hw.split_le hb h hle
  · obtain ⟨hab, hxy⟩ := hw.split_le ha h.symm hle
    exact ⟨hab.symm, hxy.symm⟩

theorem not_infix_nil {q : List α} (hq : ¬ w <:+: q) : ¬ w <:+: [] := by
  intro hnil
  rw [List.infix_nil.mp hnil] at hq
  exact hq (List.nil_infix)

/-- Items without the word are read back, if the last part does not complete it. -/
theorem joined_injective (hw : Borderless w)
    (hstop : ∀ q, ¬ w <:+: q → ¬ w <:+: q ++ stop) {qs rs : List (List α)}
    (hqs : ∀ q ∈ qs, ¬ w <:+: q) (hrs : ∀ r ∈ rs, ¬ w <:+: r)
    (h : joined w stop qs = joined w stop rs) : qs = rs := by
  have hend {q : List α} (hq : ¬ w <:+: q) (r s : List α) (rs : List (List α)) :
      q ++ stop ≠ s ++ joined w stop (r :: rs) := fun heq => by
    refine hstop q hq ⟨s, r ++ joined w stop rs, ?_⟩
    rw [heq, joined_cons, List.append_assoc]
  induction qs generalizing rs with
  | nil =>
    cases rs with
    | nil => rfl
    | cons r rs =>
      exact absurd h (hend (not_infix_nil (hrs r List.mem_cons_self)) r [] rs)
  | cons q qs ih =>
    have hq := hqs q List.mem_cons_self
    cases rs with
    | nil => exact absurd h.symm (hend (not_infix_nil hq) q [] qs)
    | cons r rs =>
      have hr := hrs r List.mem_cons_self
      rw [joined_cons, joined_cons, List.append_cancel_left_eq] at h
      cases qs with
      | nil =>
        cases rs with
        | nil => rw [List.append_cancel_right h]
        | cons r' rs => exact absurd h (hend hq r' r rs)
      | cons q' qs =>
        cases rs with
        | nil => exact absurd h.symm (hend hr q' q qs)
        | cons r' rs =>
          rw [joined_cons, joined_cons] at h
          obtain ⟨rfl, hrest⟩ := hw.split hq hr h
          refine congrArg (q :: ·) (ih (fun t ht => hqs t (List.mem_cons_of_mem q ht))
            (fun t ht => hrs t (List.mem_cons_of_mem q ht)) ?_)
          rw [joined_cons, joined_cons, hrest]

end MceTest.Library.Separated

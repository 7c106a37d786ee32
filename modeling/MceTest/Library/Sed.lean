import Mathlib.Data.List.Infix

/-! Regular expressions, and the `s` command of `sed` with the flag `g`. -/

namespace MceTest.Library.Sed

abbrev Text := List Char

/-- Expressions: a text, one character that is not `c`, `.*`, `\(a\|b\)` and two in a row. -/
inductive Re
  | lit (text : Text)
  | notChar (c : Char)
  | dots
  | alt (texts : List Text)
  | seq (r s : Re)

def Re.matches : Re → Text → Bool
  | .lit text, t => t = text
  | .notChar c, t => t.length = 1 && t.all (· ≠ c)
  | .dots, _ => true
  | .alt texts, t => texts.contains t
  | .seq r s, t =>
    (List.range (t.length + 1)).any fun i => r.matches (t.take i) && s.matches (t.drop i)

theorem matches_lit {text t : Text} : (Re.lit text).matches t = true ↔ t = text := by
  simp [Re.matches]

theorem matches_notChar {c : Char} {t : Text} :
    (Re.notChar c).matches t = true ↔ ∃ d, d ≠ c ∧ t = [d] := by
  rw [Re.matches, Bool.and_eq_true, decide_eq_true_iff, List.length_eq_one_iff]
  constructor
  · rintro ⟨⟨d, rfl⟩, hd⟩
    exact ⟨d, by simpa using hd, rfl⟩
  · rintro ⟨d, hd, rfl⟩
    exact ⟨⟨d, rfl⟩, by simpa using hd⟩

theorem matches_alt {texts : List Text} {t : Text} :
    (Re.alt texts).matches t = true ↔ t ∈ texts := by
  simp [Re.matches]

theorem matches_seq {r s : Re} {t : Text} :
    (Re.seq r s).matches t = true ↔
      ∃ u v, t = u ++ v ∧ r.matches u = true ∧ s.matches v = true := by
  rw [Re.matches, List.any_eq_true]
  constructor
  · rintro ⟨i, -, hi⟩
    obtain ⟨hr, hs⟩ := Bool.and_eq_true_iff.mp hi
    exact ⟨t.take i, t.drop i, (List.take_append_drop i t).symm, hr, hs⟩
  · rintro ⟨u, v, rfl, hr, hs⟩
    refine ⟨u.length, List.mem_range.mpr ?_, ?_⟩
    · rw [List.length_append]
      omega
    · simp only [List.take_left, List.drop_left, hr, hs, Bool.and_self]

/-- `s/\(body\)tail/\1new/g`, or `s/\(^body\)tail$/\1new/g`. -/
structure Script where
  anchored : Bool
  body : Re
  tail : Text
  new : Text

def Script.re (sc : Script) : Re := .seq sc.body (.lit sc.tail)

def Script.replace (sc : Script) (t : Text) : Text :=
  t.take (t.length - sc.tail.length) ++ sc.new

/-- The length of the longest match at the start of a text, of those up to a length. -/
def longest (r : Re) (t : Text) : Nat → Option Nat
  | 0 => none
  | n + 1 => if r.matches (t.take (n + 1)) then some (n + 1) else longest r t n

def Script.every (sc : Script) : Nat → Text → Text
  | 0, t => t
  | _ + 1, [] => []
  | rounds + 1, c :: t =>
    match longest sc.re (c :: t) (t.length + 1) with
    | some n => sc.replace ((c :: t).take n) ++ sc.every rounds ((c :: t).drop n)
    | none => c :: sc.every rounds t

/-- What the script makes of a line. -/
def Script.run (sc : Script) (line : Text) : Text :=
  if sc.anchored then if sc.re.matches line then sc.replace line else line
  else sc.every line.length line

variable {r : Re} {sc : Script} {t : Text}

theorem longest_eq_none {n : Nat} (h : ∀ k, ¬ r.matches (t.take k) = true) :
    longest r t n = none := by
  induction n with
  | zero => rfl
  | succ n ih => rw [longest, if_neg (h _), ih]

theorem longest_eq_some {n m : Nat} (hpos : 0 < n) (hle : n ≤ m)
    (h : r.matches (t.take n) = true) (hmax : ∀ k, n < k → k ≤ m → ¬ r.matches (t.take k) = true) :
    longest r t m = some n := by
  induction m with
  | zero => omega
  | succ m ih =>
    rw [longest]
    by_cases hn : n = m + 1
    · rw [← hn, if_pos h]
    · rw [if_neg (hmax (m + 1) (by omega) le_rfl)]
      exact ih (by omega) fun k hlt hk => hmax k hlt (by omega)

theorem matches_re : sc.re.matches t = true ↔ ∃ u, t = u ++ sc.tail ∧ sc.body.matches u = true := by
  rw [Script.re, matches_seq]
  constructor
  · rintro ⟨u, v, rfl, hu, hv⟩
    exact ⟨u, by rw [matches_lit.mp hv], hu⟩
  · rintro ⟨u, rfl, hu⟩
    exact ⟨u, sc.tail, rfl, hu, matches_lit.mpr rfl⟩

theorem replace_append (sc : Script) (u : Text) : sc.replace (u ++ sc.tail) = u ++ sc.new := by
  rw [Script.replace, List.length_append, Nat.add_sub_cancel, List.take_left]

theorem run_anchored (ha : sc.anchored = true) {u : Text} (hu : sc.body.matches u = true) :
    sc.run (u ++ sc.tail) = u ++ sc.new := by
  rw [Script.run, if_pos ha, if_pos (matches_re.mpr ⟨u, rfl, hu⟩), replace_append]

theorem run_anchored_none (ha : sc.anchored = true)
    (h : ∀ u, t = u ++ sc.tail → ¬ sc.body.matches u = true) : sc.run t = t := by
  rw [Script.run, if_pos ha, if_neg]
  rintro hm
  obtain ⟨u, ht, hu⟩ := matches_re.mp hm
  exact h u ht hu

theorem every_of_absent (rounds : Nat) (h : ¬ sc.tail <:+: t) : sc.every rounds t = t := by
  induction rounds generalizing t with
  | zero => rfl
  | succ rounds ih =>
    cases t with
    | nil => rfl
    | cons c t =>
      have hnone : longest sc.re (c :: t) (t.length + 1) = none := by
        apply longest_eq_none
        intro k hk
        obtain ⟨u, hu, -⟩ := matches_re.mp hk
        apply h
        refine ⟨u, (c :: t).drop k, ?_⟩
        rw [← hu, List.take_append_drop]
      have hrest : ¬ sc.tail <:+: t := fun hin => h (hin.trans (List.suffix_cons c t).isInfix)
      rw [Script.every, hnone]
      dsimp only
      rw [ih hrest]

structure Last (tail line pre post : Text) : Prop where
  eq : line = pre ++ tail ++ post
  last : ∀ u v, line = u ++ tail ++ v → u.length ≤ pre.length

theorem Last.rest {tail line pre post : Text} (h : Last tail line pre post) (htail : tail ≠ []) :
    ¬ tail <:+: post := by
  rintro ⟨u, v, huv⟩
  have hle := h.last (pre ++ tail ++ u) v (by rw [h.eq, ← huv]; simp only [List.append_assoc])
  have hpos := List.length_pos_of_ne_nil htail
  rw [List.length_append, List.length_append] at hle
  omega

theorem Last.cons {tail pre post t : Text} {c : Char} (h : Last tail (c :: t) (c :: pre) post) :
    Last tail t pre post where
  eq := by
    have heq := h.eq
    rw [List.cons_append, List.cons_append, List.cons.injEq] at heq
    exact heq.2
  last := fun u v huv => by
    have hle := h.last (c :: u) v (by rw [huv, List.cons_append, List.cons_append])
    rw [List.length_cons, List.length_cons] at hle
    omega

theorem exists_last {tail t : Text} (h : tail <:+: t) : ∃ pre post, Last tail t pre post := by
  induction t with
  | nil =>
    rw [List.infix_nil.mp h]
    exact ⟨[], [], rfl, fun u v huv => by simp at huv; simp [huv]⟩
  | cons c t ih =>
    by_cases hrest : tail <:+: t
    · obtain ⟨pre, post, hlast⟩ := ih hrest
      refine ⟨c :: pre, post, by rw [hlast.eq]; rfl, fun u v huv => ?_⟩
      cases u with
      | nil => exact Nat.zero_le _
      | cons d u =>
        rw [List.cons_append, List.cons_append, List.cons.injEq] at huv
        exact Nat.succ_le_succ (hlast.last u v huv.2)
    · obtain ⟨post, hpost⟩ := (List.infix_cons_iff.mp h).resolve_right hrest
      refine ⟨[], post, hpost.symm, fun u v huv => ?_⟩
      cases u with
      | nil => exact Nat.zero_le _
      | cons d u =>
        rw [List.cons_append, List.cons_append, List.cons.injEq] at huv
        exact absurd ⟨u, v, huv.2.symm⟩ hrest

/-- A script `\(\(a\|b\).*\)tail` takes a line from the first of its texts to its last tail. -/
def alternation (texts : List Text) (tail new : Text) : Script where
  anchored := false
  body := .seq (.alt texts) .dots
  tail := tail
  new := new

section

variable {texts : List Text} {tail new pre post : Text}

theorem matches_alternation :
    (alternation texts tail new).re.matches t = true ↔ ∃ a ∈ texts, ∃ u, t = a ++ u ++ tail := by
  rw [matches_re]
  constructor
  · rintro ⟨u, rfl, hu⟩
    obtain ⟨a, v, rfl, ha, -⟩ := matches_seq.mp hu
    exact ⟨a, matches_alt.mp ha, v, rfl⟩
  · rintro ⟨a, ha, u, rfl⟩
    exact ⟨a ++ u, rfl, matches_seq.mpr ⟨a, u, rfl, matches_alt.mpr ha, rfl⟩⟩

/-- A match at the start of a text goes to the last tail. -/
theorem longest_alternation (new : Text) (htail : tail ≠ []) (h : Last tail t pre post) {a : Text}
    (ha : a ∈ texts) (hpre : a <+: pre) :
    longest (alternation texts tail new).re t t.length = some (pre ++ tail).length := by
  obtain ⟨u, rfl⟩ := hpre
  have htake : t.take (a ++ u ++ tail).length = a ++ u ++ tail := by rw [h.eq, List.take_left]
  have hpos : 0 < (a ++ u ++ tail).length :=
    List.length_pos_of_ne_nil (List.append_ne_nil_of_right_ne_nil _ htail)
  have hle : (a ++ u ++ tail).length ≤ t.length := by
    have hlen := congrArg List.length h.eq
    simp only [List.length_append] at hlen ⊢
    omega
  apply longest_eq_some hpos hle
  · rw [htake]
    exact matches_alternation.mpr ⟨a, ha, u, rfl⟩
  · intro k hlt hk hmatch
    obtain ⟨b, -, v, hv⟩ := matches_alternation.mp hmatch
    have hlast := h.last (b ++ v) (t.drop k) (by rw [← hv, List.take_append_drop])
    have hlen : (t.take k).length = k := List.length_take_of_le hk
    simp only [hv, List.length_append] at hlen hlt hlast
    omega

theorem not_matches_alternation (h : Last tail t pre post) (hnone : ∀ a ∈ texts, ¬ a <+: pre)
    (k : Nat) : ¬ (alternation texts tail new).re.matches (t.take k) = true := by
  intro hmatch
  obtain ⟨a, ha, u, hu⟩ := matches_alternation.mp hmatch
  have ht : t = a ++ u ++ tail ++ t.drop k := by rw [← hu, List.take_append_drop]
  have hlen := h.last (a ++ u) (t.drop k) ht
  apply hnone a ha
  have hpre : a ++ u <+: pre ++ (tail ++ post) := by
    rw [← List.append_assoc, ← h.eq, ht, List.append_assoc (a ++ u)]
    exact List.prefix_append ..
  exact (List.prefix_append a u).trans (List.prefix_of_prefix_length_le hpre
    (List.prefix_append ..) hlen)

theorem every_alternation_some (htail : tail ≠ []) (hsome : ∃ a ∈ texts, a <:+: pre)
    (hne : ∀ a ∈ texts, a ≠ []) {rounds : Nat} (hrounds : t.length ≤ rounds)
    (h : Last tail t pre post) :
    (alternation texts tail new).every rounds t = pre ++ new ++ post := by
  induction t generalizing rounds pre with
  | nil =>
    have hlen := congrArg List.length h.eq
    have hpos := List.length_pos_of_ne_nil htail
    simp at hlen
    omega
  | cons c t ih =>
    obtain ⟨rounds, rfl⟩ : ∃ n, rounds = n + 1 := ⟨rounds - 1, by simp at hrounds; omega⟩
    have hrounds' : t.length ≤ rounds := by simpa using hrounds
    rw [Script.every]
    by_cases hfirst : ∃ a ∈ texts, a <+: pre
    · obtain ⟨a, ha, hpre⟩ := hfirst
      have htake : (c :: t).take (pre ++ tail).length = pre ++ tail := by
        rw [h.eq, List.take_left]
      have hdrop : (c :: t).drop (pre ++ tail).length = post := by rw [h.eq, List.drop_left]
      have hlongest := longest_alternation new htail h ha hpre
      rw [List.length_cons] at hlongest
      rw [hlongest]
      dsimp only
      have hrest : ¬ (alternation texts tail new).tail <:+: post := h.rest htail
      rw [htake, hdrop, every_of_absent rounds hrest]
      exact congrArg (· ++ post) (replace_append (alternation texts tail new) pre)
    · have hnone : ∀ a ∈ texts, ¬ a <+: pre := fun a ha hpre => hfirst ⟨a, ha, hpre⟩
      rw [longest_eq_none (not_matches_alternation h hnone)]
      dsimp only
      cases pre with
      | nil =>
        obtain ⟨a, ha, hin⟩ := hsome
        exact absurd (List.infix_nil.mp hin) (hne a ha)
      | cons d pre =>
        obtain rfl : c = d := by
          have heq := h.eq
          rw [List.cons_append, List.cons_append, List.cons.injEq] at heq
          exact heq.1
        have hsome' : ∃ a ∈ texts, a <:+: pre := by
          obtain ⟨a, ha, hin⟩ := hsome
          refine ⟨a, ha, ?_⟩
          exact (List.infix_cons_iff.mp hin).resolve_left (hnone a ha)
        rw [ih hsome' hrounds' h.cons]
        rfl

theorem every_alternation_none (hnone : ∀ a ∈ texts, ¬ a <:+: pre)
    {rounds : Nat} (h : Last tail t pre post) :
    (alternation texts tail new).every rounds t = t := by
  induction t generalizing rounds pre with
  | nil => cases rounds <;> rfl
  | cons c t ih =>
    cases rounds with
    | zero => rfl
    | succ rounds =>
      have hfirst : ∀ a ∈ texts, ¬ a <+: pre := fun a ha hpre => hnone a ha hpre.isInfix
      rw [Script.every, longest_eq_none (not_matches_alternation h hfirst)]
      dsimp only
      cases pre with
      | nil =>
        -- the tail is where the text starts, and occurs nowhere behind
        have hrest : ¬ (alternation texts tail new).tail <:+: t := by
          rintro ⟨u, v, huv⟩
          have hle := h.last (c :: u) v (by rw [← huv]; rfl)
          simp at hle
        rw [every_of_absent rounds hrest]
      | cons d pre =>
        obtain rfl : c = d := by
          have heq := h.eq
          rw [List.cons_append, List.cons_append, List.cons.injEq] at heq
          exact heq.1
        have hnone' : ∀ a ∈ texts, ¬ a <:+: pre := fun a ha hin =>
          hnone a ha (List.infix_cons_iff.mpr (.inr hin))
        rw [ih hnone' h.cons]

end

end MceTest.Library.Sed

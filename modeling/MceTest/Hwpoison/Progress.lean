import Mathlib.Data.Nat.Find
import Mathlib.Data.List.Chain
import Mathlib.Tactic.Linarith

/-! `show_progress`, which unpoisons the pages now and then: how far the passes are apart. -/

namespace MceTest.Hwpoison

/-- `g_percent` and `g_last`. -/
structure Progress where
  gPercent : Nat
  gLast : Int
  deriving DecidableEq

def Progress.start : Progress := ⟨0, 0⟩

/-- `show_progress` at `cur` seconds after the start, and whether it has unpoisoned the pages. -/
def showProgress (gDuration gRecycle : Nat) (s : Progress) (cur : Nat) : Progress × Bool :=
  if gDuration ≤ cur then (s, false)
  else
    let rest := gDuration - cur
    let percent := (gDuration - rest) * 100 / gDuration
    if percent = 0 then (s, false)
    else
      let gLast := if gRecycle ≠ 0 then ((percent : Int) - s.gPercent) * gDuration + s.gLast
        else s.gLast
      let unpoison := decide (gRecycle ≠ 0 ∧ gRecycle ≤ gLast)
      let gLast := if unpoison then 0 else gLast
      let next := if percent > 10 then percent - 10 else 0
      if s.gPercent ≠ 0 ∧ s.gPercent > next then ({ s with gLast }, unpoison)
      else (⟨percent, gLast⟩, unpoison)

/-- When the pages are unpoisoned, in a run with these readings of the clock. -/
def unpoisons (gDuration gRecycle : Nat) : Progress → List Nat → List Nat
  | _, [] => []
  | s, cur :: curs =>
    let r := showProgress gDuration gRecycle s cur
    (if r.2 then [cur] else []) ++ unpoisons gDuration gRecycle r.1 curs

/-- The passes are a period apart from each other and from the start, but for the hundredth of
the duration to which the progress is known. -/
def Spaced (gDuration gRecycle : Nat) (passes : List Nat) : Prop :=
  List.IsChain (fun a b => 100 * a + 100 * gRecycle ≤ 100 * b + gDuration) (0 :: passes)

def Respected (gDuration gRecycle : Nat) : Prop :=
  ∀ curs : List Nat, curs.Pairwise (· ≤ ·) →
    Spaced gDuration gRecycle (unpoisons gDuration gRecycle .start curs)

variable {gDuration gRecycle : Nat}

def percentage (gDuration cur : Nat) : Nat := cur * 100 / gDuration

theorem percentage_mono {a b : Nat} (h : a ≤ b) : percentage gDuration a ≤ percentage gDuration b :=
  Nat.div_le_div_right (Nat.mul_le_mul_right 100 h)

/-- `g_last` when a percentage has been reached. -/
def reached (gDuration : Nat) (s : Progress) (percent : Nat) : Int :=
  ((percent : Int) - s.gPercent) * gDuration + s.gLast

theorem showProgress_idle {s : Progress} {cur : Nat}
    (h : gDuration ≤ cur ∨ percentage gDuration cur = 0) :
    showProgress gDuration gRecycle s cur = (s, false) := by
  rw [showProgress]
  split
  · rfl
  · rename_i hcur
    have hrest : (gDuration - (gDuration - cur)) * 100 / gDuration = percentage gDuration cur := by
      rw [percentage, Nat.sub_sub_self (Nat.le_of_not_le hcur)]
    dsimp only
    rw [hrest, if_pos (h.resolve_left hcur)]

theorem showProgress_eq {s : Progress} {cur : Nat} (hcur : cur < gDuration) (hR : gRecycle ≠ 0)
    (hpos : percentage gDuration cur ≠ 0) :
    showProgress gDuration gRecycle s cur =
      (⟨if s.gPercent ≠ 0 ∧ s.gPercent > percentage gDuration cur - 10 then s.gPercent
        else percentage gDuration cur,
        if gRecycle ≤ reached gDuration s (percentage gDuration cur) then 0
        else reached gDuration s (percentage gDuration cur)⟩,
        decide (gRecycle ≤ reached gDuration s (percentage gDuration cur))) := by
  have hrest : (gDuration - (gDuration - cur)) * 100 / gDuration = percentage gDuration cur := by
    rw [percentage, Nat.sub_sub_self hcur.le]
  have hnext : (if percentage gDuration cur > 10 then percentage gDuration cur - 10 else 0) =
      percentage gDuration cur - 10 := by
    split <;> omega
  have hlast : ((percentage gDuration cur : Int) - s.gPercent) * gDuration + s.gLast =
      reached gDuration s (percentage gDuration cur) := rfl
  rw [showProgress, if_neg (Nat.not_le.mpr hcur)]
  dsimp only
  rw [hrest, if_neg hpos, if_pos hR, hnext, hlast]
  by_cases hpass : gRecycle ≤ reached gDuration s (percentage gDuration cur)
  · have hboth : gRecycle ≠ 0 ∧ gRecycle ≤ reached gDuration s (percentage gDuration cur) :=
      ⟨hR, hpass⟩
    rw [decide_eq_true hboth, decide_eq_true hpass, if_pos rfl, if_pos hpass]
    split <;> rfl
  · have hboth : ¬ (gRecycle ≠ 0 ∧ gRecycle ≤ reached gDuration s (percentage gDuration cur)) :=
      fun h => hpass h.2
    rw [decide_eq_false hboth, decide_eq_false hpass, if_neg Bool.false_ne_true, if_neg hpass]
    split <;> rfl

def states (gDuration gRecycle : Nat) (s : Progress) (curs : List Nat) : Progress :=
  curs.foldl (fun s cur => (showProgress gDuration gRecycle s cur).1) s

theorem unpoisons_append (s : Progress) (as bs : List Nat) :
    unpoisons gDuration gRecycle s (as ++ bs) = unpoisons gDuration gRecycle s as ++
      unpoisons gDuration gRecycle (states gDuration gRecycle s as) bs := by
  induction as generalizing s with
  | nil => rfl
  | cons a as ih =>
    rw [List.cons_append, unpoisons, ih, unpoisons, List.append_assoc]
    rfl

theorem unpoisons_sublist (s : Progress) (curs : List Nat) :
    (unpoisons gDuration gRecycle s curs).Sublist curs := by
  induction curs generalizing s with
  | nil => exact .slnil
  | cons cur curs ih =>
    rw [unpoisons]
    split
    · exact (ih _).cons_cons cur
    · exact (ih _).cons cur

/-- A reading that is repeated while it is less than ten hundredths past the last one that was
printed adds to `g_last` each time, until the pages are unpoisoned. -/
theorem repeated {s : Progress} {cur : Nat} (hR : gRecycle ≠ 0) (hcur : cur < gDuration)
    (hprinted : s.gPercent ≠ 0) (hpast : s.gPercent < percentage gDuration cur)
    (hnear : percentage gDuration cur < s.gPercent + 10) (hlast : s.gLast < gRecycle) :
    ∃ n, unpoisons gDuration gRecycle s (List.replicate n cur) = [cur] ∧
      states gDuration gRecycle s (List.replicate n cur) = ⟨s.gPercent, 0⟩ := by
  obtain ⟨m, hm⟩ : ∃ m : Nat, (gRecycle : Int) - s.gLast ≤ m :=
    ⟨(gRecycle - s.gLast).toNat, Int.self_le_toNat _⟩
  induction m generalizing s with
  | zero => omega
  | succ m ih =>
    have heq := showProgress_eq (s := s) hcur hR (by omega)
    rw [if_pos ⟨hprinted, by omega⟩] at heq
    by_cases hpass : gRecycle ≤ reached gDuration s (percentage gDuration cur)
    · rw [if_pos hpass, decide_eq_true hpass] at heq
      refine ⟨1, ?_, ?_⟩
      · rw [List.replicate_one, unpoisons, heq]
        rfl
      · exact congrArg Prod.fst heq
    · rw [if_neg hpass, decide_eq_false hpass] at heq
      -- at least one second of the duration is added
      have hadd : s.gLast + 1 ≤ reached gDuration s (percentage gDuration cur) := by
        rw [reached]
        nlinarith
      obtain ⟨n, hn, hstate⟩ := ih
        (s := ⟨s.gPercent, reached gDuration s (percentage gDuration cur)⟩)
        hprinted hpast hnear (Int.not_le.mp hpass) (by dsimp only; push_cast at hm; omega)
      refine ⟨n + 1, ?_, ?_⟩
      · rw [List.replicate_succ, unpoisons, heq]
        exact hn
      · rw [List.replicate_succ, states, List.foldl_cons, heq]
        exact hstate

theorem close_readings (h : 11 ≤ gDuration) :
    ∃ e f, e ≤ f ∧ f < gDuration ∧ percentage gDuration e ≠ 0 ∧
      percentage gDuration e < percentage gDuration f ∧
      percentage gDuration f < percentage gDuration e + 10 := by
  by_cases hle : gDuration ≤ 100
  · have hall : ∀ d ≤ 100, 11 ≤ d → 1 ≤ 2 ∧ 2 < d ∧ percentage d 1 ≠ 0 ∧
        percentage d 1 < percentage d 2 ∧ percentage d 2 < percentage d 1 + 10 := by
      decide +kernel
    exact ⟨1, 2, hall gDuration hle h⟩
  · have hone : percentage gDuration ((gDuration + 99) / 100) = 1 :=
      Nat.div_eq_of_lt_le (by omega) (by omega)
    have htwo : percentage gDuration ((2 * gDuration + 99) / 100) = 2 :=
      Nat.div_eq_of_lt_le (by omega) (by omega)
    refine ⟨(gDuration + 99) / 100, (2 * gDuration + 99) / 100, by omega, by omega, ?_⟩
    rw [hone, htwo]
    decide

theorem not_respected_of_close (h : 11 ≤ gDuration) (hD : gDuration < 100 * gRecycle) :
    ¬ Respected gDuration gRecycle := by
  intro hall
  have hR : gRecycle ≠ 0 := by omega
  obtain ⟨e, f, hef, hf, hpos, hlt, hnear⟩ := close_readings h
  have hstate := showProgress_eq (s := .start) (by omega : e < gDuration) hR hpos
  rw [if_neg fun hne => hne.1 rfl] at hstate
  obtain ⟨t, ht⟩ : ∃ t, t = states gDuration gRecycle .start [e] := ⟨_, rfl⟩
  have hpercent : t.gPercent = percentage gDuration e := by
    rw [ht]
    exact congrArg (fun r => r.1.gPercent) hstate
  have hlast : t.gLast < gRecycle := by
    have hlast := congrArg (fun r => r.1.gLast) hstate
    dsimp only at hlast
    rw [ht, states, List.foldl_cons, List.foldl_nil, hlast]
    split <;> omega
  obtain ⟨n, hn, hstaten⟩ := repeated hR hf (hpercent ▸ hpos) (hpercent ▸ hlt)
    (hpercent ▸ hnear) hlast
  obtain ⟨m, hm, -⟩ := repeated (s := ⟨t.gPercent, 0⟩) hR hf (hpercent ▸ hpos) (hpercent ▸ hlt)
    (hpercent ▸ hnear) (by dsimp only; omega)
  have hsorted : ([e] ++ (List.replicate n f ++ List.replicate m f)).Pairwise (· ≤ ·) := by
    rw [List.replicate_append_replicate, List.singleton_append]
    refine List.pairwise_cons.mpr ⟨fun cur hcur => ?_, List.pairwise_replicate.mpr (.inr le_rfl)⟩
    rw [List.eq_of_mem_replicate hcur]
    exact hef
  have hspaced := hall _ hsorted
  rw [unpoisons_append, unpoisons_append, ← ht, hn, hstaten, hm, Spaced,
    ← List.cons_append] at hspaced
  have hpair := List.isChain_pair.mp hspaced.right_of_append
  omega

theorem percentage_gap (hD : gDuration ≤ 10) {a b : Nat} (hab : a < b) (hb : b < gDuration) :
    percentage gDuration a + 10 ≤ percentage gDuration b := by
  have hnext : percentage gDuration a + 10 = (a * 100 + 10 * gDuration) / gDuration :=
    (Nat.add_mul_div_right _ _ (by omega)).symm
  rw [hnext, percentage]
  exact Nat.div_le_div_right (by omega)

/-- Everything up to the reading `cur` is in `g_percent`, and what is in `g_last` comes from it. -/
structure Tracks (gDuration gRecycle : Nat) (s : Progress) (cur : Nat) : Prop where
  percent : s.gPercent = percentage gDuration cur
  small : s.gLast < gRecycle
  bound : s.gLast ≤ percentage gDuration cur * gDuration

theorem tracks_start (hR : gRecycle ≠ 0) : Tracks gDuration gRecycle .start 0 := by
  have hzero : percentage gDuration 0 = 0 := by rw [percentage, Nat.zero_mul, Nat.zero_div]
  refine ⟨hzero.symm, Int.natCast_pos.mpr (Nat.pos_of_ne_zero hR), ?_⟩
  rw [hzero]
  exact (Int.zero_mul _).ge

theorem Tracks.step (hD : gDuration ≤ 10) (hR : gRecycle ≠ 0) {s : Progress} {a cur : Nat}
    (h : Tracks gDuration gRecycle s a) (ha : a ≤ cur) :
    ∃ b ≤ cur, a ≤ b ∧
      Tracks gDuration gRecycle (showProgress gDuration gRecycle s cur).1 b ∧
      ((showProgress gDuration gRecycle s cur).2 = true → b = cur ∧ a < cur ∧ cur < gDuration ∧
        gRecycle ≤ percentage gDuration cur * gDuration) := by
  by_cases hidle : gDuration ≤ cur ∨ percentage gDuration cur = 0
  · rw [showProgress_idle hidle]
    exact ⟨a, ha, le_rfl, h, fun hpass => absurd hpass Bool.false_ne_true⟩
  · obtain ⟨hcur, hpos⟩ := not_or.mp hidle
    have hcur : cur < gDuration := Nat.not_le.mp hcur
    have hpercent : (if s.gPercent ≠ 0 ∧ s.gPercent > percentage gDuration cur - 10 then s.gPercent
        else percentage gDuration cur) = percentage gDuration cur := by
      rcases Nat.eq_or_lt_of_le ha with rfl | hlt
      · rw [h.percent]
        exact ite_self _
      · have hgap := percentage_gap hD hlt hcur
        rw [h.percent]
        exact if_neg (by omega)
    have hreached : reached gDuration s (percentage gDuration cur) ≤
        percentage gDuration cur * gDuration := by
      have hbound := h.bound
      rw [reached, h.percent, Int.sub_mul]
      omega
    rw [showProgress_eq hcur hR hpos, hpercent]
    refine ⟨cur, le_rfl, ha, ⟨rfl, ?_, ?_⟩, fun hpass => ?_⟩
    · dsimp only
      split <;> omega
    · dsimp only
      split
      · exact Int.mul_nonneg (Int.natCast_nonneg _) (Int.natCast_nonneg _)
      · exact hreached
    · have hpass : (gRecycle : Int) ≤ reached gDuration s (percentage gDuration cur) :=
        of_decide_eq_true hpass
      refine ⟨rfl, Nat.lt_of_le_of_ne ha ?_, hcur, by exact_mod_cast hpass.trans hreached⟩
      rintro rfl
      have hsmall := h.small
      rw [reached, h.percent, Int.sub_self, Int.zero_mul] at hpass
      omega

theorem Tracks.unpoisons (hD : gDuration ≤ 10) (hR : gRecycle ≠ 0) {s : Progress} {a : Nat}
    {curs : List Nat} (h : Tracks gDuration gRecycle s a) (hcurs : (a :: curs).Pairwise (· ≤ ·)) :
    List.IsChain (· < ·) (a :: unpoisons gDuration gRecycle s curs) ∧
      ∀ cur ∈ unpoisons gDuration gRecycle s curs, cur < gDuration ∧
        gRecycle ≤ percentage gDuration cur * gDuration := by
  induction curs generalizing s a with
  | nil => exact ⟨.singleton a, fun cur hcur => absurd hcur List.not_mem_nil⟩
  | cons cur curs ih =>
    obtain ⟨hall, hrest⟩ := List.pairwise_cons.mp hcurs
    obtain ⟨b, hb, hab, htracks, hpass⟩ := h.step hD hR (hall cur List.mem_cons_self)
    have hsorted : (b :: curs).Pairwise (· ≤ ·) := by
      obtain ⟨hcur, hrest⟩ := List.pairwise_cons.mp hrest
      exact List.pairwise_cons.mpr ⟨fun c hc => hb.trans (hcur c hc), hrest⟩
    obtain ⟨hchain, hmem⟩ := ih htracks hsorted
    rw [Hwpoison.unpoisons]
    split
    · rename_i hunpoison
      obtain ⟨rfl, hlt, hend, henough⟩ := hpass hunpoison
      exact ⟨.cons_cons hlt hchain, List.forall_mem_cons.mpr ⟨⟨hend, henough⟩, hmem⟩⟩
    · exact ⟨hchain.imp_head fun hz => hab.trans_lt hz, hmem⟩

/-- `g_last` counts hundredths, so it reaches the period a hundred times too early. -/
theorem early_reading (hD : gDuration ≤ 10) (hR : 2 ≤ gRecycle)
    (hreach : gRecycle ≤ percentage gDuration (gDuration - 1) * gDuration) :
    ∃ e < gDuration, gRecycle ≤ percentage gDuration e * gDuration ∧ e < gRecycle := by
  have hex : ∃ e, gRecycle ≤ percentage gDuration e * gDuration := ⟨_, hreach⟩
  refine ⟨Nat.find hex, ?_, Nat.find_spec hex, ?_⟩
  · have hpos : gDuration ≠ 0 := by
      rintro rfl
      omega
    have hle := Nat.find_min' hex hreach
    omega
  · -- the second before it was not enough
    obtain hle | ⟨e, he⟩ : Nat.find hex ≤ 1 ∨ ∃ e, Nat.find hex = e + 2 :=
      (Nat.lt_or_ge (Nat.find hex) 2).imp Nat.le_of_lt_succ fun h =>
        ⟨_, (Nat.sub_add_cancel h).symm⟩
    · omega
    · have hmin : ¬ gRecycle ≤ percentage gDuration (e + 1) * gDuration :=
        Nat.find_min hex (by omega)
      have hdiv := Nat.div_add_mod ((e + 1) * 100) gDuration
      have hpos : gDuration ≠ 0 := by
        rintro rfl
        omega
      have hmod := Nat.mod_lt ((e + 1) * 100) (Nat.pos_of_ne_zero hpos)
      rw [percentage, Nat.mul_comm _ gDuration] at hmin
      omega

theorem not_respected_of_early (hD : gDuration ≤ 10) (hR : 2 ≤ gRecycle)
    (hreach : gRecycle ≤ percentage gDuration (gDuration - 1) * gDuration) :
    ¬ Respected gDuration gRecycle := by
  intro hall
  obtain ⟨e, he, henough, hearly⟩ := early_reading hD hR hreach
  have hpos : percentage gDuration e ≠ 0 := by
    intro hzero
    rw [hzero, Nat.zero_mul] at henough
    omega
  have hpass : gRecycle ≤ reached gDuration .start (percentage gDuration e) := by
    rw [reached]
    dsimp only [Progress.start]
    push_cast
    rw [Int.sub_zero, Int.add_zero]
    exact_mod_cast henough
  have hspaced := hall [e] (List.pairwise_singleton _ e)
  rw [unpoisons, showProgress_eq he (by omega) hpos, decide_eq_true hpass] at hspaced
  have hpair := List.isChain_pair.mp hspaced
  omega

theorem spaced_of_resolution (h : 100 * gRecycle ≤ gDuration) : Respected gDuration gRecycle := by
  intro curs hcurs
  have hsorted : (0 :: unpoisons gDuration gRecycle .start curs).Pairwise (· ≤ ·) :=
    List.pairwise_cons.mpr ⟨fun cur _ => Nat.zero_le cur, hcurs.sublist (unpoisons_sublist _ _)⟩
  refine (List.isChain_iff_pairwise.mpr hsorted).imp fun a b hab => ?_
  omega

/-- The period is respected in all runs only if it is below the resolution, or if the run has at
most ten seconds and the period is one second or too long for any pass. -/
theorem respected_iff (gDuration gRecycle : Nat) :
    Respected gDuration gRecycle ↔ 100 * gRecycle ≤ gDuration ∨ gDuration ≤ 10 ∧
      (gRecycle = 1 ∨ percentage gDuration (gDuration - 1) * gDuration < gRecycle) := by
  constructor
  · intro h
    by_contra hnot
    obtain ⟨hcoarse, hrest⟩ := not_or.mp hnot
    by_cases hD : gDuration ≤ 10
    · obtain ⟨hone, hreach⟩ := not_or.mp (not_and.mp hrest hD)
      exact not_respected_of_early hD (by omega) (Nat.not_lt.mp hreach) h
    · exact not_respected_of_close (by omega) (Nat.not_le.mp hcoarse) h
  · rintro (hcoarse | ⟨hD, hR⟩)
    · exact spaced_of_resolution hcoarse
    · intro curs hcurs
      have hne : gRecycle ≠ 0 := by
        rcases hR with rfl | hR
        · exact Nat.one_ne_zero
        · exact Nat.ne_zero_of_lt hR
      obtain ⟨hchain, hmem⟩ := (tracks_start hne).unpoisons hD hne
        (List.pairwise_cons.mpr ⟨fun cur _ => Nat.zero_le cur, hcurs⟩)
      rcases hR with rfl | hR
      · exact hchain.imp fun a b hab => by omega
      · -- no reading is late enough
        have hnone : unpoisons gDuration gRecycle .start curs = [] := by
          refine List.eq_nil_iff_forall_not_mem.mpr fun cur hcur => ?_
          obtain ⟨hend, henough⟩ := hmem cur hcur
          have hmono : percentage gDuration cur ≤ percentage gDuration (gDuration - 1) :=
            percentage_mono (by omega)
          exact absurd (henough.trans (Nat.mul_le_mul_right gDuration hmono)) (Nat.not_le.mpr hR)
        rw [Spaced, hnone]
        exact .singleton 0

/-- With the default duration and a period of a minute, the first pass comes after two seconds. -/
theorem unpoisons_early :
    [2].Pairwise (· ≤ ·) ∧ unpoisons 120 60 .start [2] = [2] ∧
      ¬ Spaced 120 60 (unpoisons 120 60 .start [2]) := by
  have hpasses : unpoisons 120 60 .start [2] = [2] := by decide
  refine ⟨List.pairwise_singleton _ 2, hpasses, fun h => ?_⟩
  rw [hpasses] at h
  exact absurd (List.isChain_pair.mp h) (by decide)

end MceTest.Hwpoison

import MceTest.RandomOffline.Model
import Mathlib.Data.Finset.Card
import Mathlib.Data.Finset.Insert
import Mathlib.Data.Finset.SDiff

/-! How many pages `random_offline` ties up, and whether it gives all of them back. -/

namespace MceTest.RandomOffline

open MceTest.Library.Numeral MceTest.Library.Transition

/-- The pages that are soft-offlined and have not been handed to `unpoison` since. -/
def pend (ps : Finset Page) : Event → Finset Page
  | .softOffline page => insert page ps
  | .unpoison page => ps.erase page

def pending (es : List Event) : Finset Page := es.foldl pend ∅

/-- No more pages are tied up than the bound, and at the end all have been handed back. -/
structure GivesBack (cfg : Config) (s : State) : Prop where
  atMost : (pending s.events).card ≤ cfg.thresh
  handed : s.ctl = .ended → ∀ page, .softOffline page ∈ s.events → .unpoison page ∈ s.events

def pages (ls : List Line) : Finset Page := (ls.map pfnOf).toFinset

def Ctl.unrecorded : Ctl → Option Line
  | .record line => some line
  | _ => none

/-- What a step may do: no page is taken beyond the bound; the time is not over while a page is
in the file that has never been handed back; and no `EXIT` comes before such a page gets there. -/
def Fits (cfg : Config) (s : State) : Action → Prop
  | .attempt random ok => ok = true →
    (insert (random.val % cfg.e) (pages s.lines)).card ≤ cfg.thresh
  | .clock diff => cfg.runtime.any (· < diff) = true →
    ∀ page ∈ pages s.lines, .unpoison page ∈ s.events
  | .exit _ => ∀ line ∈ s.ctl.unrecorded,
    pfnOf line ∈ pages s.lines ∨ .unpoison (pfnOf line) ∈ s.events
  | .go | .write _ => True

instance (cfg : Config) (s : State) : (a : Action) → Decidable (Fits cfg s a)
  | .attempt _ _ => inferInstanceAs (Decidable (_ = true → _ ≤ _))
  | .clock _ => inferInstanceAs (Decidable (_ = true → ∀ page ∈ pages s.lines, _))
  | .exit _ => inferInstanceAs (Decidable (∀ line ∈ s.ctl.unrecorded, _))
  | .go | .write _ => isTrue trivial

theorem pending_softOffline (es : List Event) (page : Page) :
    pending (es ++ [.softOffline page]) = insert page (pending es) := by
  rw [pending, List.foldl_append]
  rfl

theorem pending_unpoison (es : List Event) (page : Page) :
    pending (es ++ [.unpoison page]) = (pending es).erase page := by
  rw [pending, List.foldl_append]
  rfl

theorem pages_cons (line : Line) (ls : List Line) :
    pages (line :: ls) = insert (pfnOf line) (pages ls) := List.toFinset_cons

theorem pages_concat (ls : List Line) (line : Line) :
    pages (ls ++ [line]) = insert (pfnOf line) (pages ls) := by
  ext page
  simp only [pages, List.map_append, List.map_cons, List.map_nil, List.mem_toFinset,
    List.mem_append, List.mem_singleton, Finset.mem_insert]
  exact Or.comm

theorem pending_handed (es : List Event) (ls : List Line) :
    pending (es ++ ls.map fun line => .unpoison (pfnOf line)) = pending es \ pages ls := by
  induction ls generalizing es with
  | nil => rw [List.map_nil, List.append_nil]; exact (Finset.sdiff_empty ..).symm
  | cons line ls ih =>
    rw [List.map_cons, List.append_cons, ih, pending_unpoison, pages_cons, Finset.sdiff_insert,
      Finset.erase_sdiff_comm]

theorem handed_or_pending {es : List Event} {page : Page} (h : .softOffline page ∈ es) :
    .unpoison page ∈ es ∨ page ∈ pending es := by
  induction es using List.reverseRecOn with
  | nil => exact absurd h List.not_mem_nil
  | append_singleton es e ih =>
    rcases List.mem_append.mp h with h | h
    · rcases ih h with hback | hpend
      · exact Or.inl (List.mem_append_left _ hback)
      · cases e with
        | softOffline page' =>
          rw [pending_softOffline]
          exact Or.inr (Finset.mem_insert_of_mem hpend)
        | unpoison page' =>
          rw [pending_unpoison]
          by_cases heq : page = page'
          · exact Or.inl (List.mem_append_right _ (heq ▸ List.mem_singleton_self _))
          · exact Or.inr (Finset.mem_erase_of_ne_of_mem heq hpend)
    · obtain rfl := List.mem_singleton.mp h
      rw [pending_softOffline]
      exact Or.inr (Finset.mem_insert_self ..)

theorem taken_of_pending {es : List Event} {page : Page} (h : page ∈ pending es) :
    .softOffline page ∈ es := by
  induction es using List.reverseRecOn with
  | nil => exact absurd h (Finset.notMem_empty _)
  | append_singleton es e ih =>
    cases e with
    | softOffline page' =>
      rw [pending_softOffline] at h
      rcases Finset.mem_insert.mp h with rfl | h
      · exact List.mem_append_right _ (List.mem_singleton_self _)
      · exact List.mem_append_left _ (ih h)
    | unpoison page' =>
      rw [pending_unpoison] at h
      exact List.mem_append_left _ (ih (Finset.mem_of_mem_erase h))

theorem pfnOf_address {page : Page} (h : page < 32768) : pfnOf (address page) = page := by
  rcases Nat.eq_zero_or_pos page with rfl | hpos
  · decide
  · have hdigits : (Nat.toDigits 16 (page * 4096)).map Char.toUpper =
        (Nat.toDigits 16 page).map Char.toUpper ++ "000".toList := by
      have hshift := toDigits_shift (by decide : 1 < 16) hpos 3
      rw [show page * 4096 = page * 16 ^ 3 from rfl, hshift, List.map_append]
      rfl
    have hstrip : stripZeros (address page) =
        '0' :: 'x' :: (Nat.toDigits 16 page).map Char.toUpper := by
      rw [stripZeros, address, hdigits, ← List.cons_append, ← List.cons_append,
        if_pos (List.suffix_append ..)]
      exact List.take_left' (by simp)
    have hread := (cNumber_hex_upper page).strtoll (Stops.nil 36)
    rw [List.append_nil] at hread
    rw [pfnOf, hstrip, hread, Int.toNat_natCast, Nat.min_eq_left]
    exact (Nat.le_of_lt h).trans (by decide)

def Tracks (es : List Event) (ls : List Line) : Ctl → Prop
  | .attempt | .count | .clock => pending es = pages ls
  | .record line => pending es = insert (pfnOf line) (pages ls)
  | .replay rest => pending es ⊆ pages rest ∧ pages rest ⊆ pages ls
  | .reset => pending es = ∅
  | .ended => True

structure Inv (s : State) : Prop where
  tracks : Tracks s.events s.lines s.ctl
  trap : s.ctl ≠ .ended → s.trap = true

variable {cfg : Config} {s t : State}

theorem GivesBack.of_running (h : (pending s.events).card ≤ cfg.thresh) (hctl : s.ctl ≠ .ended) :
    GivesBack cfg s := ⟨h, fun hended => absurd hended hctl⟩

theorem attempt_spec {random : Fin 32768} {ok : Bool} (hinv : Inv s) (hgood : GivesBack cfg s)
    (h : step cfg s (.attempt random ok) = some t) :
    Inv t ∧ (GivesBack cfg t ↔ Fits cfg s (.attempt random ok)) := by
  obtain ⟨htracks, htrap⟩ := hinv
  simp only [step] at h
  cases hctl : s.ctl with
  | attempt =>
    rw [hctl] at h htracks htrap
    have hpage : random.val % cfg.e < 32768 := (Nat.mod_le ..).trans_lt random.isLt
    have hpending : pending (s.events ++ [.softOffline (random.val % cfg.e)]) =
        insert (random.val % cfg.e) (pages s.lines) := by
      rw [pending_softOffline, htracks]
    cases ok with
    | true =>
      cases h
      refine ⟨⟨?_, fun _ => htrap nofun⟩, ?_⟩
      · change pending (s.events ++ [.softOffline (random.val % cfg.e)]) =
          insert (pfnOf (address (random.val % cfg.e))) (pages s.lines)
        rw [hpending, pfnOf_address hpage]
      · rw [Fits, ← hpending]
        exact ⟨fun hback _ => hback.atMost, fun hfits => .of_running (hfits rfl) nofun⟩
    | false =>
      cases h
      refine ⟨⟨htracks, fun _ => htrap nofun⟩, ?_⟩
      exact iff_of_true (.of_running hgood.atMost nofun) nofun
  | _ =>
    rw [hctl] at h
    cases h

theorem go_spec (hinv : Inv s) (hgood : GivesBack cfg s) (h : step cfg s .go = some t) :
    Inv t ∧ GivesBack cfg t := by
  obtain ⟨htracks, htrap⟩ := hinv
  have hcard := hgood.atMost
  simp only [step] at h
  cases hctl : s.ctl with
  | record line =>
    rw [hctl] at h htracks htrap
    cases h
    refine ⟨⟨?_, fun _ => htrap nofun⟩, .of_running hcard nofun⟩
    change pending s.events = pages (s.lines ++ [line])
    rw [pages_concat, htracks]
  | count =>
    rw [hctl] at h htracks htrap
    dsimp only at h
    split at h
    · cases h
      exact ⟨⟨⟨htracks.subset, subset_rfl⟩, fun _ => htrap nofun⟩, .of_running hcard nofun⟩
    · cases h
      exact ⟨⟨htracks, fun _ => htrap nofun⟩, .of_running hcard nofun⟩
  | replay rest =>
    rw [hctl] at h htracks htrap
    cases rest with
    | nil =>
      cases h
      exact ⟨⟨Finset.subset_empty.mp htracks.1, fun _ => htrap nofun⟩, .of_running hcard nofun⟩
    | cons line rest => cases h
  | reset =>
    rw [hctl] at h htracks htrap
    cases h
    exact ⟨⟨htracks, fun _ => htrap nofun⟩, .of_running hcard nofun⟩
  | _ =>
    rw [hctl] at h
    cases h

theorem events_unpoison (s : State) (line : Line) (ok : Bool) :
    (s.unpoison line ok).events = s.events ++ [.unpoison (pfnOf line)] := by
  cases ok <;> rfl

theorem lines_unpoison (s : State) (line : Line) (ok : Bool) :
    (s.unpoison line ok).lines = s.lines := by
  cases ok <;> rfl

theorem trap_unpoison (s : State) (line : Line) (ok : Bool) :
    (s.unpoison line ok).trap = s.trap := by
  cases ok <;> rfl

theorem events_unpoisonAll (s : State) (ls : List Line) (oks : List Bool) :
    (s.unpoisonAll ls oks).events = s.events ++ ls.map fun line => .unpoison (pfnOf line) := by
  induction ls generalizing s oks with
  | nil => exact (List.append_nil _).symm
  | cons line ls ih =>
    rw [State.unpoisonAll, ih, events_unpoison]
    exact (List.append_cons ..).symm

theorem write_spec {ok : Bool} (hinv : Inv s) (hgood : GivesBack cfg s)
    (h : step cfg s (.write ok) = some t) : Inv t ∧ GivesBack cfg t := by
  obtain ⟨htracks, htrap⟩ := hinv
  simp only [step] at h
  cases hctl : s.ctl with
  | replay rest =>
    rw [hctl] at h htracks htrap
    cases rest with
    | nil => cases h
    | cons line rest =>
      cases h
      obtain ⟨hrest, hlines⟩ := htracks
      rw [pages_cons] at hrest hlines
      have hevents :
          pending (s.unpoison line ok).events = (pending s.events).erase (pfnOf line) := by
        rw [events_unpoison, pending_unpoison]
      refine ⟨⟨⟨?_, ?_⟩, fun _ => ?_⟩, .of_running ?_ nofun⟩
      · exact hevents.subset.trans (Finset.subset_insert_iff.mp hrest)
      · change pages rest ⊆ pages (s.unpoison line ok).lines
        rw [lines_unpoison]
        exact (Finset.subset_insert ..).trans hlines
      · exact (trap_unpoison ..).trans (htrap nofun)
      · change (pending (s.unpoison line ok).events).card ≤ cfg.thresh
        rw [hevents]
        exact (Finset.card_erase_le).trans hgood.atMost
  | _ =>
    rw [hctl] at h
    cases h

theorem clock_spec {diff : Nat} (hinv : Inv s) (hgood : GivesBack cfg s)
    (h : step cfg s (.clock diff) = some t) :
    Inv t ∧ (GivesBack cfg t ↔ Fits cfg s (.clock diff)) := by
  obtain ⟨htracks, htrap⟩ := hinv
  simp only [step] at h
  cases hctl : s.ctl with
  | clock =>
    rw [hctl] at h htracks htrap
    have hpending : pending s.events = pages s.lines := htracks
    dsimp only at h
    split at h
    · rename_i hover
      cases h
      refine ⟨⟨trivial, fun hrun => absurd rfl hrun⟩, ?_⟩
      constructor
      · intro hback _ page hpage
        exact hback.handed rfl page (taken_of_pending (hpending ▸ hpage))
      · intro hfits
        refine ⟨hgood.atMost, fun _ page htaken => ?_⟩
        rcases handed_or_pending htaken with hback | hpend
        · exact hback
        · exact hfits hover page (hpending ▸ hpend)
    · rename_i hover
      cases h
      refine ⟨⟨htracks, fun _ => htrap nofun⟩, ?_⟩
      exact iff_of_true (.of_running hgood.atMost nofun) fun hover' => absurd hover' hover
  | _ =>
    rw [hctl] at h
    cases h

theorem Inv.pending_cases (hinv : Inv s) (hctl : s.ctl ≠ .ended) {page : Page}
    (h : page ∈ pending s.events) :
    page ∈ pages s.lines ∨ ∃ line ∈ s.ctl.unrecorded, page = pfnOf line := by
  obtain ⟨htracks, -⟩ := hinv
  cases hs : s.ctl with
  | attempt | count | clock =>
    rw [hs] at htracks
    exact Or.inl (htracks ▸ h)
  | record line =>
    rw [hs] at htracks
    rcases Finset.mem_insert.mp (htracks ▸ h) with heq | hpage
    · exact Or.inr ⟨line, rfl, heq⟩
    · exact Or.inl hpage
  | replay rest =>
    rw [hs] at htracks
    exact Or.inl (htracks.2 (htracks.1 h))
  | reset =>
    rw [hs] at htracks
    exact absurd (htracks ▸ h) (Finset.notMem_empty _)
  | ended => exact absurd hs hctl

theorem exit_spec {oks : List Bool} (hinv : Inv s) (hgood : GivesBack cfg s)
    (h : step cfg s (.exit oks) = some t) :
    Inv t ∧ (GivesBack cfg t ↔ Fits cfg s (.exit oks)) := by
  by_cases hctl : s.ctl = .ended
  · simp only [step, hctl] at h
    cases h
  · have ht : t = { s.unpoisonAll s.lines oks with ctl := .ended } := by
      simp only [step, hinv.trap hctl, if_true] at h
      exact (Option.some.inj h).symm
    have hevents : t.events = s.events ++ s.lines.map fun line => .unpoison (pfnOf line) := by
      rw [ht]
      exact events_unpoisonAll ..
    have hended : t.ctl = .ended := by rw [ht]
    have htaken (page : Page) : .softOffline page ∈ t.events ↔ .softOffline page ∈ s.events := by
      simp [hevents]
    have hback (page : Page) :
        .unpoison page ∈ t.events ↔ page ∈ pages s.lines ∨ .unpoison page ∈ s.events := by
      simp [hevents, pages, or_comm]
    refine ⟨⟨by rw [hended]; trivial, fun hrun => absurd hended hrun⟩, ?_⟩
    constructor
    · intro hgood' line hline
      rw [← hback]
      refine hgood'.handed hended _ ((htaken _).mpr (taken_of_pending ?_))
      have htracks := hinv.tracks
      cases hs : s.ctl with
      | record line' =>
        rw [hs] at hline htracks
        cases hline
        rw [htracks]
        exact Finset.mem_insert_self ..
      | _ =>
        rw [hs] at hline
        cases hline
    · intro hfits
      refine ⟨?_, fun _ page hpage => (hback page).mpr ?_⟩
      · rw [hevents, pending_handed]
        exact (Finset.card_le_card Finset.sdiff_subset).trans hgood.atMost
      · rcases handed_or_pending ((htaken page).mp hpage) with hdone | hpend
        · exact Or.inr hdone
        · rcases hinv.pending_cases hctl hpend with hfile | ⟨line, hline, rfl⟩
          · exact Or.inl hfile
          · exact hfits line hline

theorem step_spec {a : Action} (hinv : Inv s) (hgood : GivesBack cfg s)
    (h : step cfg s a = some t) : Inv t ∧ (GivesBack cfg t ↔ Fits cfg s a) := by
  cases a with
  | attempt random ok => exact attempt_spec hinv hgood h
  | go => exact (go_spec hinv hgood h).imp_right fun hback => iff_of_true hback trivial
  | write ok => exact (write_spec hinv hgood h).imp_right fun hback => iff_of_true hback trivial
  | clock diff => exact clock_spec hinv hgood h
  | exit oks => exact exit_spec hinv hgood h

theorem reaches_inv (h : Reaches (step cfg) (Fits cfg) init s) : Inv s ∧ GivesBack cfg s := by
  induction h with
  | refl => exact ⟨⟨rfl, fun _ => rfl⟩, .of_running (Nat.zero_le _) nofun⟩
  | step _ hfits hstep ih =>
    obtain ⟨hinv, hback⟩ := step_spec ih.1 ih.2 hstep
    exact ⟨hinv, hback.mpr hfits⟩

/-- In a run whose steps fit every state gives back, and the first step that does not fit ends
in one that does not. -/
theorem givesBack_iff (cfg : Config) :
    (∀ s, Reaches (step cfg) (Fits cfg) init s → GivesBack cfg s) ∧
    ∀ s a t, Reaches (step cfg) (Fits cfg) init s → step cfg s a = some t →
      ¬ Fits cfg s a → ¬ GivesBack cfg t := by
  refine ⟨fun s h => (reaches_inv h).2, fun s a t h hstep hfits hback => hfits ?_⟩
  obtain ⟨hinv, hgood⟩ := reaches_inv h
  exact (step_spec hinv hgood hstep).2.mp hback

/-- One page is taken, the second attempt fails, and the page is handed back. -/
theorem givesBack_iff_one : ∃ s, Reaches (step ⟨1, some 10, 100, by decide⟩)
    (Fits ⟨1, some 10, 100, by decide⟩) init s ∧ s.ctl = .ended ∧
    GivesBack ⟨1, some 10, 100, by decide⟩ s := by
  have hrun : (run (step ⟨1, some 10, 100, by decide⟩) (Fits ⟨1, some 10, 100, by decide⟩) init
      [.attempt 5 true, .go, .go, .clock 1, .attempt 5 false, .go, .write true, .go, .go,
        .clock 11]).map State.ctl = some .ended := by decide +kernel
  obtain ⟨s, hreaches, hended⟩ := exists_reaches hrun
  exact ⟨s, hreaches, hended, (givesBack_iff _).1 s hreaches⟩

/-- Two pages are tied up where the bound is one, and a page is kept when the time is over. -/
theorem givesBack_fails :
    (∃ s, Reaches (step ⟨1, none, 100, by decide⟩) (fun _ _ => True) init s ∧
      ¬ GivesBack ⟨1, none, 100, by decide⟩ s) ∧
    ∃ s, Reaches (step ⟨1, some 10, 100, by decide⟩) (fun _ _ => True) init s ∧
      ¬ GivesBack ⟨1, some 10, 100, by decide⟩ s := by
  constructor
  · have hrun : (run (step ⟨1, none, 100, by decide⟩) (fun _ _ => True) init
        [.attempt 5 true, .go, .go, .clock 1, .attempt 6 true]).map
          (fun s => (pending s.events).card) = some 2 := by decide +kernel
    obtain ⟨s, hreaches, hcard⟩ := exists_reaches hrun
    refine ⟨s, hreaches, fun hback => ?_⟩
    exact absurd (hcard ▸ hback.atMost : 2 ≤ 1) (by decide)
  · have hrun : (run (step ⟨1, some 10, 100, by decide⟩) (fun _ _ => True) init
        [.attempt 5 true, .go, .go, .clock 11]).map (fun s => (s.ctl, s.events)) =
          some (.ended, [.softOffline 5]) := by decide +kernel
    obtain ⟨s, hreaches, hend⟩ := exists_reaches hrun
    obtain ⟨hended, hevents⟩ := Prod.mk.inj hend
    refine ⟨s, hreaches, fun hback => ?_⟩
    have hhanded := hback.handed hended 5
    rw [hevents] at hhanded
    exact absurd (hhanded (by decide)) (by decide)

end MceTest.RandomOffline

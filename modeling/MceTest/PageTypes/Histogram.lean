import MceTest.PageTypes.Page

/-! The histogram of the summary over whole sequences of `add_page` calls. -/

namespace MceTest.PageTypes

open MceTest.Library

def distinctNonzero (words : List Flags) : Finset Flags := words.toFinset.erase 0

theorem mem_distinctNonzero {words : List Flags} {f : Flags} :
    f ∈ distinctNonzero words ↔ f ≠ 0 ∧ f ∈ words := by
  rw [distinctNonzero, Finset.mem_erase, List.mem_toFinset]

theorem distinctNonzero_mono {words words' : List Flags} (h : words ⊆ words') :
    distinctNonzero words ⊆ distinctNonzero words' := by
  intro f hf
  rw [mem_distinctNonzero] at hf ⊢
  exact ⟨hf.1, h hf.2⟩

structure Counted (s : State) (words : List Flags) : Prop where
  wellFormed : Probing.WellFormed probe (tableOf s.pageFlags)
  tallies : Probing.Tallies (tableOf s.pageFlags) s.nrPages words
  seen : ∀ k f, tableOf s.pageFlags k = some f → f ≠ 0 → f ∈ words
  zero : s.pageFlags 0 = 0
  total : s.totalPages = ∑ k ∈ Finset.range hashSize, s.nrPages k

theorem Counted.initial (opts : Options) : Counted { opts } [] where
  wellFormed := by
    intro k f hf
    by_cases hk : k = 0
    · subst hk
      rw [tableOf_zero, Option.some.injEq] at hf
      simp [← hf, probe, Probing.locate]
    · simp [tableOf, hk] at hf
  tallies := ⟨by simp, by simp, by simp⟩
  seen := by
    intro k f hf hne
    by_cases hk : k = 0
    · subst hk
      rw [tableOf_zero, Option.some.injEq] at hf
      exact absurd hf.symm hne
    · simp [tableOf, hk] at hf
  zero := rfl
  total := by simp

theorem mem_probe_bounds {f : Flags} {k : Nat} (h : k ∈ probe f) : k < hashSize := by
  rw [probe] at h
  split at h
  · have : k = 0 := by simpa using h
    simp [this]
  · exact (mem_probePath.mp h).2

theorem mem_probe_of_ne_zero {f : Flags} (hf : f ≠ 0) {k : Nat} :
    k ∈ probe f ↔ 1 ≤ k ∧ k < hashSize := by
  rw [probe, if_neg hf]
  exact mem_probePath

theorem tableOf_eq_some {pageFlags : Nat → Flags} {k : Nat} {f : Flags} (hk : k ≠ 0) :
    tableOf pageFlags k = some f ↔ pageFlags k = f ∧ f ≠ 0 := by
  rw [tableOf_pos _ hk]
  split
  · rename_i h
    constructor
    · intro heq
      cases heq
    · rintro ⟨rfl, hne⟩
      exact absurd h hne
  · rename_i h
    constructor
    · intro heq
      obtain rfl := Option.some.inj heq
      exact ⟨rfl, h⟩
    · rintro ⟨rfl, -⟩
      rfl

theorem Counted.slot_pos {s : State} {words : List Flags} (h : Counted s words) {k : Nat}
    {f : Flags} (hk : tableOf s.pageFlags k = some f) (hf : f ≠ 0) : 1 ≤ k ∧ k < hashSize :=
  (mem_probe_of_ne_zero hf).mp (Probing.locate_spec (h.wellFormed k f hk)).1

theorem Counted.room {s : State} {words : List Flags} (h : Counted s words) {f : Flags}
    (hcard : (distinctNonzero (words ++ [f])).card ≤ hashSize - 1) :
    Probing.locate (tableOf s.pageFlags) f (probe f) ≠ none := by
  by_cases hf : f = 0
  · subst hf
    simp [probe, Probing.locate]
  intro hnone
  have hkeys : ∀ k ∈ probe f, ∀ f', tableOf s.pageFlags k = some f' →
      f' ∈ distinctNonzero (words ++ [f]) := by
    intro k hk f' hf'
    have hk₀ : k ≠ 0 := by have := (mem_probe_of_ne_zero hf).mp hk; omega
    have hne : f' ≠ 0 := ((tableOf_eq_some hk₀).mp hf').2
    exact mem_distinctNonzero.mpr ⟨hne, List.mem_append_left _ (h.seen k f' hf' hne)⟩
  have hlt := h.wellFormed.card_lt_of_full hnone hkeys
    (mem_distinctNonzero.mpr ⟨hf, by simp⟩)
  rw [probe, if_neg hf, card_probePath] at hlt
  omega

theorem Counted.full {s : State} {words : List Flags} (h : Counted s words) {f : Flags}
    (hf : f ≠ 0) (hnew : f ∉ words) (hcard : hashSize - 1 ≤ (distinctNonzero words).card) :
    Probing.locate (tableOf s.pageFlags) f (probe f) = none := by
  apply Probing.full_of_card_le (distinctNonzero words)
  · intro f' hf'
    obtain ⟨hne, hmem⟩ := mem_distinctNonzero.mp hf'
    obtain ⟨k, hk⟩ := h.tallies.recorded f' hmem
    exact ⟨k, (mem_probe_of_ne_zero hf).mpr (h.slot_pos hk hne), hk⟩
  · exact fun hmem => hnew (mem_distinctNonzero.mp hmem).2
  · rwa [probe, if_neg hf, card_probePath]

theorem accepted_singleton (opts : Options) (p : PageArgs) :
    accepted opts [p] =
      if bitMaskOk opts.optFilters (kpageflagsFlags opts.optRaw p.flags p.pme) then
        [kpageflagsFlags opts.optRaw p.flags p.pme] else [] := by
  simp [accepted, List.filter_cons]

theorem Counted.addPage {s s' : State} {words : List Flags} {p : PageArgs}
    (h : Counted s words) (hrun : addPage s p = .ok s') :
    Counted s' (words ++ accepted s.opts [p]) ∧ s'.opts = s.opts := by
  rw [accepted_singleton]
  rcases addPage_cases s p with
    ⟨hno, hok⟩ | ⟨hyes, ⟨b, s₁, herr⟩ | ⟨-, s₁, herr⟩ | ⟨pend, out, k, pf, hk, hpf, h₀, hok⟩⟩
  · rw [hok] at hrun
    cases hrun
    simpa [hno] using h
  · rw [herr] at hrun
    cases hrun
  · rw [herr] at hrun
    cases hrun
  · rw [hok] at hrun
    cases hrun
    rw [if_pos hyes]
    have htallies := h.tallies.record h.wellFormed hk
    have hwf := h.wellFormed.insert hk
    rw [← hpf] at htallies hwf
    refine ⟨⟨hwf, htallies, ?_, h₀.trans h.zero, ?_⟩, rfl⟩
    · intro k' f hf hne
      have hstored : Probing.Stored (tableOf pf) f := ⟨k', hf⟩
      rw [hpf, Probing.stored_insert_iff hk] at hstored
      rcases hstored with rfl | ⟨a, ha⟩
      · simp
      · exact List.mem_append_left _ (h.seen a f ha hne)
    · have hmem : k ∈ Finset.range hashSize :=
        Finset.mem_range.mpr (mem_probe_bounds (Probing.locate_spec hk).1)
      change s.totalPages + 1 = _
      rw [Probing.sum_bump _ hmem, h.total]

theorem addPages_append (s : State) (ps qs : List PageArgs) :
    addPages s (ps ++ qs) = (addPages s ps).bind (addPages · qs) := by
  rw [addPages, List.foldlM_append]
  rfl

theorem addPages_concat (s : State) (ps : List PageArgs) (p : PageArgs) :
    addPages s (ps ++ [p]) = (addPages s ps).bind (addPage · p) := by
  rw [addPages_append]
  congr 1
  funext s₁
  simp [addPages]

theorem Counted.addPages {s s' : State} {words : List Flags} {ps : List PageArgs}
    (h : Counted s words) (hrun : addPages s ps = .ok s') :
    Counted s' (words ++ accepted s.opts ps) ∧ s'.opts = s.opts := by
  induction ps using List.reverseRecOn generalizing s' with
  | nil =>
    cases hrun
    simpa using h
  | append_singleton ps p ih =>
    rw [addPages_concat] at hrun
    cases hps : PageTypes.addPages s ps with
    | error r => rw [hps] at hrun; cases hrun
    | ok s₁ =>
      rw [hps] at hrun
      obtain ⟨h₁, hopts⟩ := ih hps
      obtain ⟨h₂, hopts₂⟩ := h₁.addPage hrun
      rw [hopts] at h₂ hopts₂
      rw [accepted_append, ← List.append_assoc]
      exact ⟨h₂, hopts₂⟩

def Ready (s : State) : Prop := s.opts.optList = .off ∨ Named s.pending.flags0

theorem listActions_ready {s : State} (voffset offset : Nat) {flags : Flags}
    (h : Ready s) (hflags : Printable s.opts [flags]) :
    ∃ s', listActions s voffset offset flags = .ok s' ∧ Ready s' := by
  unfold listActions
  rcases hflags with hoff | hnamed
  · rw [hoff]
    exact ⟨s, rfl, h⟩
  · have hname := hnamed flags (by simp)
    cases hmode : s.opts.optList with
    | off => exact ⟨s, rfl, h⟩
    | ranges =>
      have hpend : Named s.pending.flags0 := h.resolve_left (by simp [hmode])
      obtain ⟨pending, lines, hshow, hnext⟩ :=
        showPageRange_ok hpend voffset offset 1 hname
      simp only [hshow]
      exact ⟨_, rfl, Or.inr hnext⟩
    | each =>
      have hpend : Named s.pending.flags0 := h.resolve_left (by simp [hmode])
      obtain ⟨name, hname⟩ := pageFlagName_ok hname
      simp only [showPage_ok hname]
      exact ⟨_, rfl, Or.inr hpend⟩

theorem addPage_ready {s : State} {p : PageArgs} (h : Ready s)
    (hprint : Printable s.opts (accepted s.opts [p]))
    (hroom : ∀ f ∈ accepted s.opts [p],
      Probing.locate (tableOf s.pageFlags) f (probe f) ≠ none) :
    ∃ s', addPage s p = .ok s' ∧ Ready s' := by
  rw [accepted_singleton] at hprint hroom
  rcases Bool.eq_false_or_eq_true
    (bitMaskOk s.opts.optFilters (kpageflagsFlags s.opts.optRaw p.flags p.pme)) with hok | hno
  · rw [if_pos hok] at hprint hroom
    have hact : Ready (poisonActions s p.offset) := by rwa [poisonActions_eq]
    obtain ⟨s₁, hlist, hready⟩ := listActions_ready p.voffset p.offset hact
      (by rwa [poisonActions_eq])
    obtain ⟨pending, stdout, rfl⟩ := listActions_ok hlist
    rcases hashSlot_cases s.pageFlags (kpageflagsFlags s.opts.optRaw p.flags p.pme) with
      ⟨k, pf, hslot, -⟩ | ⟨-, hnone⟩
    · rw [addPage_accepted hok, hlist]
      refine ⟨_, countPage_ok k pf ?_, hready⟩
      rw [poisonActions_eq]
      exact hslot
    · exact absurd hnone (hroom _ (by simp))
  · exact ⟨s, addPage_rejected hno, h⟩

theorem addPages_ready {s : State} {words : List Flags} {ps : List PageArgs}
    (h : Counted s words) (hready : Ready s) (hprint : Printable s.opts (accepted s.opts ps))
    (hcard : (distinctNonzero (words ++ accepted s.opts ps)).card ≤ hashSize - 1) :
    ∃ s', addPages s ps = .ok s' ∧ Ready s' := by
  induction ps using List.reverseRecOn with
  | nil => exact ⟨s, rfl, hready⟩
  | append_singleton ps p ih =>
    rw [accepted_append] at hprint hcard
    obtain ⟨s₁, hps, hready₁⟩ := ih (hprint.imp_right fun hn f hf =>
      hn f (List.mem_append_left _ hf))
      ((Finset.card_le_card (distinctNonzero_mono (by simp))).trans hcard)
    obtain ⟨hcounted, hopts⟩ := h.addPages hps
    have hroom : ∀ f ∈ accepted s₁.opts [p],
        Probing.locate (tableOf s₁.pageFlags) f (probe f) ≠ none := by
      intro f hf
      rw [hopts] at hf
      apply hcounted.room
      refine (Finset.card_le_card (distinctNonzero_mono ?_)).trans hcard
      intro g hg
      rcases List.mem_append.mp hg with hg | hg
      · rcases List.mem_append.mp hg with hg | hg <;> simp [hg]
      · obtain rfl : g = f := by simpa using hg
        simp [hf]
    obtain ⟨s₂, hp, hready₂⟩ := addPage_ready (p := p) hready₁ (by
      rw [hopts]
      exact hprint.imp_right fun hn f hf => hn f (List.mem_append_right _ hf)) hroom
    exact ⟨s₂, by rw [addPages_concat, hps]; exact hp, hready₂⟩

theorem addPage_not_full {s s' : State} {p : PageArgs}
    (hroom : ∀ f ∈ accepted s.opts [p],
      Probing.locate (tableOf s.pageFlags) f (probe f) ≠ none) :
    addPage s p ≠ .error (.hashTableFull, s') := by
  intro hrun
  rcases addPage_cases s p with
    ⟨-, hok⟩ | ⟨hyes, ⟨b, s₁, herr⟩ | ⟨hnone, -⟩ | ⟨_, _, _, _, -, -, -, hok⟩⟩
  · rw [hok] at hrun; cases hrun
  · rw [herr] at hrun; cases hrun
  · exact hroom _ (by rw [accepted_singleton, if_pos hyes]; simp) hnone
  · rw [hok] at hrun; cases hrun

theorem addPages_not_full {s s' : State} {words : List Flags} {ps : List PageArgs}
    (h : Counted s words)
    (hcard : (distinctNonzero (words ++ accepted s.opts ps)).card ≤ hashSize - 1) :
    addPages s ps ≠ .error (.hashTableFull, s') := by
  induction ps using List.reverseRecOn with
  | nil => exact fun hrun => by cases hrun
  | append_singleton ps p ih =>
    intro hrun
    rw [accepted_append] at hcard
    rw [addPages_concat] at hrun
    cases hps : PageTypes.addPages s ps with
    | error r =>
      rw [hps] at hrun
      cases hrun
      exact ih ((Finset.card_le_card (distinctNonzero_mono (by simp))).trans hcard) hps
    | ok s₁ =>
      rw [hps] at hrun
      obtain ⟨hcounted, hopts⟩ := h.addPages hps
      refine addPage_not_full ?_ hrun
      intro f hf
      rw [hopts] at hf
      apply hcounted.room
      refine (Finset.card_le_card (distinctNonzero_mono ?_)).trans hcard
      intro g hg
      rcases List.mem_append.mp hg with hg | hg
      · rcases List.mem_append.mp hg with hg | hg <;> simp [hg]
      · obtain rfl : g = f := by simpa using hg
        simp [hf]

/-- What the summary reads: one slot for every word, slot 0 for the empty word, and in
each counter the number of pages with the word of its slot. -/
structure Histogram (s : State) (words : List Flags) : Prop where
  slot_of_word : ∀ f ∈ words, f ≠ 0 → ∃ k, 0 < k ∧ k < hashSize ∧ s.pageFlags k = f
  slot_unique : ∀ j k, s.pageFlags j ≠ 0 → s.pageFlags j = s.pageFlags k → j = k
  zero_slot : s.pageFlags 0 = 0 ∧ s.nrPages 0 = BitVec.ofNat 64 (words.count 0)
  counter : ∀ k, s.pageFlags k ≠ 0 →
    s.nrPages k = BitVec.ofNat 64 (words.count (s.pageFlags k))
  other : ∀ k, k ≠ 0 → s.pageFlags k = 0 → s.nrPages k = 0
  total : s.totalPages = ∑ k ∈ Finset.range hashSize, s.nrPages k

theorem Counted.histogram {s : State} {words : List Flags} (h : Counted s words) :
    Histogram s words := by
  have hpos : ∀ k, s.pageFlags k ≠ 0 → k ≠ 0 := by
    rintro k hk rfl
    exact hk h.zero
  have hslot : ∀ k, s.pageFlags k ≠ 0 → tableOf s.pageFlags k = some (s.pageFlags k) :=
    fun k hk => (tableOf_eq_some (hpos k hk)).mpr ⟨rfl, hk⟩
  refine ⟨?_, ?_, ⟨h.zero, ?_⟩, ?_, ?_, h.total⟩
  · intro f hf hne
    obtain ⟨k, hk⟩ := h.tallies.recorded f hf
    have hb := h.slot_pos hk hne
    exact ⟨k, hb.1, hb.2, ((tableOf_eq_some (by omega)).mp hk).1⟩
  · intro j k hj hjk
    exact h.wellFormed.slot_unique (hslot j hj) (hjk ▸ hslot k (hjk ▸ hj))
  · rw [h.tallies.stored 0 0 (tableOf_zero _)]
    rfl
  · intro k hk
    rw [h.tallies.stored k _ (hslot k hk)]
    rfl
  · intro k hk hfree
    exact h.tallies.free k (by rw [tableOf_pos _ hk, if_pos hfree])

theorem addPage_full {s : State} {p : PageArgs}
    (hok : bitMaskOk s.opts.optFilters (kpageflagsFlags s.opts.optRaw p.flags p.pme) = true)
    (hnone : Probing.locate (tableOf s.pageFlags)
      (kpageflagsFlags s.opts.optRaw p.flags p.pme)
      (probe (kpageflagsFlags s.opts.optRaw p.flags p.pme)) = none) :
    (∀ s', addPage s p ≠ .ok s') ∧
      (Ready s → Printable s.opts (accepted s.opts [p]) →
        ∃ s', addPage s p = .error (.hashTableFull, s')) := by
  constructor
  · intro s' hrun
    rcases addPage_cases s p with
      ⟨hno, -⟩ | ⟨-, ⟨b, s₁, herr⟩ | ⟨-, s₁, herr⟩ | ⟨_, _, k, _, hk, -⟩⟩
    · rw [hok] at hno; cases hno
    · rw [herr] at hrun; cases hrun
    · rw [herr] at hrun; cases hrun
    · rw [hnone] at hk; cases hk
  · intro hready hprint
    rw [accepted_singleton, if_pos hok] at hprint
    have hact : Ready (poisonActions s p.offset) := by rwa [poisonActions_eq]
    obtain ⟨s₁, hlist, -⟩ := listActions_ready p.voffset p.offset hact
      (by rwa [poisonActions_eq])
    obtain ⟨pending, stdout, rfl⟩ := listActions_ok hlist
    rw [addPage_accepted hok, hlist]
    rcases hashSlot_cases s.pageFlags (kpageflagsFlags s.opts.optRaw p.flags p.pme) with
      ⟨k, pf, -, hk, -⟩ | ⟨hslot, -⟩
    · rw [hnone] at hk; cases hk
    · refine ⟨_, countPage_error ?_⟩
      rw [poisonActions_eq]
      exact hslot

/-- The flag histogram is exact as long as at most 8191 nonzero words are counted, and
the next new one takes the table-full exit.  A listing can leave earlier, at a bit that
has no name. -/
theorem addPages_histogram_exact (opts : Options) (ps : List PageArgs)
    (hcard : (distinctNonzero (accepted opts ps)).card ≤ hashSize - 1) :
    (∀ s, addPages { opts } ps ≠ .error (.hashTableFull, s)) ∧
    (Printable opts (accepted opts ps) → ∃ s, addPages { opts } ps = .ok s) ∧
    (∀ s, addPages { opts } ps = .ok s → Histogram s (accepted opts ps)) ∧
    ∀ p f, accepted opts [p] = [f] → f ≠ 0 → f ∉ accepted opts ps →
      (distinctNonzero (accepted opts ps)).card = hashSize - 1 →
      (∀ s, addPages { opts } (ps ++ [p]) ≠ .ok s) ∧
      (Printable opts (accepted opts (ps ++ [p])) →
        ∃ s, addPages { opts } (ps ++ [p]) = .error (.hashTableFull, s)) := by
  have h₀ := Counted.initial opts
  have hready₀ : Printable opts (accepted opts ps) → Ready { opts } := fun hp =>
    hp.imp_right fun _ => named_zero
  refine ⟨fun s => addPages_not_full h₀ (by simpa using hcard), ?_, ?_, ?_⟩
  · intro hprint
    obtain ⟨s, hs, -⟩ := addPages_ready h₀ (hready₀ hprint) hprint (by simpa using hcard)
    exact ⟨s, hs⟩
  · intro s hs
    simpa using (h₀.addPages hs).1.histogram
  · intro p f hp hf hnew hfull
    have hword : bitMaskOk opts.optFilters (kpageflagsFlags opts.optRaw p.flags p.pme) = true ∧
        kpageflagsFlags opts.optRaw p.flags p.pme = f := by
      rw [accepted_singleton] at hp
      split at hp
      · rename_i hok
        exact ⟨hok, by simpa using hp⟩
      · cases hp
    obtain ⟨hok, rfl⟩ := hword
    constructor
    · intro s hs
      rw [addPages_concat] at hs
      cases hps : addPages { opts } ps with
      | error r => rw [hps] at hs; cases hs
      | ok s₁ =>
        rw [hps] at hs
        obtain ⟨hcounted, hopts⟩ := h₀.addPages hps
        rw [List.nil_append] at hcounted
        refine (addPage_full (p := p) ?_ ?_).1 s hs
        · rw [hopts]; exact hok
        · rw [hopts]; exact hcounted.full hf hnew hfull.ge
    · intro hprint
      rw [accepted_append] at hprint
      have hprint₁ : Printable opts (accepted opts ps) :=
        hprint.imp_right fun hn g hg => hn g (List.mem_append_left _ hg)
      obtain ⟨s₁, hps, hready⟩ := addPages_ready h₀ (hready₀ hprint₁) hprint₁
        (by simpa using hcard)
      obtain ⟨hcounted, hopts⟩ := h₀.addPages hps
      rw [List.nil_append] at hcounted
      obtain ⟨s₂, hs₂⟩ := (addPage_full (s := s₁) (p := p) (by rw [hopts]; exact hok)
        (by rw [hopts]; exact hcounted.full hf hnew hfull.ge)).2 hready (by
          rw [hopts]
          exact hprint.imp_right fun hn g hg => hn g (List.mem_append_right _ hg))
      exact ⟨s₂, by rw [addPages_concat, hps]; exact hs₂⟩

/-- Two words of one slot, the first of them twice, and a page without flags. -/
theorem addPages_histogram_exact_collision :
    bit Kpf.lru &&& hashMask = (bit Kpf.lru ||| bit Kpf.swapcache) &&& hashMask ∧
    ∃ s, addPages {} [⟨0, 5, bit Kpf.lru, 0⟩, ⟨1, 6, bit Kpf.lru ||| bit Kpf.swapcache, 0⟩,
      ⟨2, 7, bit Kpf.lru, 0⟩, ⟨3, 8, 0, 0⟩] = .ok s ∧
      Histogram s [bit Kpf.lru, bit Kpf.lru ||| bit Kpf.swapcache, bit Kpf.lru, 0] := by
  obtain ⟨-, hrun, hhist, -⟩ := addPages_histogram_exact {} [⟨0, 5, bit Kpf.lru, 0⟩,
    ⟨1, 6, bit Kpf.lru ||| bit Kpf.swapcache, 0⟩, ⟨2, 7, bit Kpf.lru, 0⟩, ⟨3, 8, 0, 0⟩]
    (by decide +kernel)
  obtain ⟨s, hs⟩ := hrun (Or.inl rfl)
  exact ⟨by decide +kernel, s, hs, hhist s hs⟩

end MceTest.PageTypes

import MceTest.PageTypes.Walk

/-! What a run in physical mode poisons and counts. -/

namespace MceTest.PageTypes

open MceTest.Library

/-- A file that holds the given words: before its end a read gives at least one word. -/
structure Serves (file : WordFile) (content : List (BitVec 64)) : Prop where
  short : content.length < 2 ^ 60
  read : ∀ call index count, index < 2 ^ 60 → 0 < count →
    ∃ n ≤ count, file.pread call index count = .bytes ((content.drop index).take n) 0 ∧
      (index < content.length → 0 < n)

def window (content : List (BitVec 64)) (index count : Nat) : List (BitVec 64 × Nat) :=
  ((content.drop index).take count).zipIdx index

def picks (opts : Options) (words : List (Flags × Nat)) : List (Nat × Flags) :=
  (words.map fun w => (w.2, kpageflagsFlags opts.optRaw w.1 0)).filter
    fun f => bitMaskOk opts.optFilters f.2

theorem picks_append (opts : Options) (ws ws' : List (Flags × Nat)) :
    picks opts (ws ++ ws') = picks opts ws ++ picks opts ws' := by
  simp [picks]

theorem window_split (content : List (BitVec 64)) (index : Nat) {n count : Nat}
    (hn : n ≤ count) (hlen : index + n ≤ content.length) :
    window content index count =
      window content index n ++ window content (index + n) (count - n) := by
  have htake : ((content.drop index).take n).length = n := by
    rw [List.length_take, List.length_drop]
    omega
  obtain ⟨m, rfl⟩ := Nat.exists_eq_add_of_le hn
  rw [window, List.take_add, List.zipIdx_append, htake, List.drop_drop, Nat.add_sub_cancel_left]
  rfl

theorem window_eq_nil {content : List (BitVec 64)} {index : Nat} (h : content.length ≤ index)
    (count : Nat) : window content index count = [] := by
  rw [window, List.drop_of_length_le h]
  simp

theorem filter_zipIdx_eq_nil {α : Type*} {l : List α} {k lo hi : Nat}
    (h : hi ≤ k ∨ k + l.length ≤ lo) :
    ((l.zipIdx k).filter fun w => lo ≤ w.2 ∧ w.2 < hi) = [] := by
  rw [List.filter_eq_nil_iff]
  intro w hw
  have hge := List.le_snd_of_mem_zipIdx hw
  have hlt := List.snd_lt_of_mem_zipIdx hw
  simp only [decide_eq_true_eq]
  omega

theorem window_eq_filter (content : List (BitVec 64)) (index count : Nat) :
    window content index count =
      content.zipIdx.filter fun w => index ≤ w.2 ∧ w.2 < index + count := by
  rcases Nat.lt_or_ge content.length index with hlt | hge
  · rw [window_eq_nil hlt.le, filter_zipIdx_eq_nil (by omega)]
  · have hsplit : content.zipIdx = (content.take index).zipIdx ++
        (window content index count ++
          ((content.drop index).drop count).zipIdx
            (index + ((content.drop index).take count).length)) := by
      rw [window, ← List.zipIdx_append, List.take_append_drop]
      conv_lhs => rw [← List.take_append_drop index content, List.zipIdx_append]
      rw [List.length_take, Nat.min_eq_left hge, Nat.zero_add]
    rw [hsplit, List.filter_append, List.filter_append,
      filter_zipIdx_eq_nil (by rw [List.length_take]; omega)]
    have hmid : ((window content index count).filter
        fun w => index ≤ w.2 ∧ w.2 < index + count) = window content index count := by
      rw [List.filter_eq_self]
      intro w hw
      have hge' := List.le_snd_of_mem_zipIdx hw
      have hlt' := List.snd_lt_of_mem_zipIdx hw
      rw [List.length_take] at hlt'
      simp only [decide_eq_true_eq]
      omega
    have hlast : ((((content.drop index).drop count).zipIdx
        (index + ((content.drop index).take count).length)).filter
        fun w => index ≤ w.2 ∧ w.2 < index + count) = [] := by
      rcases Nat.le_total count (content.drop index).length with hc | hc
      · exact filter_zipIdx_eq_nil (by rw [List.length_take]; omega)
      · rw [List.drop_of_length_le hc]
        rfl
    rw [hmid, hlast, List.append_nil, List.nil_append]

structure Walked (s : State) (opts : Options) (picked : List (Nat × Flags)) : Prop where
  kept : s.opts = opts
  corruptPfn : s.corruptPfn =
    if opts.optHwpoison then picked.map fun f => pfnText f.1 else []
  unpoisonPfn : s.unpoisonPfn =
    if opts.optUnpoison then picked.map fun f => pfnText f.1 else []
  totalPages : s.totalPages = BitVec.ofNat 64 picked.length
  counted : Counted s (picked.map Prod.snd)

theorem Walked.initial (opts : Options) : Walked { opts } opts [] where
  kept := rfl
  corruptPfn := by simp
  unpoisonPfn := by simp
  totalPages := rfl
  counted := Counted.initial opts

/-- The words are few enough for the table, and a listing can print them. -/
def Fits (opts : Options) (words : List Flags) : Prop :=
  Printable opts words ∧ (distinctNonzero words).card ≤ hashSize - 1

theorem Fits.subset {opts : Options} {words words' : List Flags} (h : Fits opts words)
    (hsub : words' ⊆ words) : Fits opts words' :=
  ⟨h.1.imp_right fun hn f hf => hn f (hsub hf),
    (Finset.card_le_card (distinctNonzero_mono hsub)).trans h.2⟩

def pagePicks (opts : Options) (ps : List PageArgs) : List (Nat × Flags) :=
  (ps.map fun p => (p.offset, kpageflagsFlags opts.optRaw p.flags p.pme)).filter
    fun f => bitMaskOk opts.optFilters f.2

theorem pagePicks_append (opts : Options) (ps qs : List PageArgs) :
    pagePicks opts (ps ++ qs) = pagePicks opts ps ++ pagePicks opts qs := by
  simp [pagePicks]

theorem accepted_eq_pagePicks (opts : Options) (ps : List PageArgs) :
    accepted opts ps = (pagePicks opts ps).map Prod.snd := by
  induction ps with
  | nil => rfl
  | cons p ps ih =>
    rw [← List.singleton_append, accepted_append, pagePicks_append, List.map_append, ih,
      accepted_singleton]
    congr 1
    cases h : bitMaskOk opts.optFilters (kpageflagsFlags opts.optRaw p.flags p.pme) <;>
      simp [pagePicks, h]

theorem pagePicks_batchPages (opts : Options) (voffset : Nat) {index : Nat}
    {words : List Flags} (hlen : index + words.length ≤ 2 ^ 64) :
    pagePicks opts (batchPages voffset index 0 words) = picks opts (words.zipIdx index) := by
  rw [pagePicks, picks, batchPages, List.map_map, List.zipIdx_eq_map_add (i := index),
    List.map_map]
  congr 1
  apply List.map_congr_left
  intro w hw
  have hlt := List.snd_lt_of_mem_zipIdx hw
  change (ulong (index + w.2), _) = (index + w.2, _)
  rw [ulong_of_lt (by omega)]

theorem Walked.addPage {s s' : State} {opts : Options} {picked : List (Nat × Flags)}
    (h : Walked s opts picked) {p : PageArgs} (hrun : addPage s p = .ok s') :
    Walked s' opts (picked ++ pagePicks opts [p]) := by
  obtain ⟨rfl, hcorrupt, hunpoison, htotal, hcounted⟩ := h
  obtain ⟨hcounted', hkept⟩ := hcounted.addPage hrun
  rw [accepted_eq_pagePicks, ← List.map_append] at hcounted'
  rcases addPage_cases s p with
    ⟨hno, hok⟩ | ⟨hyes, ⟨b, s₁, herr⟩ | ⟨-, s₁, herr⟩ | ⟨pend, out, k, pf, -, -, -, hok⟩⟩
  · rw [hok] at hrun
    cases hrun
    have hnil : pagePicks s.opts [p] = [] := by simp [pagePicks, hno]
    rw [hnil, List.append_nil] at hcounted' ⊢
    exact ⟨rfl, hcorrupt, hunpoison, htotal, hcounted⟩
  · rw [herr] at hrun
    cases hrun
  · rw [herr] at hrun
    cases hrun
  · rw [hok] at hrun
    cases hrun
    have hone : pagePicks s.opts [p] =
        [(p.offset, kpageflagsFlags s.opts.optRaw p.flags p.pme)] := by simp [pagePicks, hyes]
    rw [hone] at hcounted' ⊢
    refine ⟨rfl, ?_, ?_, ?_, hcounted'⟩
    · cases hX : s.opts.optHwpoison <;> simp [hcorrupt, hX]
    · cases hx : s.opts.optUnpoison <;> simp [hunpoison, hx]
    · simp [htotal, BitVec.ofNat_add]

theorem Walked.addPages {s s' : State} {opts : Options} {picked : List (Nat × Flags)}
    (h : Walked s opts picked) {ps : List PageArgs} (hrun : addPages s ps = .ok s') :
    Walked s' opts (picked ++ pagePicks opts ps) := by
  induction ps using List.reverseRecOn generalizing s' with
  | nil =>
    cases hrun
    simpa [pagePicks] using h
  | append_singleton ps p ih =>
    rw [addPages_concat] at hrun
    cases hps : PageTypes.addPages s ps with
    | error r => rw [hps] at hrun; cases hrun
    | ok s₁ =>
      rw [hps] at hrun
      rw [pagePicks_append, ← List.append_assoc]
      exact (ih hps).addPage hrun

theorem Walked.batch {s : State} {opts : Options} {picked : List (Nat × Flags)}
    (h : Walked s opts picked) (hready : Ready s) (voffset : Nat) {index : Nat}
    {words : List Flags} (hlen : index + words.length ≤ 2 ^ 64)
    (hfits : Fits opts ((picked ++ picks opts (words.zipIdx index)).map Prod.snd)) :
    ∃ s', PageTypes.addPages s (batchPages voffset index 0 words) = .ok s' ∧ Ready s' ∧
      Walked s' opts (picked ++ picks opts (words.zipIdx index)) := by
  rw [← pagePicks_batchPages opts voffset hlen] at hfits ⊢
  have hpicks := accepted_eq_pagePicks opts (batchPages voffset index 0 words)
  obtain ⟨s', hs', hready'⟩ := addPages_ready h.counted hready
    (by
      rw [h.kept, hpicks]
      exact (hfits.subset (by simp)).1)
    (by
      rw [h.kept, hpicks, ← List.map_append]
      exact hfits.2)
  exact ⟨s', hs', hready', h.addPages hs'⟩

theorem Walked.reads {s : State} {opts : Options} {picked : List (Nat × Flags)}
    (h : Walked s opts picked) (n : Nat) : Walked { s with reads := n } opts picked :=
  ⟨h.kept, h.corruptPfn, h.unpoisonPfn, h.totalPages,
    ⟨h.counted.wellFormed, h.counted.tallies, h.counted.seen, h.counted.zero, h.counted.total⟩⟩

theorem walkPfn_walked {env : Env} {content : List (BitVec 64)}
    (hserve : Serves env.kpageflags content) {opts : Options} (voffset : Nat)
    {index count : Nat} (hindex : index < 2 ^ 60) {s : State} {picked : List (Nat × Flags)}
    (h : Walked s opts picked) (hready : Ready s)
    (hfits : Fits opts ((picked ++ picks opts (window content index count)).map Prod.snd)) :
    ∃ s', walkPfn env voffset index count 0 s = .ok s' ∧ Ready s' ∧
      Walked s' opts (picked ++ picks opts (window content index count)) := by
  induction count using Nat.strongRecOn generalizing index s picked with
  | ind count ih =>
    by_cases hcount : count = 0
    · subst hcount
      rw [walkPfn, if_pos rfl]
      exact ⟨s, rfl, hready, by simpa [window, picks] using h⟩
    have hbatch : 0 < min count kpageflagsBatch := by
      rw [kpageflagsBatch]
      omega
    obtain ⟨n, hn, hread, hpos⟩ := hserve.read s.reads index _ hindex hbatch
    have hwords : doU64Read env.kpageflags s.reads index (min count kpageflagsBatch) =
        .ok ((content.drop index).take n) := by
      rw [doU64Read, if_neg (by rw [ulongMax]; omega), hread]
      rfl
    rw [walkPfn, if_neg hcount]
    simp only [hwords]
    by_cases heof : content.length ≤ index
    · rw [window_eq_nil heof, picks, List.map_nil, List.filter_nil, List.append_nil]
      rw [if_pos (by simp [List.drop_of_length_le heof])]
      exact ⟨_, rfl, hready, h.reads _⟩
    · -- the read gave `m` words: pick them, and go on behind them with the rest of the range
      obtain ⟨m, hm, htake, hmpos, hmlen⟩ : ∃ m ≤ count,
          (content.drop index).take n = (content.drop index).take m ∧ 0 < m ∧
          index + m ≤ content.length := by
        refine ⟨min n (content.length - index), ?_, ?_, ?_, ?_⟩
        · exact (min_le_left _ _).trans (hn.trans (min_le_left _ _))
        · rw [← List.length_drop, ← List.take_eq_take_min]
        · have := hpos (by omega)
          omega
        · omega
      have hlen : ((content.drop index).take m).length = m := by
        rw [List.length_take, List.length_drop]
        omega
      have hshort := hserve.short
      rw [window_split content index hm hmlen, picks_append, ← List.append_assoc] at hfits ⊢
      rw [htake, hlen, if_neg hmpos.ne']
      obtain ⟨s₁, hs₁, hready₁, hwalked₁⟩ := (h.reads (s.reads + 1)).batch hready voffset
        (by rw [hlen]; omega : index + ((content.drop index).take m).length ≤ 2 ^ 64)
        (hfits.subset (by simp [window]))
      simp only [hs₁]
      rw [ulong_of_lt (by omega)]
      exact ih (count - m) (by omega) (by omega) hwalked₁ hready₁ hfits

theorem walkRange_walked {env : Env} {content : List (BitVec 64)}
    (hserve : Serves env.kpageflags content) {opts : Options} (hpid : opts.optPid = 0)
    {range : Nat × Nat} (hrange : range.1 < 2 ^ 60) {s : State} {picked : List (Nat × Flags)}
    (h : Walked s opts picked) (hready : Ready s)
    (hfits : Fits opts ((picked ++ picks opts (window content range.1 range.2)).map Prod.snd)) :
    ∃ s', walkRange env s range = .ok s' ∧ Ready s' ∧
      Walked s' opts (picked ++ picks opts (window content range.1 range.2)) := by
  rw [walkRange, if_pos (by rw [h.kept, hpid])]
  exact walkPfn_walked hserve range.1 hrange h hready hfits

theorem walkRanges_walked {env : Env} {content : List (BitVec 64)}
    (hserve : Serves env.kpageflags content) {opts : Options} (hpid : opts.optPid = 0)
    (ranges : List (Nat × Nat)) (hranges : ∀ r ∈ ranges, r.1 < 2 ^ 60) {s : State}
    {picked : List (Nat × Flags)} (h : Walked s opts picked) (hready : Ready s)
    (hfits : Fits opts ((picked ++
      ranges.flatMap fun r => picks opts (window content r.1 r.2)).map Prod.snd)) :
    ∃ s', ranges.foldlM (walkRange env) s = .ok s' ∧ Ready s' ∧
      Walked s' opts (picked ++
        ranges.flatMap fun r => picks opts (window content r.1 r.2)) := by
  induction ranges generalizing s picked with
  | nil => exact ⟨s, rfl, hready, by simpa using h⟩
  | cons r ranges ih =>
    rw [List.flatMap_cons, ← List.append_assoc] at hfits ⊢
    obtain ⟨s₁, hs₁, hready₁, hwalked₁⟩ := walkRange_walked hserve hpid
      (hranges r (by simp)) h hready (hfits.subset (by simp))
    obtain ⟨s₂, hs₂, hready₂, hwalked₂⟩ :=
      ih (fun r' hr' => hranges r' (List.mem_cons_of_mem _ hr')) hwalked₁ hready₁ hfits
    refine ⟨s₂, ?_, hready₂, hwalked₂⟩
    rw [List.foldlM_cons, hs₁]
    exact hs₂

end MceTest.PageTypes

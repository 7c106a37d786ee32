import MceTest.PageTypes.Physical

/-! What a run over the memory of a process poisons and counts. -/

namespace MceTest.PageTypes

open MceTest.Library MceTest.Library.Interval

/-- The frame of an entry of `pagemap` with its translated word, if the page is in memory. -/
def frameOf (raw : Bool) (content : List (BitVec 64)) (pme : BitVec 64) : Option (Nat × Flags) :=
  if pagemapPfn pme = 0 then none
  else content[pagemapPfn pme]?.map fun flags => (pagemapPfn pme, kpageflagsFlags raw flags pme)

def chosenEntries (args : List Arg) (vmas : List (Nat × Nat)) (map : List (BitVec 64)) :
    List (BitVec 64 × Nat) :=
  let entries := map.zipIdx.filter fun w => w.2 ∈ points vmas
  if specsOf args = [] then entries
  else (specsOf args).flatMap fun a => entries.filter fun w => a.Covers w.2

def selectedInTask (args : List Arg) (vmas : List (Nat × Nat)) (map content : List (BitVec 64)) :
    List (Nat × Flags) :=
  ((chosenEntries args vmas map).filterMap fun w => frameOf (args.any Arg.isRaw) content w.1).filter
    fun f => bitMaskOk (filtersOf args) f.2

def entryPicks (opts : Options) (content pmes : List (BitVec 64)) : List (Nat × Flags) :=
  (pmes.filterMap (frameOf opts.optRaw content)).filter fun f => bitMaskOk opts.optFilters f.2

variable {env : Env} {opts : Options} {content map : List (BitVec 64)} {s : State}
  {picked : List (Nat × Flags)}

theorem entryPicks_append (opts : Options) (content pmes pmes' : List (BitVec 64)) :
    entryPicks opts content (pmes ++ pmes') =
      entryPicks opts content pmes ++ entryPicks opts content pmes' := by
  rw [entryPicks, List.filterMap_append, List.filter_append]
  rfl

theorem entryPicks_flatMap {α : Type*} (opts : Options) (content : List (BitVec 64))
    (f : α → List (BitVec 64)) (l : List α) :
    entryPicks opts content (l.flatMap f) = l.flatMap fun a => entryPicks opts content (f a) := by
  induction l with
  | nil => rfl
  | cons a l ih => rw [List.flatMap_cons, entryPicks_append, ih, List.flatMap_cons]

theorem Serves.doU64Read {file : WordFile} (h : Serves file content) (call : Nat)
    {index count : Nat} (hindex : index < 2 ^ 60) (hcount : 0 < count) :
    ∃ m ≤ count, PageTypes.doU64Read file call index count = .ok ((content.drop index).take m) ∧
      ((content.drop index).take m).length = m ∧ (m = 0 → content.length ≤ index) := by
  obtain ⟨n, hn, hread, hpos⟩ := h.read call index count hindex hcount
  have hlen : (content.drop index).length = content.length - index := List.length_drop
  refine ⟨min n (content.length - index), (min_le_left _ _).trans hn, ?_, ?_, fun hm => ?_⟩
  · rw [PageTypes.doU64Read, if_neg (by rw [ulongMax]; omega), hread, ← hlen,
      ← List.take_eq_take_min]
    rfl
  · rw [List.length_take, hlen]
    omega
  · by_contra hlt
    have := hpos (by omega)
    omega

theorem Walked.takes (h : Walked s opts picked) (hready : Ready s) (ps : List PageArgs)
    (hfits : Fits opts ((picked ++ pagePicks opts ps).map Prod.snd)) :
    ∃ s', PageTypes.addPages s ps = .ok s' ∧ Ready s' ∧
      Walked s' opts (picked ++ pagePicks opts ps) := by
  have hpicks := accepted_eq_pagePicks opts ps
  rw [List.map_append, ← hpicks] at hfits
  obtain ⟨s', hs', hready'⟩ := addPages_ready h.counted hready
    (by rw [h.kept]; exact (hfits.subset (List.subset_append_right _ _)).1)
    (by rw [h.kept]; exact hfits.2)
  exact ⟨s', hs', hready', h.addPages hs'⟩

theorem pagemapPfn_lt (pme : BitVec 64) : pagemapPfn pme < 2 ^ 55 := by
  unfold pagemapPfn
  split
  · rw [pmPframe, BitVec.toNat_and]
    exact Nat.and_le_right.trans_lt (by decide)
  · decide

theorem walkPfn_entry (hserve : Serves env.kpageflags content) (h : Walked s opts picked)
    (hready : Ready s) (voffset : Nat) {pme : BitVec 64} (hpfn : pagemapPfn pme ≠ 0)
    (hfits : Fits opts ((picked ++ entryPicks opts content [pme]).map Prod.snd)) :
    ∃ s', walkPfn env voffset (pagemapPfn pme) 1 pme s = .ok s' ∧ Ready s' ∧
      Walked s' opts (picked ++ entryPicks opts content [pme]) := by
  have hlt := pagemapPfn_lt pme
  have hbatch : min 1 kpageflagsBatch = 1 := rfl
  obtain ⟨m, hm, hread, hlen, hend⟩ := hserve.doU64Read s.reads
    (by omega : pagemapPfn pme < 2 ^ 60) Nat.one_pos
  rw [walkPfn, if_neg one_ne_zero]
  simp only [hbatch, hread, hlen]
  rcases Nat.eq_zero_or_pos m with rfl | hpos
  · have hnone : content[pagemapPfn pme]? = none := List.getElem?_eq_none (hend rfl)
    have hpicks : entryPicks opts content [pme] = [] := by simp [entryPicks, frameOf, hnone]
    rw [if_pos rfl, hpicks, List.append_nil]
    exact ⟨_, rfl, hready, h.reads _⟩
  · obtain rfl : m = 1 := by omega
    have hin : pagemapPfn pme < content.length := by
      rw [List.length_take, List.length_drop] at hlen
      omega
    have hword : (content.drop (pagemapPfn pme)).take 1 = [content[pagemapPfn pme]] := by
      rw [List.drop_eq_getElem_cons hin]
      rfl
    have hpicks : entryPicks opts content [pme] =
        pagePicks opts (batchPages voffset (pagemapPfn pme) pme [content[pagemapPfn pme]]) := by
      have hsmall : ulong (pagemapPfn pme) = pagemapPfn pme := ulong_of_lt (by omega)
      simp [entryPicks, frameOf, hpfn, hin, pagePicks, batchPages, hsmall]
    rw [hpicks] at hfits ⊢
    rw [if_neg one_ne_zero, hword]
    obtain ⟨s', hs', hready', hwalked'⟩ := (h.reads (s.reads + 1)).takes hready _ hfits
    simp only [hs']
    rw [Nat.sub_self, walkPfn, if_pos rfl]
    exact ⟨s', rfl, hready', hwalked'⟩

theorem walkVmaPages_walked (hserve : Serves env.kpageflags content) (index k : Nat)
    (pmes : List (BitVec 64)) (h : Walked s opts picked) (hready : Ready s)
    (hfits : Fits opts ((picked ++ entryPicks opts content pmes).map Prod.snd)) :
    ∃ s', ((pmes.zipIdx k).foldlM (fun s w =>
        if pagemapPfn w.1 ≠ 0 then walkPfn env (ulong (index + w.2)) (pagemapPfn w.1) 1 w.1 s
        else .ok s) s : Run) = .ok s' ∧ Ready s' ∧
      Walked s' opts (picked ++ entryPicks opts content pmes) := by
  induction pmes generalizing k s picked with
  | nil => exact ⟨s, rfl, hready, by simpa [entryPicks] using h⟩
  | cons pme pmes ih =>
    rw [← List.singleton_append, entryPicks_append, ← List.append_assoc] at hfits ⊢
    rw [List.singleton_append, List.zipIdx_cons, List.foldlM_cons]
    by_cases hpfn : pagemapPfn pme = 0
    · have hpicks : entryPicks opts content [pme] = [] := by simp [entryPicks, frameOf, hpfn]
      rw [hpicks, List.append_nil] at hfits ⊢
      rw [if_neg (not_not.mpr hpfn)]
      exact ih (k + 1) h hready hfits
    · obtain ⟨s₁, hs₁, hready₁, hwalked₁⟩ := walkPfn_entry hserve h hready (ulong (index + k)) hpfn
        (hfits.subset (by simp))
      rw [if_pos hpfn, hs₁]
      exact ih (k + 1) hwalked₁ hready₁ hfits

theorem Walked.pagemapReads (h : Walked s opts picked) (n : Nat) :
    Walked { s with pagemapReads := n } opts picked :=
  ⟨h.kept, h.corruptPfn, h.unpoisonPfn, h.totalPages,
    ⟨h.counted.wellFormed, h.counted.tallies, h.counted.seen, h.counted.zero, h.counted.total⟩⟩

theorem walkVma_walked (hserve : Serves env.kpageflags content) (hmap : Serves env.pagemap map)
    {index count : Nat} (hindex : index < 2 ^ 60) (h : Walked s opts picked) (hready : Ready s)
    (hfits : Fits opts
      ((picked ++ entryPicks opts content ((map.drop index).take count)).map Prod.snd)) :
    ∃ s', walkVma env index count s = .ok s' ∧ Ready s' ∧
      Walked s' opts (picked ++ entryPicks opts content ((map.drop index).take count)) := by
  induction count using Nat.strongRecOn generalizing index s picked with
  | ind count ih =>
    by_cases hcount : count = 0
    · subst hcount
      rw [walkVma, if_pos rfl]
      exact ⟨s, rfl, hready, by simpa [entryPicks] using h⟩
    have hbatch : 0 < min count pagemapBatch := by
      rw [pagemapBatch]
      omega
    obtain ⟨m, hm, hread, hlen, hend⟩ := hmap.doU64Read s.pagemapReads hindex hbatch
    rw [walkVma, if_neg hcount]
    simp only [hread, hlen]
    rcases Nat.eq_zero_or_pos m with rfl | hpos
    · rw [if_pos rfl, List.drop_of_length_le (hend rfl), List.take_nil]
      exact ⟨_, rfl, hready, by simpa [entryPicks] using h.pagemapReads _⟩
    · have hle : m ≤ count := hm.trans (min_le_left _ _)
      have hshort := hmap.short
      have hin : index + m ≤ map.length := by
        rw [List.length_take, List.length_drop] at hlen
        omega
      have hsplit : (map.drop index).take count =
          (map.drop index).take m ++ (map.drop (index + m)).take (count - m) := by
        conv_lhs => rw [← Nat.add_sub_cancel' hle, List.take_add, List.drop_drop]
      rw [hsplit, entryPicks_append, ← List.append_assoc] at hfits ⊢
      obtain ⟨s₁, hs₁, hready₁, hwalked₁⟩ := walkVmaPages_walked hserve index 0
        ((map.drop index).take m) (h.pagemapReads (s.pagemapReads + 1)) hready
        (hfits.subset (by simp))
      rw [if_neg hpos.ne', walkVmaPages, hs₁]
      simp only
      rw [ulong_of_lt (by omega)]
      exact ih (count - m) (by omega) (by omega) hwalked₁ hready₁ hfits

theorem foldlM_vmas {α : Type} {f : State → α → Run}
    (hf : ∀ s a s', f s a = .ok s' → s'.vmas = s.vmas) {l : List α} {s s' : State}
    (h : l.foldlM f s = .ok s') : s'.vmas = s.vmas := by
  induction l generalizing s with
  | nil =>
    cases h
    rfl
  | cons a l ih =>
    rw [List.foldlM_cons] at h
    cases ha : f s a with
    | error r =>
      rw [ha] at h
      cases h
    | ok s₁ =>
      rw [ha] at h
      exact (ih h).trans (hf s a s₁ ha)

theorem addPage_vmas {s s' : State} {p : PageArgs} (h : addPage s p = .ok s') :
    s'.vmas = s.vmas := by
  rcases addPage_cases s p with
    ⟨-, hok⟩ | ⟨-, ⟨b, s₁, herr⟩ | ⟨-, s₁, herr⟩ | ⟨pend, out, k, pf, -, -, -, hok⟩⟩
  · rw [hok] at h
    cases h
    rfl
  · rw [herr] at h
    cases h
  · rw [herr] at h
    cases h
  · rw [hok] at h
    cases h
    rfl

theorem walkPfn_vmas {voffset index count : Nat} {pme : BitVec 64} {s s' : State}
    (h : walkPfn env voffset index count pme s = .ok s') : s'.vmas = s.vmas := by
  fun_induction walkPfn env voffset index count pme s with
  | case1 | case3 => rw [← Except.ok.inj h]
  | case2 => cases h
  | case4 => cases h
  | case5 index count s _ _ words _ s₁ _ s₂ hpages ih =>
    have hbatch := foldlM_vmas (s := s₁) (fun _ _ _ hstep => addPage_vmas hstep) hpages
    exact (ih h).trans hbatch

theorem walkVma_vmas {index count : Nat} {s s' : State}
    (h : walkVma env index count s = .ok s') : s'.vmas = s.vmas := by
  fun_induction walkVma env index count s with
  | case1 | case3 => rw [← Except.ok.inj h]
  | case2 => cases h
  | case4 => cases h
  | case5 index count s _ _ words _ s₁ _ s₂ hpages ih =>
    have hbatch := foldlM_vmas (s := s₁) (fun s w s' hstep => by
      split at hstep
      · exact walkPfn_vmas hstep
      · rw [← Except.ok.inj hstep]) hpages
    exact (ih h).trans hbatch

theorem walkPieces_walked (hserve : Serves env.kpageflags content) (hmap : Serves env.pagemap map)
    (pieces : List (Nat × Nat)) (hpieces : ∀ p ∈ pieces, p.1 < 2 ^ 60)
    (h : Walked s opts picked) (hready : Ready s)
    (hfits : Fits opts ((picked ++ entryPicks opts content
      (pieces.flatMap fun p => (map.drop p.1).take p.2)).map Prod.snd)) :
    ∃ s', (pieces.foldlM (fun s p => walkVma env p.1 p.2 s) s : Run) = .ok s' ∧ Ready s' ∧
      Walked s' opts (picked ++ entryPicks opts content
        (pieces.flatMap fun p => (map.drop p.1).take p.2)) := by
  induction pieces generalizing s picked with
  | nil => exact ⟨s, rfl, hready, by simpa [entryPicks] using h⟩
  | cons p pieces ih =>
    rw [List.flatMap_cons, entryPicks_append, ← List.append_assoc] at hfits ⊢
    obtain ⟨s₁, hs₁, hready₁, hwalked₁⟩ := walkVma_walked hserve hmap (hpieces p (by simp)) h
      hready (hfits.subset (List.map_subset _ (List.subset_append_left _ _)))
    rw [List.foldlM_cons, hs₁]
    exact ih (fun q hq => hpieces q (List.mem_cons_of_mem p hq)) hwalked₁ hready₁ hfits

variable {vmas : List (Nat × Nat)} {pageSize : Nat}

theorem walkTask_pieces (hps : 0 < pageSize) (hlen : vmas.length ≤ maxVmas)
    (hasc : Ascending vmas) {range : Nat × Nat} (hrange : range.1 + range.2 ≤ ulongMax) :
    (walkTask (parsePid pageSize {} (mapsOf pageSize vmas)).1 range.1 range.2).pieces.map extent =
      clip range.1 (range.1 + range.2) vmas := by
  have ht : (parsePid pageSize {} (mapsOf pageSize vmas)).1.Holds vmas :=
    parsePid_holds hps VmaTable.Holds.empty vmas (by simpa using hlen)
  have hend : ulong (range.1 + range.2) = range.1 + range.2 :=
    ulong_of_lt (by unfold ulongMax at hrange; omega)
  have hpieces := (walkTaskLoop_spec ht hasc (ulong (range.1 + range.2)) range.1 0 (by omega)).2.2
  rw [walkTask, hend]
  rwa [hend, List.drop_zero] at hpieces

theorem flatMap_pieces (hasc : Ascending vmas) {pieces : List (Nat × Nat)} {index end_ : Nat}
    (hpieces : pieces.map extent = clip index end_ vmas) (map : List (BitVec 64)) :
    (pieces.flatMap fun p => (map.drop p.1).take p.2) =
      ((map.zipIdx.filter fun w => w.2 ∈ points vmas).filter
        fun w => index ≤ w.2 ∧ w.2 < end_).map Prod.fst := by
  have hsorted : map.zipIdx.Pairwise fun a b => a.2 ≤ b.2 := by
    have := List.pairwise_le_range' (s := 0) (n := map.length)
    rw [← List.zipIdx_map_snd 0 map, List.pairwise_map] at this
    exact this
  have hwindow (p : Nat × Nat) : (map.drop p.1).take p.2 = (map.zipIdx.filter
      fun w => (extent p).1 ≤ w.2 ∧ w.2 < (extent p).2).map Prod.fst := by
    rw [extent, ← window_eq_filter, window, List.zipIdx_map_fst]
  simp only [hwindow]
  rw [← List.map_flatMap, ← List.flatMap_map extent (fun iv : Nat × Nat =>
    map.zipIdx.filter fun w => iv.1 ≤ w.2 ∧ w.2 < iv.2), hpieces,
    (hasc.clip index end_).flatMap_filter hsorted, List.filter_filter]
  congr 1
  apply List.filter_congr
  intro w _
  rw [← Bool.decide_and, decide_eq_decide, points_clip, Set.mem_inter_iff, Set.mem_Ico, and_comm]

/-- What `/proc` says about a process and the frames. -/
structure ProcFiles (env : Env) (pid : Nat) (vmas : List (Nat × Nat))
    (map content : List (BitVec 64)) : Prop where
  kpageflags : Serves env.kpageflags content
  pagemap : Serves env.pagemap map
  pageSize_pos : 0 < env.pageSize
  maps : env.maps pid = mapsOf env.pageSize vmas
  few : vmas.length ≤ maxVmas
  ascending : Ascending vmas
  below : ∀ vma ∈ vmas, vma.2 < 2 ^ 60

/-- The VMAs as `parse_pid` stores them. -/
def vmaTable (env : Env) (vmas : List (Nat × Nat)) : VmaTable :=
  (parsePid env.pageSize {} (mapsOf env.pageSize vmas)).1

def rangePicks (opts : Options) (vmas : List (Nat × Nat)) (map content : List (BitVec 64))
    (range : Nat × Nat) : List (Nat × Flags) :=
  entryPicks opts content (((map.zipIdx.filter fun w => w.2 ∈ points vmas).filter
    fun w => range.1 ≤ w.2 ∧ w.2 < range.1 + range.2).map Prod.fst)

variable {pid : Nat}

theorem walkRange_task (hproc : ProcFiles env pid vmas map content) (hpid : opts.optPid ≠ 0)
    {range : Nat × Nat} (hrange : range.1 + range.2 ≤ ulongMax) (h : Walked s opts picked)
    (hready : Ready s) (hvmas : s.vmas = vmaTable env vmas)
    (hfits : Fits opts ((picked ++ rangePicks opts vmas map content range).map Prod.snd)) :
    ∃ s', walkRange env s range = .ok s' ∧ Ready s' ∧ s'.vmas = vmaTable env vmas ∧
      Walked s' opts (picked ++ rangePicks opts vmas map content range) := by
  have hpieces := walkTask_pieces hproc.pageSize_pos hproc.few hproc.ascending hrange
  have hstart : ∀ p ∈ (walkTask (vmaTable env vmas) range.1 range.2).pieces, p.1 < 2 ^ 60 := by
    intro p hp
    have hmem : extent p ∈ clip range.1 (range.1 + range.2) vmas := by
      rw [← hpieces]
      exact List.mem_map_of_mem hp
    obtain ⟨hlt, vma, hvma, htrim⟩ := mem_clip.mp hmem
    calc p.1 < (extent p).2 := hlt
      _ = min vma.2 (range.1 + range.2) := by rw [← htrim, trim]
      _ ≤ vma.2 := min_le_left _ _
      _ < 2 ^ 60 := hproc.below vma hvma
  rw [rangePicks, ← flatMap_pieces hproc.ascending hpieces] at hfits ⊢
  rw [walkRange, if_neg (by rw [h.kept]; exact hpid), hvmas]
  obtain ⟨s', hs', hready', hwalked'⟩ := walkPieces_walked hproc.kpageflags hproc.pagemap
    _ hstart h hready hfits
  have hkept := foldlM_vmas (fun _ _ _ hstep => walkVma_vmas hstep) hs'
  exact ⟨s', hs', hready', hkept.trans hvmas, hwalked'⟩

theorem walkRanges_task (hproc : ProcFiles env pid vmas map content) (hpid : opts.optPid ≠ 0)
    (ranges : List (Nat × Nat)) (hranges : ∀ r ∈ ranges, r.1 + r.2 ≤ ulongMax)
    (h : Walked s opts picked) (hready : Ready s) (hvmas : s.vmas = vmaTable env vmas)
    (hfits : Fits opts
      ((picked ++ ranges.flatMap (rangePicks opts vmas map content)).map Prod.snd)) :
    ∃ s', ranges.foldlM (walkRange env) s = .ok s' ∧ Ready s' ∧
      Walked s' opts (picked ++ ranges.flatMap (rangePicks opts vmas map content)) := by
  induction ranges generalizing s picked with
  | nil => exact ⟨s, rfl, hready, by simpa using h⟩
  | cons r ranges ih =>
    rw [List.flatMap_cons, ← List.append_assoc] at hfits ⊢
    obtain ⟨s₁, hs₁, hready₁, hvmas₁, hwalked₁⟩ := walkRange_task hproc hpid
      (hranges r List.mem_cons_self) h hready hvmas
      (hfits.subset (List.map_subset _ (List.subset_append_left _ _)))
    rw [List.foldlM_cons, hs₁]
    exact ih (fun r' hr' => hranges r' (List.mem_cons_of_mem r hr')) hwalked₁ hready₁ hvmas₁ hfits

def Options.withRange (opts : Options) : Options :=
  if opts.optAddrRanges = [] then { opts with optAddrRanges := [(0, ulongMax)] } else opts

theorem walkAddrRanges_eq (env : Env) (s : State) :
    walkAddrRanges env s =
      s.opts.withRange.optAddrRanges.foldlM (walkRange env) { s with opts := s.opts.withRange } := by
  rw [walkAddrRanges, Options.withRange]
  split
  · rename_i hnone
    rw [addAddrRange, if_neg (by rw [hnone]; decide), hnone]
    rfl
  · rfl

theorem optionsOf_append (opts : Options) (args args' : List Arg) :
    optionsOf opts (args ++ args') = optionsOf (optionsOf opts args) args' :=
  List.foldl_append

theorem optionsOf_withPid (opts : Options) (pid : Nat) (args : List Arg) :
    optionsOf { opts with optPid := pid } args = { optionsOf opts args with optPid := pid } := by
  induction args generalizing opts with
  | nil => rfl
  | cons a args ih =>
    rw [optionsOf_cons, optionsOf_cons, ← ih]
    cases a <;> rfl

theorem applyOpts_task (env : Env) (pid : Number) (hpid : pid.val < 2 ^ 31) {before after : List Arg}
    (hspecs : (specsOf (before ++ after)).length ≤ maxAddrRanges)
    (hfilters : (filtersOf (before ++ after)).length ≤ maxBitFilters) :
    applyOpts env {} (before.map Arg.opt ++ .pid pid.text :: after.map Arg.opt) =
      .ok {
        opts := { optionsOf {} (before ++ after) with optPid := pid.val }
        vmas := (parsePid env.pageSize {} (env.maps pid.val)).1
        warnings := (parsePid env.pageSize {} (env.maps pid.val)).2 } := by
  rw [specsOf, List.filterMap_append, List.length_append, ← specsOf, ← specsOf] at hspecs
  rw [filtersOf, List.filterMap_append, List.length_append, ← filtersOf, ← filtersOf] at hfilters
  have hbefore := applyOpts_args env {} before
    ((Nat.zero_add _).trans_le (by omega)) ((Nat.zero_add _).trans_le (by omega))
  have hnumber := parseNumber_below pid (by omega) (Numeral.Stops.nil 36)
  rw [List.append_nil] at hnumber
  have hpid' : pid.val % 2 ^ 32 = pid.val := Nat.mod_eq_of_lt (by omega)
  have hranges := optionsOf_ranges {} before
  have hfilts := optionsOf_filters {} before
  have hafter := applyOpts_args env
    { opts := { optionsOf {} before with optPid := pid.val }
      vmas := (parsePid env.pageSize {} (env.maps pid.val)).1
      warnings := (parsePid env.pageSize {} (env.maps pid.val)).2 } after
    (by
      rw [hranges, List.nil_append, List.length_map]
      exact hspecs)
    (by
      rw [hfilts, List.nil_append]
      exact hfilters)
  rw [applyOpts] at hbefore hafter ⊢
  rw [List.foldlM_append, hbefore]
  change (List.foldlM (applyOpt env) _ (.pid pid.text :: _)) = _
  rw [List.foldlM_cons, applyOpt, hnumber]
  simp only [hpid']
  rw [optionsOf_withPid, ← optionsOf_append] at hafter
  exact hafter

theorem Walked.started (opts : Options) (vmas : VmaTable) (warnings : List MapsWarning)
    (stdout : List Line) : Walked { opts, vmas, warnings, stdout } opts [] :=
  have h := Walked.initial opts
  ⟨h.kept, h.corruptPfn, h.unpoisonPfn, h.totalPages,
    ⟨h.counted.wellFormed, h.counted.tallies, h.counted.seen, h.counted.zero, h.counted.total⟩⟩

def taskOptions (pid : Nat) (args : List Arg) : Options :=
  { optionsOf {} args with optPid := pid }.withRange

theorem taskOptions_cases (pid : Nat) (args : List Arg) :
    taskOptions pid args = { optionsOf {} args with
      optPid := pid
      optAddrRanges :=
        if specsOf args = [] then [(0, ulongMax)] else (specsOf args).map AddrSpec.stored } := by
  have hranges := optionsOf_ranges {} args
  rw [List.nil_append] at hranges
  rw [taskOptions, Options.withRange]
  by_cases hspecs : specsOf args = []
  · rw [hspecs, List.map_nil] at hranges
    rw [if_pos hspecs, if_pos hranges]
  · rw [if_neg hspecs, if_neg (by rw [hranges]; simpa using hspecs), ← hranges]

theorem taskOptions_picks (pid : Nat) (args : List Arg) (hshort : map.length < 2 ^ 60) :
    (taskOptions pid args).optAddrRanges.flatMap
        (rangePicks (taskOptions pid args) vmas map content) =
      selectedInTask args vmas map content := by
  have hraw : (taskOptions pid args).optRaw = args.any Arg.isRaw := by
    rw [taskOptions_cases, optionsOf_raw]
    rfl
  have hfilters : (taskOptions pid args).optFilters = filtersOf args := by
    rw [taskOptions_cases, optionsOf_filters]
    rfl
  have hranges : (taskOptions pid args).optAddrRanges =
      if specsOf args = [] then [(0, ulongMax)] else (specsOf args).map AddrSpec.stored := by
    rw [taskOptions_cases]
  have hindex (w : BitVec 64 × Nat) (hw : w ∈ map.zipIdx.filter fun w => w.2 ∈ points vmas) :
      w.2 < 2 ^ 60 := by
    have hlt := List.snd_lt_of_mem_zipIdx (List.mem_filter.mp hw).1
    omega
  have hchosen : ((taskOptions pid args).optAddrRanges.flatMap fun r =>
      (map.zipIdx.filter fun w => w.2 ∈ points vmas).filter
        fun w => r.1 ≤ w.2 ∧ w.2 < r.1 + r.2) = chosenEntries args vmas map := by
    rw [hranges, chosenEntries]
    by_cases hspecs : specsOf args = []
    · rw [if_pos hspecs, if_pos hspecs, List.flatMap_singleton, List.filter_eq_self]
      intro w hw
      have hlt := hindex w hw
      exact decide_eq_true ⟨Nat.zero_le _, by rw [ulongMax]; omega⟩
    · rw [if_neg hspecs, if_neg hspecs, List.flatMap_map]
      apply List.flatMap_congr
      intro a ha
      apply List.filter_congr
      intro w hw
      rw [decide_eq_decide]
      exact (a.covers_iff (mem_specsOf ha) (hindex w hw)).symm
  rw [selectedInTask, ← hchosen, ← hraw, ← hfilters]
  have hpicks (ws : List (BitVec 64 × Nat)) :
      (ws.filterMap fun w => frameOf (taskOptions pid args).optRaw content w.1).filter
        (fun f => bitMaskOk (taskOptions pid args).optFilters f.2) =
      entryPicks (taskOptions pid args) content (ws.map Prod.fst) := by
    rw [entryPicks, List.filterMap_map]
    rfl
  rw [hpicks, List.map_flatMap, entryPicks_flatMap]
  rfl

theorem taskOptions_bounds (pid : Nat) (args : List Arg) :
    ∀ r ∈ (taskOptions pid args).optAddrRanges, r.1 + r.2 ≤ ulongMax := by
  rw [taskOptions_cases]
  change ∀ r ∈ ite _ _ _, _
  intro r hr
  split at hr
  · rw [List.mem_singleton.mp hr, Nat.zero_add]
  · obtain ⟨a, ha, rfl⟩ := List.mem_map.mp hr
    have hlt := AddrSpec.stored_lt (mem_specsOf ha)
    simp only [AddrSpec.stored, ulongMax] at hlt ⊢
    omega

/-- The frames poisoned and counted for a process are those of its own pages, in the order of their
addresses in each range. -/
theorem main_task (pid : Number) (hpid : 0 < pid.val ∧ pid.val < 2 ^ 31)
    (hproc : ProcFiles env pid.val vmas map content) (before after : List Arg)
    (hspecs : (specsOf (before ++ after)).length ≤ maxAddrRanges)
    (hfilters : (filtersOf (before ++ after)).length ≤ maxBitFilters)
    (hX : Arg.hwpoison ∈ before ++ after)
    (hlist : (before ++ after).any Arg.isList = false ∨
      ∀ f ∈ selectedInTask (before ++ after) vmas map content, Named f.2)
    (hcard : (distinctNonzero
      ((selectedInTask (before ++ after) vmas map content).map Prod.snd)).card < hashSize) :
    Ends (main env (before.map Arg.opt ++ .pid pid.text :: after.map Arg.opt)) fun s =>
      s.corruptPfn =
        (selectedInTask (before ++ after) vmas map content).map (fun f => pfnText f.1) ∧
      s.totalPages = BitVec.ofNat 64 (selectedInTask (before ++ after) vmas map content).length ∧
      Histogram s ((selectedInTask (before ++ after) vmas map content).map Prod.snd) := by
  set args := before ++ after
  set opts := taskOptions pid.val args with hopts
  have hpicks : opts.optAddrRanges.flatMap (rangePicks opts vmas map content) =
      selectedInTask args vmas map content :=
    taskOptions_picks pid.val args hproc.pagemap.short
  have hfields := taskOptions_cases pid.val args
  rw [← hopts] at hfields
  have hfits : Fits opts ((selectedInTask args vmas map content).map Prod.snd) := by
    refine fits_of_list (hlist.imp_left fun hoff => ?_) hcard
    rw [hfields]
    exact optionsOf_list {} args hoff
  have happly := applyOpts_task env pid hpid.2 hspecs hfilters
  rw [hproc.maps] at happly
  set warnings := (parsePid env.pageSize {} (mapsOf env.pageSize vmas)).2
  set stdout := [] ++ headings { optionsOf {} args with optPid := pid.val }
  let s₀ : State := {
    opts := { optionsOf {} args with optPid := pid.val }
    vmas := vmaTable env vmas
    warnings
    stdout }
  have hinit := Walked.started opts (vmaTable env vmas) warnings stdout
  have hready : Ready { opts, vmas := vmaTable env vmas, warnings, stdout } := Or.inr named_zero
  have hne : opts.optPid ≠ 0 := by
    rw [hfields]
    exact hpid.1.ne'
  obtain ⟨s₁, hs₁, hready₁, hwalked₁⟩ := walkRanges_task hproc hne opts.optAddrRanges
    (taskOptions_bounds pid.val args) hinit hready rfl (by rw [List.nil_append, hpicks]; exact hfits)
  rw [List.nil_append, hpicks] at hwalked₁
  have hpoison : opts.optHwpoison = true := by
    rw [hfields]
    exact optionsOf_hwpoison {} args (Or.inr hX)
  exact main_walked happly ((walkAddrRanges_eq env s₀).trans hs₁) hready₁ hwalked₁ hpoison

def presentEntry (pfn : Nat) : BitVec 64 := pmPresent ||| BitVec.ofNat 64 pfn

/-- A process of three pages, of which the second one is not in memory. -/
def taskEnv : Env where
  kpageflags := flatFile "/proc/kpageflags" [0, 0, bit Kpf.lru]
  pagemap := flatFile "/proc/7/pagemap" [0, 0, presentEntry 2, 2, presentEntry 1]
  maps := fun _ => mapsOf 4096 [(2, 5)]
  pageSize := 4096

theorem taskEnv_files : ProcFiles taskEnv 7 [(2, 5)] [0, 0, presentEntry 2, 2, presentEntry 1]
    [0, 0, bit Kpf.lru] where
  kpageflags := flatFile_serves _ _ (by decide)
  pagemap := flatFile_serves _ _ (by decide)
  pageSize_pos := (by decide : 0 < 4096)
  maps := rfl
  few := (by decide : 1 ≤ maxVmas)
  ascending := ⟨by simp, by simp⟩
  below := by simp

theorem main_task_present :
    Ends (main taskEnv [.hwpoison,
      .pid (digitNumber '7' (by decide) (by decide)).text,
      .addr (AddrSpec.upto (digitNumber '4' (by decide) (by decide))).text]) fun s =>
        s.corruptPfn = [pfnText 2] ∧ s.totalPages = 1 ∧ Histogram s [bit Kpf.lru] := by
  exact main_task (digitNumber '7' (by decide) (by decide)) (by decide) taskEnv_files [.hwpoison]
    [.addr (.upto (digitNumber '4' (by decide) (by decide)))
      (by simp [AddrSpec.Below, digitNumber]; decide)]
    (by decide) (by decide) (by simp) (Or.inl rfl) (by decide)

end MceTest.PageTypes

import MceTest.PageTypes.Selection

/-! The command lines of physical mode, from the options to the frames that are poisoned. -/

namespace MceTest.PageTypes

open MceTest.Library

/-- An option of a documented command line in physical mode. -/
inductive Arg
  | raw | list | listEach | noSummary | hwpoison | unpoison
  | addr (a : AddrSpec) (below : a.Below (2 ^ 60))
  | bits (str : List Char) (f : BitFilter) (parsed : bitsMask str = .ok f)

def Arg.opt : Arg → Opt
  | .raw => .raw
  | .list => .list
  | .listEach => .listEach
  | .noSummary => .noSummary
  | .hwpoison => .hwpoison
  | .unpoison => .unpoison
  | .addr a _ => .addr a.text
  | .bits str _ _ => .bits str

def Arg.addr? : Arg → Option AddrSpec
  | .addr a _ => some a
  | _ => none

def Arg.filter? : Arg → Option BitFilter
  | .bits _ f _ => some f
  | _ => none

def Arg.isRaw : Arg → Bool
  | .raw => true
  | _ => false

def Arg.isList : Arg → Bool
  | .list | .listEach => true
  | _ => false

def specsOf (args : List Arg) : List AddrSpec := args.filterMap Arg.addr?

def filtersOf (args : List Arg) : List BitFilter := args.filterMap Arg.filter?

/-- The frames a command line selects, spec by spec, with their translated words. -/
def selected (args : List Arg) (content : List (BitVec 64)) : List (Nat × Flags) :=
  (specsOf args).flatMap fun a =>
    ((content.zipIdx.filter fun w => a.Covers w.2).map fun w =>
      (w.2, kpageflagsFlags (args.any Arg.isRaw) w.1 0)).filter
        fun f => bitMaskOk (filtersOf args) f.2

/-- The range `add_addr_range` stores for a spec. -/
def AddrSpec.stored (a : AddrSpec) : Nat × Nat :=
  (a.bounds.1, min a.bounds.2 (ulongMax - a.bounds.1))

def Arg.apply (opts : Options) : Arg → Options
  | .raw => { opts with optRaw := true }
  | .list => { opts with optList := .ranges }
  | .listEach => { opts with optList := .each }
  | .noSummary => { opts with optNoSummary := true }
  | .hwpoison => { opts with optHwpoison := true }
  | .unpoison => { opts with optUnpoison := true }
  | .addr a _ => { opts with optAddrRanges := opts.optAddrRanges ++ [a.stored] }
  | .bits _ f _ => { opts with optFilters := opts.optFilters ++ [f] }

def optionsOf (opts : Options) (args : List Arg) : Options := args.foldl Arg.apply opts

theorem optionsOf_cons (opts : Options) (a : Arg) (args : List Arg) :
    optionsOf opts (a :: args) = optionsOf (a.apply opts) args := rfl

theorem optionsOf_ranges (opts : Options) (args : List Arg) :
    (optionsOf opts args).optAddrRanges =
      opts.optAddrRanges ++ (specsOf args).map AddrSpec.stored := by
  induction args generalizing opts with
  | nil => simp [optionsOf, specsOf]
  | cons a args ih =>
    rw [optionsOf_cons, ih]
    cases a <;> simp [Arg.apply, specsOf, List.filterMap_cons, Arg.addr?]

theorem optionsOf_filters (opts : Options) (args : List Arg) :
    (optionsOf opts args).optFilters = opts.optFilters ++ filtersOf args := by
  induction args generalizing opts with
  | nil => simp [optionsOf, filtersOf]
  | cons a args ih =>
    rw [optionsOf_cons, ih]
    cases a <;> simp [Arg.apply, filtersOf, List.filterMap_cons, Arg.filter?]

theorem optionsOf_raw (opts : Options) (args : List Arg) :
    (optionsOf opts args).optRaw = (opts.optRaw || args.any Arg.isRaw) := by
  induction args generalizing opts with
  | nil => simp [optionsOf]
  | cons a args ih =>
    rw [optionsOf_cons, ih]
    cases a <;> simp [Arg.apply, Arg.isRaw]

theorem optionsOf_pid (opts : Options) (args : List Arg) :
    (optionsOf opts args).optPid = opts.optPid := by
  induction args generalizing opts with
  | nil => rfl
  | cons a args ih =>
    rw [optionsOf_cons, ih]
    cases a <;> rfl

theorem optionsOf_list (opts : Options) (args : List Arg) (h : args.any Arg.isList = false) :
    (optionsOf opts args).optList = opts.optList := by
  induction args generalizing opts with
  | nil => rfl
  | cons a args ih =>
    rw [List.any_cons, Bool.or_eq_false_iff] at h
    rw [optionsOf_cons, ih _ h.2]
    cases a <;> first | rfl | cases h.1

theorem optionsOf_hwpoison (opts : Options) (args : List Arg)
    (h : opts.optHwpoison = true ∨ Arg.hwpoison ∈ args) :
    (optionsOf opts args).optHwpoison = true := by
  induction args generalizing opts with
  | nil => simpa [optionsOf] using h
  | cons a args ih =>
    apply ih
    rcases h with h | h
    · left
      cases a <;> first | exact h | rfl
    · rcases List.mem_cons.mp h with rfl | h
      · exact Or.inl rfl
      · exact Or.inr h

theorem applyOpt_arg (env : Env) (s : State) (a : Arg)
    (hranges : s.opts.optAddrRanges.length + (specsOf [a]).length ≤ maxAddrRanges)
    (hfilters : s.opts.optFilters.length + (filtersOf [a]).length ≤ maxBitFilters) :
    applyOpt env s a.opt = .ok { s with opts := a.apply s.opts } := by
  cases a with
  | addr a below =>
    have hroom : ¬ s.opts.optAddrRanges.length ≥ maxAddrRanges := by
      simp [specsOf, Arg.addr?] at hranges
      omega
    rw [Arg.opt, applyOpt, parseAddrRange_spec _ _ below, addAddrRange, if_neg hroom]
    rfl
  | bits str f parsed =>
    have hroom : ¬ s.opts.optFilters.length ≥ maxBitFilters := by
      simp [filtersOf, Arg.filter?] at hfilters
      omega
    rw [Arg.opt, applyOpt, parseBitsMask, parsed]
    change liftOpts s (addBitsFilter s.opts f) = _
    rw [addBitsFilter, if_neg hroom]
    rfl
  | _ => rfl

theorem applyOpts_args (env : Env) (s : State) (args : List Arg)
    (hranges : s.opts.optAddrRanges.length + (specsOf args).length ≤ maxAddrRanges)
    (hfilters : s.opts.optFilters.length + (filtersOf args).length ≤ maxBitFilters) :
    applyOpts env s (args.map Arg.opt) = .ok { s with opts := optionsOf s.opts args } := by
  induction args generalizing s with
  | nil => rfl
  | cons a args ih =>
    rw [← List.singleton_append, specsOf, List.filterMap_append, List.length_append,
      ← specsOf, ← specsOf] at hranges
    rw [← List.singleton_append, filtersOf, List.filterMap_append, List.length_append,
      ← filtersOf, ← filtersOf] at hfilters
    have hone := applyOpt_arg env s a (by omega) (by omega)
    have hr := optionsOf_ranges s.opts [a]
    have hf := optionsOf_filters s.opts [a]
    rw [applyOpts, List.map_cons, List.foldlM_cons, hone]
    exact ih { s with opts := a.apply s.opts }
      (by
        change (optionsOf s.opts [a]).optAddrRanges.length + _ ≤ _
        rw [hr, List.length_append, List.length_map]
        omega)
      (by
        change (optionsOf s.opts [a]).optFilters.length + _ ≤ _
        rw [hf, List.length_append]
        omega)

theorem Walked.output {s : State} {opts : Options} {picked : List (Nat × Flags)}
    (h : Walked s opts picked) (pending : Pending) (stdout : List Line) :
    Walked { s with pending, stdout } opts picked :=
  ⟨h.kept, h.corruptPfn, h.unpoisonPfn, h.totalPages,
    ⟨h.counted.wellFormed, h.counted.tallies, h.counted.seen, h.counted.zero, h.counted.total⟩⟩

/-- The run is over, or stopped at a bit without a name, in a state of this kind. -/
def Ends (r : Run) (P : State → Prop) : Prop :=
  ∃ s, P s ∧ (r = .ok s ∨ ∃ b, r = .error (.unknownFlagBit b, s))

theorem showSlot_ends (env : Env) {P : State → Prop}
    (hP : ∀ s stdout, P s → P { s with stdout }) (i : Nat) {s : State} (h : P s) :
    Ends (showSlot env s i) P := by
  unfold showSlot
  by_cases hnr : s.nrPages i = 0
  · rw [if_pos hnr]
    exact ⟨s, h, Or.inl rfl⟩
  · rw [if_neg hnr]
    cases hname : pageFlagName (s.pageFlags i) with
    | error e =>
      obtain ⟨b, rfl⟩ := pageFlagName_error hname
      exact ⟨s, h, Or.inr ⟨b, rfl⟩⟩
    | ok name => exact ⟨_, hP _ _ h, Or.inl rfl⟩

theorem showSlots_ends (env : Env) {P : State → Prop}
    (hP : ∀ s stdout, P s → P { s with stdout }) (slots : List Nat) {s : State} (h : P s) :
    Ends (slots.foldlM (showSlot env) s) P := by
  induction slots generalizing s with
  | nil => exact ⟨s, h, Or.inl rfl⟩
  | cons i slots ih =>
    rw [List.foldlM_cons]
    obtain ⟨s', hs', hend | ⟨b, hend⟩⟩ := showSlot_ends env hP i h
    · rw [hend]
      exact ih hs'
    · rw [hend]
      exact ⟨s', hs', Or.inr ⟨b, rfl⟩⟩

theorem showSummary_ends (env : Env) {P : State → Prop}
    (hP : ∀ s stdout, P s → P { s with stdout }) {s : State} (h : P s) :
    Ends (showSummary env s) P := by
  unfold showSummary
  obtain ⟨s', hs', hend | ⟨b, hend⟩⟩ := showSlots_ends env hP (List.range hashSize)
    (hP s (s.stdout ++ [summaryTitle]) h)
  · rw [hend]
    exact ⟨_, hP _ _ hs', Or.inl rfl⟩
  · rw [hend]
    exact ⟨s', hs', Or.inr ⟨b, rfl⟩⟩

theorem finish_ends (env : Env) {P : State → Prop}
    (hP : ∀ s stdout, P s → P { s with stdout }) {s : State} (h : P s) :
    Ends (finish env s) P := by
  unfold finish
  split
  · exact ⟨s, h, Or.inl rfl⟩
  · split
    · exact showSummary_ends env hP (hP s _ h)
    · exact showSummary_ends env hP h

theorem flushPages_ready {s : State} (h : Ready s) :
    ∃ pending stdout, flushPages s = .ok { s with pending, stdout } := by
  unfold flushPages
  split
  · rename_i hmode
    have hpend : Named s.pending.flags0 := h.resolve_left (by simp [hmode])
    obtain ⟨pending, lines, hflush, -⟩ := showPageRange_ok hpend 0 0 0 named_zero
    rw [flushPageRange, hflush]
    exact ⟨pending, _, rfl⟩
  · exact ⟨s.pending, s.stdout, rfl⟩

theorem picks_stored (opts : Options) {content : List (BitVec 64)}
    (hshort : content.length < 2 ^ 60) {a : AddrSpec} (ha : a.Below (2 ^ 60)) :
    picks opts (window content a.stored.1 a.stored.2) =
      ((content.zipIdx.filter fun w => a.Covers w.2).map fun w =>
        (w.2, kpageflagsFlags opts.optRaw w.1 0)).filter
          fun f => bitMaskOk opts.optFilters f.2 := by
  rw [picks, window_eq_filter]
  congr 2
  apply List.filter_congr
  intro w hw
  have hlt := List.snd_lt_of_mem_zipIdx hw
  rw [decide_eq_decide]
  exact (a.covers_iff ha (by omega)).symm

theorem mem_specsOf {args : List Arg} {a : AddrSpec} (h : a ∈ specsOf args) :
    a.Below (2 ^ 60) := by
  obtain ⟨arg, -, harg⟩ := List.mem_filterMap.mp h
  cases arg with
  | addr a' below =>
    cases harg
    exact below
  | _ => cases harg

theorem AddrSpec.stored_lt {a : AddrSpec} (ha : a.Below (2 ^ 60)) : a.stored.1 < 2 ^ 60 := by
  cases a <;> simp only [AddrSpec.stored, AddrSpec.bounds, AddrSpec.Below] at * <;> omega

theorem selected_eq (args : List Arg) {content : List (BitVec 64)}
    (hshort : content.length < 2 ^ 60) :
    ((optionsOf {} args).optAddrRanges.flatMap fun r =>
      picks (optionsOf {} args) (window content r.1 r.2)) = selected args content := by
  rw [optionsOf_ranges, List.nil_append, List.flatMap_map, selected]
  apply List.flatMap_congr
  intro a ha
  rw [picks_stored _ hshort (mem_specsOf ha), optionsOf_raw, optionsOf_filters]
  rfl

theorem fits_of_list {opts : Options} {picked : List (Nat × Flags)}
    (hlist : opts.optList = .off ∨ ∀ f ∈ picked, Named f.2)
    (hcard : (distinctNonzero (picked.map Prod.snd)).card < hashSize) :
    Fits opts (picked.map Prod.snd) := by
  refine ⟨hlist.imp_right fun hnamed f hf => ?_, by omega⟩
  obtain ⟨p, hp, rfl⟩ := List.mem_map.mp hf
  exact hnamed p hp

theorem main_walked {env : Env} {argv : List Opt} {s₀ s₁ : State} {opts : Options}
    {picked : List (Nat × Flags)} (happly : applyOpts env {} argv = .ok s₀)
    (hwalk : walkAddrRanges env { s₀ with stdout := s₀.stdout ++ headings s₀.opts } = .ok s₁)
    (hready : Ready s₁) (hwalked : Walked s₁ opts picked) (hpoison : opts.optHwpoison = true) :
    Ends (main env argv) fun s =>
      s.corruptPfn = picked.map (fun f => pfnText f.1) ∧
      s.totalPages = BitVec.ofNat 64 picked.length ∧
      Histogram s (picked.map Prod.snd) := by
  obtain ⟨pending, stdout, hflush⟩ := flushPages_ready hready
  have hmain : main env argv = finish env { s₁ with pending, stdout } := by
    rw [main, happly]
    change (walkAddrRanges env _).bind _ = _
    rw [hwalk]
    change (flushPages s₁).bind _ = _
    rw [hflush]
    rfl
  rw [hmain]
  apply finish_ends
  · rintro s stdout ⟨hcorrupt, htotal, hhist⟩
    exact ⟨hcorrupt, htotal, hhist.1, hhist.2, hhist.3, hhist.4, hhist.5, hhist.6⟩
  · have hkept := hwalked.output pending stdout
    refine ⟨?_, hkept.totalPages, hkept.counted.histogram⟩
    rw [hkept.corruptPfn, if_pos hpoison]

/-- The frames poisoned and counted in physical mode are the selected ones. -/
theorem main_selection {env : Env} {content : List (BitVec 64)}
    (hserve : Serves env.kpageflags content) (args : List Arg)
    (hsome : specsOf args ≠ []) (hspecs : (specsOf args).length ≤ maxAddrRanges)
    (hfilters : (filtersOf args).length ≤ maxBitFilters) (hX : Arg.hwpoison ∈ args)
    (hlist : args.any Arg.isList = false ∨ ∀ f ∈ selected args content, Named f.2)
    (hcard : (distinctNonzero ((selected args content).map Prod.snd)).card < hashSize) :
    Ends (main env (args.map Arg.opt)) fun s =>
      s.corruptPfn = (selected args content).map (fun f => pfnText f.1) ∧
      s.totalPages = BitVec.ofNat 64 (selected args content).length ∧
      Histogram s ((selected args content).map Prod.snd) := by
  set opts := optionsOf {} args with hopts
  have hsel := selected_eq args hserve.short
  have hfits : Fits opts ((selected args content).map Prod.snd) :=
    fits_of_list (hlist.imp_left (optionsOf_list {} args)) hcard
  have happly : applyOpts env {} (args.map Arg.opt) = .ok { opts } :=
    applyOpts_args env {} args (by simpa using hspecs) (by simpa using hfilters)
  have hinit : Walked { opts, stdout := [] ++ headings opts } opts [] :=
    (Walked.initial opts).output {} ([] ++ headings opts)
  have hready : Ready { opts, stdout := [] ++ headings opts } := Or.inr named_zero
  have hranges : ∀ r ∈ opts.optAddrRanges, r.1 < 2 ^ 60 := by
    intro r hr
    rw [hopts, optionsOf_ranges, List.nil_append] at hr
    obtain ⟨a, ha, rfl⟩ := List.mem_map.mp hr
    exact AddrSpec.stored_lt (mem_specsOf ha)
  have hnonempty : opts.optAddrRanges ≠ [] := by
    rw [hopts, optionsOf_ranges, List.nil_append]
    simpa using hsome
  obtain ⟨s₁, hs₁, hready₁, hwalked₁⟩ := walkRanges_walked hserve (optionsOf_pid {} args)
    opts.optAddrRanges hranges hinit hready (by rw [List.nil_append, hsel]; exact hfits)
  rw [List.nil_append, hsel] at hwalked₁
  have hwalk : walkAddrRanges env { opts, stdout := [] ++ headings opts } = .ok s₁ := by
    rw [walkAddrRanges, if_neg hnonempty]
    exact hs₁
  exact main_walked happly hwalk hready₁ hwalked₁ (optionsOf_hwpoison {} args (Or.inr hX))

def flatFile (name : String) (content : List (BitVec 64)) : WordFile where
  name := name
  pread := fun _ index count => .bytes ((content.drop index).take count) 0
  bounded := by
    intro call index count words rest h
    cases h
    exact (List.length_take_le _ _)

theorem flatFile_serves (name : String) (content : List (BitVec 64))
    (h : content.length < 2 ^ 60) : Serves (flatFile name content) content where
  short := h
  read := fun _ _ count _ hcount => ⟨count, le_rfl, rfl, fun _ => hcount⟩

def flatEnv (content : List (BitVec 64)) : Env where
  kpageflags := flatFile "/proc/kpageflags" content
  pagemap := flatFile "/proc/pid/pagemap" []
  maps := fun _ => []
  pageSize := 4096

def digitNumber (d : Char) (h₀ : d ≠ '0') (h : Numeral.Digits 10 [d]) : Number where
  text := [d]
  val := Numeral.value 10 [d]
  number := .decimal d [] h₀ h

theorem main_selection_from_one :
    Ends (main (flatEnv [0, bit Kpf.lru, 0])
      [.hwpoison, .addr (AddrSpec.from (digitNumber '1' (by decide) (by decide))).text]) fun s =>
        s.corruptPfn = [pfnText 1, pfnText 2] ∧ s.totalPages = 2 ∧
          Histogram s [bit Kpf.lru, 0] := by
  have hserve : Serves (flatEnv [0, bit Kpf.lru, 0]).kpageflags [0, bit Kpf.lru, 0] :=
    flatFile_serves _ _ (by decide)
  exact main_selection hserve
    [.hwpoison, .addr (.from (digitNumber '1' (by decide) (by decide)))
      (by simp [AddrSpec.Below, digitNumber]; decide)]
    (by simp [specsOf, Arg.addr?]) (by decide) (by decide) (by simp) (Or.inl rfl) (by decide)

/-- One spec more than the table holds ends the run before anything is written. -/
theorem main_addr_full (env : Env) {args : List Arg}
    (hfull : (specsOf args).length = maxAddrRanges)
    (hfilters : (filtersOf args).length ≤ maxBitFilters) {a : AddrSpec}
    (below : a.Below (2 ^ 60)) (rest : List Opt) :
    main env (args.map Arg.opt ++ .addr a.text :: rest) =
      .error (.tooManyAddrRanges, { opts := optionsOf {} args }) := by
  have happly : applyOpts env {} (args.map Arg.opt) = .ok { opts := optionsOf {} args } :=
    applyOpts_args env {} args (by simpa using hfull.le) (by simpa using hfilters)
  have hlast : applyOpt env { opts := optionsOf {} args } (.addr a.text) =
      .error (.tooManyAddrRanges, { opts := optionsOf {} args }) := by
    rw [applyOpt, parseAddrRange_spec _ _ below, addAddrRange, if_pos]
    · rfl
    · change (optionsOf {} args).optAddrRanges.length ≥ _
      rw [optionsOf_ranges, List.nil_append, List.length_map, hfull]
  have hall : applyOpts env {} (args.map Arg.opt ++ .addr a.text :: rest) =
      .error (.tooManyAddrRanges, { opts := optionsOf {} args }) := by
    rw [applyOpts, List.foldlM_append]
    change (applyOpts env {} (args.map Arg.opt)).bind _ = _
    rw [happly]
    change (_ :: rest).foldlM (applyOpt env) _ = _
    rw [List.foldlM_cons, hlast]
    rfl
  rw [main, hall]
  rfl

/-- 1025 specs for the one frame of a machine: the frame is selected, and not poisoned. -/
theorem main_selection_too_many_specs :
    let a : AddrSpec := .one ⟨['0'], 0, .octal [] fun _ h => absurd h List.not_mem_nil⟩
    let arg : Arg := .addr a (Nat.pow_pos Nat.zero_lt_two)
    (selected (.hwpoison :: List.replicate 1025 arg) [0]).length = 1025 ∧
    ∃ s, main (flatEnv [0]) ((Arg.hwpoison :: List.replicate 1025 arg).map Arg.opt) =
        .error (.tooManyAddrRanges, s) ∧ s.corruptPfn = [] := by
  intro a arg
  have hspecs (n : Nat) : specsOf (.hwpoison :: List.replicate n arg) = List.replicate n a := by
    rw [specsOf, List.filterMap_cons_none rfl,
      List.filterMap_replicate_of_some (rfl : Arg.addr? arg = some a)]
  have hfilters (n : Nat) : filtersOf (.hwpoison :: List.replicate n arg) = [] := by
    rw [filtersOf, List.filterMap_cons_none rfl,
      List.filterMap_replicate_of_none (rfl : Arg.filter? arg = none)]
  constructor
  · rw [selected, hspecs, hfilters, List.length_flatMap, List.map_replicate, List.sum_replicate]
    rfl
  · have hargs : (Arg.hwpoison :: List.replicate 1025 arg).map Arg.opt =
        (Arg.hwpoison :: List.replicate 1024 arg).map Arg.opt ++ [.addr a.text] := by
      rw [List.replicate_succ', ← List.cons_append, List.map_append]
      rfl
    refine ⟨{ opts := optionsOf {} (.hwpoison :: List.replicate 1024 arg) }, ?_, rfl⟩
    rw [hargs]
    exact main_addr_full _ (by rw [hspecs, List.length_replicate]; rfl)
      (by rw [hfilters]; exact Nat.zero_le _) (by simp [a, AddrSpec.Below]) []

end MceTest.PageTypes

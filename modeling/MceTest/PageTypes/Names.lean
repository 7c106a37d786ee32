import MceTest.Library.Mask
import MceTest.PageTypes.Physical

/-! The flags of the kernel header against the name table: which words a list or a
summary can print, and what it prints for them. -/

namespace MceTest.PageTypes

open MceTest.Library MceTest.Library.Mask

/-- The bits of `kernel-page-flags.h`, and bits 32 to 40. -/
def definedBits : Flags := BitVec.ofNat 64 (2 ^ 26 - 1) ||| 0x1ff#64 <<< 32

def namedBits : Flags := pageFlagNames.foldr (fun e m => bit e.1 ||| m) 0

/-- The `kpageflags` words the header and the tool know. -/
def Defined (flags : Flags) : Prop := Within flags definedBits

instance (flags : Flags) : Decidable (Defined flags) := inferInstanceAs (Decidable (Within _ _))

theorem namedBits_getLsbD :
    ∀ i < 64, namedBits.getLsbD i = (flagName? i).isSome := by decide +kernel

theorem named_iff {flags : Flags} : Named flags ↔ Within flags namedBits := by
  rw [within_iff]
  constructor
  · intro h i hi hset
    rw [namedBits_getLsbD i hi]
    exact h i hi hset
  · intro h i hi hset
    rw [← namedBits_getLsbD i hi]
    exact h i hi hset

/-- The pairs of bits that `expand_overloaded_flags` exchanges. -/
def overloads : List Flags :=
  [bit Kpf.private ||| bit Kpf.slobFree, bit Kpf.active ||| bit Kpf.slubFrozen,
   bit Kpf.error ||| bit Kpf.slubDebug, bit Kpf.reclaim ||| bit Kpf.readahead]

def entryBits : List Flags := [bit Kpf.softdirty, bit Kpf.file, bit Kpf.mmapExclusive]

theorem expandOverloadedFlags_induction {P : Flags → Prop}
    (xor : ∀ f, ∀ c ∈ overloads, P f → P (f ^^^ c)) (or : ∀ f, ∀ c ∈ entryBits, P f → P (f ||| c))
    {flags : Flags} (h : P flags) (pme : BitVec 64) : P (expandOverloadedFlags flags pme) := by
  have ite {c : Prop} [Decidable c] {f g : Flags} (hf : P f) (hg : P f → P g) :
      P (if c then g else f) := by
    split
    · exact hg hf
    · exact hf
  unfold expandOverloadedFlags
  refine ite (ite (ite (ite ?_ (xor _ _ (by simp [overloads]))) (or _ _ (by simp [entryBits])))
    (or _ _ (by simp [entryBits]))) (or _ _ (by simp [entryBits]))
  refine ite h fun h => ?_
  exact ite (ite (ite h (xor _ _ (by simp [overloads]))) (xor _ _ (by simp [overloads])))
    (xor _ _ (by simp [overloads]))

theorem wellKnownFlags_induction {P : Flags → Prop}
    (and : ∀ f, ∀ c ∈ [~~~kpfHackersBits, ~~~bitsCompound], P f → P (f &&& c))
    {flags : Flags} (h : P flags) : P (wellKnownFlags flags) := by
  unfold wellKnownFlags
  have hshown := and _ (~~~kpfHackersBits) (by simp) h
  dsimp only
  split
  · exact and _ (~~~bitsCompound) (by simp) hshown
  · exact hshown

theorem kpageflagsFlags_within (optRaw : Bool) {flags : Flags} (h : Defined flags)
    (pme : BitVec 64) :
    Within (kpageflagsFlags optRaw flags pme) (namedBits ||| bit Kpf.idle) := by
  have hflags : Within flags (namedBits ||| bit Kpf.idle) := h.trans (by decide +kernel)
  have hxor : overloads.Forall fun c => Within c (namedBits ||| bit Kpf.idle) := by
    decide +kernel
  have hor : entryBits.Forall fun c => Within c (namedBits ||| bit Kpf.idle) := by
    decide +kernel
  rw [List.forall_iff_forall_mem] at hxor hor
  unfold kpageflagsFlags
  split
  · exact expandOverloadedFlags_induction (P := (Within · _))
      (fun f c hc hf => hf.xor (hxor c hc)) (fun f c hc hf => hf.or (hor c hc)) hflags pme
  · exact wellKnownFlags_induction (P := (Within · _)) (fun f c _ hf => hf.and c) hflags

theorem kpageflagsFlags_idle (optRaw : Bool) (flags : Flags) (pme : BitVec 64) :
    (kpageflagsFlags optRaw flags pme).getLsbD Kpf.idle = flags.getLsbD Kpf.idle := by
  have hxor : overloads.Forall fun c => c.getLsbD Kpf.idle = false := by decide +kernel
  have hor : entryBits.Forall fun c => c.getLsbD Kpf.idle = false := by decide +kernel
  have hand : [~~~kpfHackersBits, ~~~bitsCompound].Forall fun c =>
      c.getLsbD Kpf.idle = true := by decide +kernel
  rw [List.forall_iff_forall_mem] at hxor hor hand
  unfold kpageflagsFlags
  split
  · refine expandOverloadedFlags_induction
      (P := fun f => f.getLsbD Kpf.idle = flags.getLsbD Kpf.idle) ?_ ?_ rfl pme
    · intro f c hc hf
      rw [BitVec.getLsbD_xor, hf, hxor c hc, Bool.xor_false]
    · intro f c hc hf
      rw [BitVec.getLsbD_or, hf, hor c hc, Bool.or_false]
  · refine wellKnownFlags_induction
      (P := fun f => f.getLsbD Kpf.idle = flags.getLsbD Kpf.idle) ?_ rfl
    intro f c hc hf
    rw [BitVec.getLsbD_and, hf, hand c hc, Bool.and_true]

theorem named_kpageflagsFlags (optRaw : Bool) {flags : Flags} (h : Defined flags)
    (pme : BitVec 64) :
    Named (kpageflagsFlags optRaw flags pme) ↔ flags.getLsbD Kpf.idle = false := by
  rw [← kpageflagsFlags_idle optRaw flags pme]
  constructor
  · intro hnamed
    by_contra hset
    have := hnamed Kpf.idle (by decide) (by simpa using hset)
    revert this
    decide +kernel
  · intro hidle
    have hwithin := within_iff.mp (kpageflagsFlags_within optRaw h pme)
    rw [named_iff, within_iff]
    intro i hi hset
    have hor := hwithin i hi hset
    rw [BitVec.getLsbD_or, Bool.or_eq_true] at hor
    refine hor.resolve_right fun hbit => ?_
    have hbits : ∀ i < 64, (bit Kpf.idle).getLsbD i = true → i = Kpf.idle := by decide +kernel
    obtain rfl := hbits i hi hbit
    rw [hidle] at hset
    cases hset

theorem pageFlagNameLoop_cases {flags : Flags} {i n : Nat} {text : List Char}
    (h : pageFlagNameLoop flags i (n + 1) = .ok text) :
    (flagName? i = none ∧ flags.getLsbD i = false ∧
      pageFlagNameLoop flags (i + 1) n = .ok text) ∨
    ∃ name rest, flagName? i = some name ∧ pageFlagNameLoop flags (i + 1) n = .ok rest ∧
      text = (if flags.getLsbD i then name.headD '_' else '_') :: rest := by
  rw [pageFlagNameLoop] at h
  cases hname : flagName? i with
  | none =>
    simp only [hname] at h
    split at h
    · cases h
    · rename_i hclear
      exact Or.inl ⟨rfl, Bool.eq_false_of_not_eq_true hclear, h⟩
  | some name =>
    simp only [hname] at h
    cases hrest : pageFlagNameLoop flags (i + 1) n with
    | error e => rw [hrest] at h; cases h
    | ok rest =>
      rw [hrest] at h
      cases h
      exact Or.inr ⟨name, rest, rfl, rfl, rfl⟩

theorem pageFlagNameLoop_named {flags : Flags} {i n : Nat} {text : List Char}
    (h : pageFlagNameLoop flags i n = .ok text) :
    ∀ j, i ≤ j → j < i + n → flags.getLsbD j = true → (flagName? j).isSome := by
  induction n generalizing i text with
  | zero => intro j hij hj; omega
  | succ n ih =>
    intro j hij hj hset
    rcases pageFlagNameLoop_cases h with ⟨-, hclear, hrest⟩ | ⟨name, rest, hname, hrest, -⟩
    · have hne : j ≠ i := by
        rintro rfl
        rw [hclear] at hset
        cases hset
      exact ih hrest j (by omega) (by omega) hset
    · by_cases hji : j = i
      · rw [hji, hname]
        rfl
      · exact ih hrest j (by omega) (by omega) hset

theorem pageFlagName_ok_iff {flags : Flags} :
    (∃ text, pageFlagName flags = .ok text) ↔ Named flags := by
  constructor
  · rintro ⟨text, h⟩ i hi hset
    exact pageFlagNameLoop_named h i (Nat.zero_le i) (by omega) hset
  · exact pageFlagName_ok

theorem pageFlagNameLoop_length {flags : Flags} {i n : Nat} {text : List Char}
    (h : pageFlagNameLoop flags i n = .ok text) :
    text.length = (List.range' i n).countP fun j => (flagName? j).isSome := by
  induction n generalizing i text with
  | zero =>
    cases h
    rfl
  | succ n ih =>
    rw [List.range'_succ, List.countP_cons]
    rcases pageFlagNameLoop_cases h with ⟨hname, -, hrest⟩ | ⟨name, rest, hname, hrest, rfl⟩
    · rw [hname, ih hrest]
      rfl
    · rw [hname, List.length_cons, ih hrest]
      rfl

theorem pageFlagName_length {flags : Flags} {text : List Char}
    (h : pageFlagName flags = .ok text) : text.length = 40 := by
  rw [pageFlagNameLoop_length h]
  decide +kernel

theorem mem_of_flagName? {i : Nat} {name : List Char} (h : flagName? i = some name) :
    (i, name) ∈ pageFlagNames := by
  obtain ⟨l₁, l₂, hsplit, -⟩ := List.lookup_eq_some_iff.mp h
  simp [hsplit]

theorem flagName?_head {i : Nat} {name : List Char} (h : flagName? i = some name) :
    name.headD '_' ≠ '_' := by
  have htable : pageFlagNames.Forall fun e => e.2.headD '_' ≠ '_' := by decide +kernel
  rw [List.forall_iff_forall_mem] at htable
  exact htable (i, name) (mem_of_flagName? h)

theorem ite_eq_iff_of_ne {a b : Char} (h : a ≠ b) (p q : Bool) :
    ((if p then a else b) = if q then a else b) ↔ p = q := by
  cases p <;> cases q <;> simp [h, h.symm]

theorem pageFlagNameLoop_injective {f g : Flags} {i n : Nat} {text : List Char}
    (hf : pageFlagNameLoop f i n = .ok text) (hg : pageFlagNameLoop g i n = .ok text) :
    ∀ j, i ≤ j → j < i + n → f.getLsbD j = g.getLsbD j := by
  induction n generalizing i text with
  | zero => intro j hij hj; omega
  | succ n ih =>
    intro j hij hj
    rcases pageFlagNameLoop_cases hf with ⟨hname, hf₀, hf⟩ | ⟨name, rest, hname, hf, htext⟩
    · rcases pageFlagNameLoop_cases hg with ⟨-, hg₀, hg⟩ | ⟨name, rest, hname', -⟩
      · by_cases hji : j = i
        · rw [hji, hf₀, hg₀]
        · exact ih hf hg j (by omega) (by omega)
      · rw [hname] at hname'
        cases hname'
    · rcases pageFlagNameLoop_cases hg with ⟨hname', -⟩ | ⟨name', rest', hname', hg, htext'⟩
      · rw [hname] at hname'
        cases hname'
      · rw [hname] at hname'
        cases hname'
        rw [htext] at htext'
        obtain ⟨hhead, rfl⟩ := List.cons.inj htext'
        by_cases hji : j = i
        · have hne := flagName?_head hname
          rw [hji]
          exact (ite_eq_iff_of_ne hne _ _).mp hhead
        · exact ih hf hg j (by omega) (by omega)

theorem pageFlagName_injective {f g : Flags} {text : List Char}
    (hf : pageFlagName f = .ok text) (hg : pageFlagName g = .ok text) : f = g := by
  apply BitVec.eq_of_getLsbD_eq
  intro i hi
  exact pageFlagNameLoop_injective hf hg i (Nat.zero_le i) (by simpa [pageFlagNamesSize] using hi)

theorem addPage_named {s : State} {p : PageArgs} (h : Ready s)
    (hnamed : ∀ f ∈ accepted s.opts [p], Named f) :
    (∃ s', addPage s p = .ok s' ∧ Ready s') ∨ ∃ s', addPage s p = .error (.hashTableFull, s') := by
  by_cases hroom : ∀ f ∈ accepted s.opts [p],
      Probing.locate (tableOf s.pageFlags) f (probe f) ≠ none
  · exact Or.inl (addPage_ready h (Or.inr hnamed) hroom)
  · right
    push Not at hroom
    obtain ⟨f, hf, hnone⟩ := hroom
    rw [accepted_singleton] at hf
    split at hf
    · rename_i hok
      obtain rfl := List.mem_singleton.mp hf
      exact (addPage_full hok hnone).2 h (Or.inr hnamed)
    · cases hf

theorem addPages_named {s : State} {ps : List PageArgs} {words : List Flags}
    (h : Counted s words) (hready : Ready s) (hnamed : ∀ f ∈ accepted s.opts ps, Named f) :
    (∃ s', addPages s ps = .ok s' ∧ Ready s') ∨
      ∃ s', addPages s ps = .error (.hashTableFull, s') := by
  induction ps using List.reverseRecOn with
  | nil => exact Or.inl ⟨s, rfl, hready⟩
  | append_singleton ps p ih =>
    rw [accepted_append] at hnamed
    rw [addPages_concat]
    rcases ih fun f hf => hnamed f (List.mem_append_left _ hf) with
      ⟨s₁, hps, hready₁⟩ | ⟨s₁, hps⟩
    · obtain ⟨-, hopts⟩ := h.addPages hps
      rw [hps]
      apply addPage_named hready₁
      rw [hopts]
      exact fun f hf => hnamed f (List.mem_append_right _ hf)
    · rw [hps]
      exact Or.inr ⟨s₁, rfl⟩

theorem Counted.named {s : State} {words : List Flags} (h : Counted s words)
    (hnamed : ∀ f ∈ words, Named f) (k : Nat) : Named (s.pageFlags k) := by
  by_cases hzero : s.pageFlags k = 0
  · rw [hzero]
    exact named_zero
  · have hk : k ≠ 0 := by
      rintro rfl
      exact hzero h.zero
    exact hnamed _ (h.seen k _ ((tableOf_eq_some hk).mpr ⟨rfl, hzero⟩) hzero)

theorem showSlot_named (env : Env) {s : State} (h : ∀ k, Named (s.pageFlags k)) (i : Nat) :
    ∃ stdout, showSlot env s i = .ok { s with stdout } := by
  unfold showSlot
  split
  · exact ⟨s.stdout, rfl⟩
  · obtain ⟨name, hname⟩ := pageFlagName_ok (h i)
    simp only [hname]
    exact ⟨_, rfl⟩

theorem showSlots_named (env : Env) (slots : List Nat) {s : State}
    (h : ∀ k, Named (s.pageFlags k)) :
    ∃ stdout, slots.foldlM (showSlot env) s = .ok { s with stdout } := by
  induction slots generalizing s with
  | nil => exact ⟨s.stdout, rfl⟩
  | cons i slots ih =>
    obtain ⟨stdout, hslot⟩ := showSlot_named env h i
    rw [List.foldlM_cons, hslot]
    exact ih (s := { s with stdout }) h

theorem finish_named (env : Env) {s : State} (h : ∀ k, Named (s.pageFlags k)) :
    ∃ stdout, finish env s = .ok { s with stdout } := by
  have hsummary (out : List Line) :
      ∃ stdout, showSummary env { s with stdout := out } = .ok { s with stdout } := by
    obtain ⟨stdout, hslots⟩ := showSlots_named env (List.range hashSize)
      (s := { s with stdout := out ++ [summaryTitle] }) h
    unfold showSummary
    rw [hslots]
    exact ⟨_, rfl⟩
  unfold finish
  split
  · exact ⟨s.stdout, rfl⟩
  · split
    · exact hsummary _
    · exact hsummary s.stdout

/-- What `main` does with the pages of a walk: list and count each of them, flush the
list, print the summary. -/
def printPages (env : Env) (opts : Options) (ps : List PageArgs) : Run := do
  let s ← addPages { opts } ps
  let s ← flushPages s
  finish env s

theorem printPages_named (env : Env) {opts : Options} {ps : List PageArgs}
    (hnamed : ∀ f ∈ accepted opts ps, Named f) :
    (∃ s, printPages env opts ps = .ok s) ∨
      ∃ s, printPages env opts ps = .error (.hashTableFull, s) := by
  have h₀ := Counted.initial opts
  unfold printPages
  rcases addPages_named h₀ (Or.inr named_zero) hnamed with ⟨s, hps, hready⟩ | ⟨s, hps⟩
  · left
    obtain ⟨pending, stdout, hflush⟩ := flushPages_ready hready
    have hcounted := (h₀.addPages hps).1
    obtain ⟨out, hfinish⟩ := finish_named env (s := { s with pending, stdout })
      (hcounted.named (by simpa using hnamed))
    refine ⟨{ s with pending, stdout := out }, ?_⟩
    rw [hps]
    change (flushPages s).bind _ = _
    rw [hflush]
    exact hfinish
  · right
    refine ⟨s, ?_⟩
    rw [hps]
    rfl

/-- The words of the header and the tool can be printed exactly when the idle bit is
clear, and no list or summary of pages without it stops at a bit. -/
theorem printPages_known (env : Env) (opts : Options) (ps : List PageArgs)
    (hdefined : ∀ p ∈ ps, Defined p.flags)
    (hidle : ∀ p ∈ ps,
      bitMaskOk opts.optFilters (kpageflagsFlags opts.optRaw p.flags p.pme) = true →
        p.flags.getLsbD Kpf.idle = false) :
    (∀ b s, printPages env opts ps ≠ .error (.unknownFlagBit b, s)) ∧
    (∀ p ∈ ps, (∃ text,
      pageFlagName (kpageflagsFlags opts.optRaw p.flags p.pme) = .ok text ∧ text.length = 40) ↔
        p.flags.getLsbD Kpf.idle = false) ∧
    ∀ f g text, pageFlagName f = .ok text → pageFlagName g = .ok text → f = g := by
  refine ⟨?_, ?_, fun f g text => pageFlagName_injective⟩
  · have hnamed : ∀ f ∈ accepted opts ps, Named f := by
      intro f hf
      rw [accepted, List.mem_filter, List.mem_map] at hf
      obtain ⟨⟨p, hp, rfl⟩, hok⟩ := hf
      exact (named_kpageflagsFlags opts.optRaw (hdefined p hp) p.pme).mpr (hidle p hp hok)
    intro b s hrun
    rcases printPages_named env hnamed with ⟨s', hok⟩ | ⟨s', hfull⟩
    · rw [hok] at hrun
      cases hrun
    · rw [hfull] at hrun
      cases hrun
  · intro p hp
    rw [← named_kpageflagsFlags opts.optRaw (hdefined p hp) p.pme, ← pageFlagName_ok_iff]
    constructor
    · rintro ⟨text, htext, -⟩
      exact ⟨text, htext⟩
    · rintro ⟨text, htext⟩
      exact ⟨text, htext, pageFlagName_length htext⟩

def knownPages : List PageArgs :=
  [⟨0, 5, bit Kpf.slab ||| bit Kpf.error, pmFile⟩, ⟨1, 6, bit Kpf.lru ||| bit Kpf.dirty, 0⟩,
    ⟨2, 7, 0, 0⟩]

theorem printPages_known_three :
    (∀ b s, printPages (flatEnv []) { optRaw := true, optList := .each } knownPages ≠
      .error (.unknownFlagBit b, s)) ∧
    ∀ p ∈ knownPages, ∃ text,
      pageFlagName (kpageflagsFlags true p.flags p.pme) = .ok text ∧ text.length = 40 := by
  have hdefined : ∀ p ∈ knownPages, Defined p.flags := by decide +kernel
  have hidle : ∀ p ∈ knownPages, p.flags.getLsbD Kpf.idle = false := by decide +kernel
  have h := printPages_known (flatEnv []) { optRaw := true, optList := .each } knownPages
    hdefined fun p hp _ => hidle p hp
  exact ⟨h.1, fun p hp => (h.2.1 p hp).mpr (hidle p hp)⟩

/-- An idle page is defined by the header, and ends the list at its bit. -/
theorem printPages_idle :
    Defined (bit Kpf.idle) ∧
    (∃ s, printPages (flatEnv []) { optList := .each } [⟨0, 5, bit Kpf.idle, 0⟩] =
      .error (.unknownFlagBit 25, s)) ∧
    ∃ s, printPages (flatEnv []) { optRaw := true, optList := .ranges }
      [⟨0, 5, bit Kpf.idle, 0⟩] = .error (.unknownFlagBit 25, s) :=
  ⟨by decide +kernel, ⟨_, rfl⟩, ⟨_, rfl⟩⟩

end MceTest.PageTypes

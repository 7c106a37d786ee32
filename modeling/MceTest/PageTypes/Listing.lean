import MceTest.PageTypes.Walk

/-! The two page lists agree: a range line stands for its pages. -/

namespace MceTest.PageTypes

/-- A page that `add_page` has accepted, with its translated word. -/
structure ListedPage where
  voffset : Nat
  offset : Nat
  flags : Flags

/-- `add_page` lists a page, or `walk_file` gets to a new file. -/
inductive Listed
  | page (p : ListedPage)
  | flush

def Listed.page? : Listed → Option ListedPage
  | .page p => some p
  | .flush => none

def flushRange (s : State) : Run :=
  match flushPageRange s.pending with
  | .error e => .error (e, s)
  | .ok (pending, lines) => .ok { s with pending, stdout := s.stdout ++ lines }

def Listed.list (s : State) : Listed → Run
  | .page p => listActions s p.voffset p.offset p.flags
  | .flush => flushRange s

def listPages (s : State) (events : List Listed) : Run := do
  let s ← events.foldlM Listed.list s
  flushPages s

def Line.pages : Line → List Line
  | .range voff index count flags =>
    (List.range count).map fun i => .page (voff + i) (index + i) flags
  | line => [line]

/-- The pages of a list: words that have a name, and offsets that do not wrap. -/
structure Listable (p : ListedPage) : Prop where
  named : Named p.flags
  voffset : p.voffset + 1 < 2 ^ 64
  offset : p.offset + 1 < 2 ^ 64

/-- The page lines that are still to come out of the statics. -/
def Pending.pages (st : Pending) : List Line :=
  match pageFlagName st.flags0 with
  | .error _ => []
  | .ok name => (Line.range st.voff st.index st.count name).pages

theorem Pending.pages_eq (st : Pending) {name : List Char}
    (h : pageFlagName st.flags0 = .ok name) :
    st.pages = (Line.range st.voff st.index st.count name).pages := by
  unfold Pending.pages
  simp only [h]

theorem Pending.pages_zero {st : Pending} (h : st.count = 0) : st.pages = [] := by
  unfold Pending.pages
  split
  · rfl
  · rw [h]
    rfl

/-- The statics between two calls: the run they hold does not wrap. -/
structure Pending.Fits (st : Pending) : Prop where
  named : Named st.flags0
  voff : st.voff + st.count < 2 ^ 64
  index : st.index + st.count < 2 ^ 64

theorem Pending.Fits.empty : Pending.Fits {} := ⟨named_zero, by decide, by decide⟩

theorem pages_succ (voff index count : Nat) (name : List Char) :
    (Line.range voff index (count + 1) name).pages =
      (Line.range voff index count name).pages ++ [.page (voff + count) (index + count) name] := by
  simp only [Line.pages, List.range_succ, List.map_append, List.map_cons, List.map_nil]

theorem showPageRange_page {st : Pending} {p : ListedPage} (hst : st.Fits) (hp : Listable p) :
    ∃ st' lines name, showPageRange st p.voffset p.offset 1 p.flags = .ok (st', lines) ∧
      pageFlagName p.flags = .ok name ∧ st'.Fits ∧
      lines.flatMap Line.pages ++ st'.pages =
        st.pages ++ [.page p.voffset p.offset name] := by
  obtain ⟨name, hname⟩ := pageFlagName_ok hp.named
  have hvoffset := hp.voffset
  have hoffset := hp.offset
  unfold showPageRange
  split
  · rename_i hext
    obtain ⟨hflags, hindex, -, hvoff⟩ := hext
    rw [ulong_of_lt hst.index] at hindex
    rw [ulong_of_lt hst.voff] at hvoff
    have hcount : ulong (st.count + 1) = st.count + 1 := ulong_of_lt (by omega)
    have hfits : Pending.Fits { st with count := st.count + 1 } :=
      ⟨hst.named, by dsimp only; omega, by dsimp only; omega⟩
    have hname' : pageFlagName st.flags0 = .ok name := hflags ▸ hname
    rw [hcount]
    refine ⟨_, _, name, rfl, hname, hfits, ?_⟩
    rw [Pending.pages_eq st hname', hindex, hvoff, ← pages_succ]
    exact Pending.pages_eq _ hname'
  · obtain ⟨name₀, hname₀⟩ := pageFlagName_ok hst.named
    have hfits : Pending.Fits ⟨p.flags, p.voffset, p.offset, 1⟩ := ⟨hp.named, hvoffset, hoffset⟩
    have hpages : Pending.pages ⟨p.flags, p.voffset, p.offset, 1⟩ =
        [.page p.voffset p.offset name] := Pending.pages_eq _ hname
    dsimp only
    split
    · simp only [hname₀]
      refine ⟨_, _, name, rfl, hname, hfits, ?_⟩
      rw [hpages, Pending.pages_eq _ hname₀, List.flatMap_cons, List.flatMap_nil, List.append_nil]
    · rename_i hzero
      refine ⟨_, _, name, rfl, hname, hfits, ?_⟩
      rw [hpages, Pending.pages_zero (not_not.mp hzero)]
      rfl

theorem flushPageRange_pages {st : Pending} (hst : Named st.flags0) :
    ∃ lines, flushPageRange st = .ok ({}, lines) ∧ lines.flatMap Line.pages = st.pages := by
  obtain ⟨name, hname⟩ := pageFlagName_ok hst
  unfold flushPageRange showPageRange
  rw [if_neg fun h => h.2.2.1 rfl]
  dsimp only
  split
  · simp only [hname]
    refine ⟨_, rfl, ?_⟩
    rw [Pending.pages_eq _ hname, List.flatMap_cons, List.flatMap_nil, List.append_nil]
  · rename_i hzero
    exact ⟨[], rfl, (Pending.pages_zero (not_not.mp hzero)).symm⟩

/-- A state of a run with `-l` beside one of a run with `-L` over the same events: the lines
printed and pending on the one side stand for those printed on the other. -/
structure Coded (sr se : State) : Prop where
  ranges : sr.opts.optList = .ranges
  each : se.opts.optList = .each
  fits : sr.pending.Fits
  idle : se.pending = {}
  lines : sr.stdout.flatMap Line.pages ++ sr.pending.pages = se.stdout

theorem page_coded {sr se : State} (h : Coded sr se) {p : ListedPage} (hp : Listable p) :
    ∃ sr' se', (Listed.page p).list sr = .ok sr' ∧ (Listed.page p).list se = .ok se' ∧
      Coded sr' se' := by
  obtain ⟨pending, lines, name, hshow, hname, hfits, hlines⟩ := showPageRange_page h.fits hp
  have hr : (Listed.page p).list sr =
      .ok { sr with pending, stdout := sr.stdout ++ lines } := by
    rw [Listed.list, listActions, h.ranges]
    simp only [hshow]
  have he : (Listed.page p).list se =
      .ok { se with stdout := se.stdout ++ [.page p.voffset p.offset name] } := by
    rw [Listed.list, listActions, h.each]
    simp only [showPage_ok hname]
  refine ⟨_, _, hr, he, h.ranges, h.each, hfits, h.idle, ?_⟩
  rw [List.flatMap_append, List.append_assoc, hlines, ← List.append_assoc, h.lines]

theorem flush_ranges {sr se : State} (h : Coded sr se) :
    ∃ sr', flushRange sr = .ok sr' ∧ sr'.opts = sr.opts ∧ sr'.pending = {} ∧
      sr'.stdout.flatMap Line.pages = se.stdout := by
  obtain ⟨lines, hflush, hlines⟩ := flushPageRange_pages h.fits.named
  refine ⟨{ sr with pending := {}, stdout := sr.stdout ++ lines }, ?_, rfl, rfl, ?_⟩
  · unfold flushRange
    simp only [hflush]
  · rw [List.flatMap_append, hlines, h.lines]

theorem flush_each {sr se : State} (h : Coded sr se) : flushRange se = .ok se := by
  obtain ⟨opts, pending, _⟩ := se
  obtain rfl : pending = {} := h.idle
  simp [flushRange, flushPageRange, showPageRange]

theorem flush_coded {sr se : State} (h : Coded sr se) :
    ∃ sr' se', Listed.flush.list sr = .ok sr' ∧ Listed.flush.list se = .ok se' ∧
      Coded sr' se' := by
  obtain ⟨sr', hflush, hopts, hpending, hlines⟩ := flush_ranges h
  refine ⟨sr', se, hflush, flush_each h, ?_, h.each, ?_, h.idle, ?_⟩
  · rw [hopts, h.ranges]
  · rw [hpending]
    exact .empty
  · rw [hpending, hlines, Pending.pages_zero rfl, List.append_nil]

theorem list_coded (events : List Listed) {sr se : State} (h : Coded sr se)
    (hpages : ∀ p ∈ events.filterMap Listed.page?, Listable p) :
    ∃ sr' se', events.foldlM Listed.list sr = .ok sr' ∧ events.foldlM Listed.list se = .ok se' ∧
      Coded sr' se' := by
  induction events generalizing sr se with
  | nil => exact ⟨sr, se, rfl, rfl, h⟩
  | cons event events ih =>
    have hstep : ∃ sr' se', event.list sr = .ok sr' ∧ event.list se = .ok se' ∧ Coded sr' se' := by
      cases event with
      | page p => exact page_coded h (hpages p (.head _))
      | flush => exact flush_coded h
    obtain ⟨sr', se', hr, he, hcoded⟩ := hstep
    have hrest : ∀ p ∈ events.filterMap Listed.page?, Listable p := by
      intro p hp
      apply hpages p
      obtain ⟨e, hmem, he⟩ := List.mem_filterMap.mp hp
      exact List.mem_filterMap.mpr ⟨e, .tail _ hmem, he⟩
    obtain ⟨sr'', se'', hr', he', hcoded'⟩ := ih hcoded hrest
    rw [List.foldlM_cons, List.foldlM_cons, hr, he]
    exact ⟨sr'', se'', hr', he', hcoded'⟩

/-- The range lines of `-l` expand to the page lines of `-L`, for any placement of flushes
between the pages. -/
theorem ranges_expand (opts : Options) (events : List Listed)
    (hpages : ∀ p ∈ events.filterMap Listed.page?, Listable p) :
    ∃ sr se, listPages { opts := { opts with optList := .ranges } } events = .ok sr ∧
      listPages { opts := { opts with optList := .each } } events = .ok se ∧
      sr.stdout.flatMap Line.pages = se.stdout := by
  have hstart : Coded { opts := { opts with optList := .ranges } }
      { opts := { opts with optList := .each } } :=
    ⟨rfl, rfl, .empty, rfl, Pending.pages_zero rfl⟩
  obtain ⟨sr, se, hr, he, hcoded⟩ := list_coded events hstart hpages
  obtain ⟨sr', hflush, -, -, hlines⟩ := flush_ranges hcoded
  refine ⟨sr', se, ?_, ?_, hlines⟩
  · rw [listPages, hr]
    change flushPages sr = _
    rw [flushPages, if_pos hcoded.ranges]
    exact hflush
  · rw [listPages, he]
    change flushPages se = _
    rw [flushPages, if_neg (by rw [hcoded.each]; decide)]

/-- A run of two pages, a flush and the page that looks like flushed statics. -/
theorem ranges_expand_zero : ∃ sr se,
    listPages { opts := { optList := .ranges } }
      [.page ⟨4, 4, 0⟩, .page ⟨5, 5, 0⟩, .flush, .page ⟨0, 0, 0⟩] = .ok sr ∧
    listPages { opts := { optList := .each } }
      [.page ⟨4, 4, 0⟩, .page ⟨5, 5, 0⟩, .flush, .page ⟨0, 0, 0⟩] = .ok se ∧
    sr.stdout.flatMap Line.pages = se.stdout :=
  ranges_expand {} _ (by
    have hzero : Named 0 := named_zero
    rintro p hp
    simp only [List.filterMap_cons, Listed.page?, List.filterMap_nil, List.mem_cons,
      List.not_mem_nil, or_false] at hp
    rcases hp with rfl | rfl | rfl
    all_goals exact ⟨hzero, by decide, by decide⟩)

end MceTest.PageTypes

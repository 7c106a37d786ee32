import MceTest.PageTypes.Flags

/-! The two list modes: one line for a run of pages, or one line for each page. -/

namespace MceTest.PageTypes

/-- `opt_list`: 0, 1 (`-l`) or 2 (`-L`). -/
inductive ListMode
  | off | ranges | each
  deriving DecidableEq

def ulong (n : Nat) : Nat := n % 2 ^ 64

theorem ulong_of_lt {n : Nat} (h : n < 2 ^ 64) : ulong n = n := Nat.mod_eq_of_lt h

def ulongMax : Nat := 2 ^ 64 - 1

def hexText (n : Nat) : List Char := Nat.toDigits 16 n
def decText (n : Nat) : List Char := Nat.toDigits 10 n

/-- A line of the page list or of the summary, before it is laid out. -/
inductive Line
  | range (voff index count : Nat) (flags : List Char)
  | page (voffset offset : Nat) (flags : List Char)
  | summary (flags : Flags) (nrPages mb : Nat) (name longname : List Char)
  | total (nrPages mb : Nat)
  | heading (text : String)
  deriving DecidableEq

def padLeft (width : Nat) (c : Char) (text : List Char) : List Char :=
  List.replicate (width - text.length) c ++ text

def voffsetText (optPid optFile : Bool) (voff : Nat) : List Char :=
  (if optPid then hexText voff ++ ['\t'] else []) ++
    (if optFile then decText voff ++ ['\t'] else [])

def Line.text (optPid optFile : Bool) : Line → List Char
  | .range voff index count flags =>
    voffsetText optPid optFile voff ++ hexText index ++ '\t' :: hexText count ++
      '\t' :: flags ++ ['\n']
  | .page voffset offset flags =>
    voffsetText optPid optFile voffset ++ hexText offset ++ '\t' :: flags ++ ['\n']
  | .summary flags nrPages mb name longname =>
    '0' :: 'x' :: padLeft 16 '0' (hexText flags.toNat) ++ '\t' ::
      padLeft 10 ' ' (decText nrPages) ++ ' ' :: padLeft 8 ' ' (decText mb) ++ [' ', ' '] ++
      name ++ '\t' :: longname ++ ['\n']
  | .total nrPages mb =>
    "             total\t".toList ++ padLeft 10 ' ' (decText nrPages) ++ ' ' ::
      padLeft 8 ' ' (decText mb) ++ ['\n']
  | .heading text => text.toList

/-- The static variables of `show_page_range`. -/
structure Pending where
  flags0 : Flags := 0
  voff : Nat := 0
  index : Nat := 0
  count : Nat := 0
  deriving DecidableEq

/-- The new statics, and the line printed if there is one. -/
def showPageRange (st : Pending) (voffset offset size : Nat) (flags : Flags) :
    Except Fatal (Pending × List Line) :=
  if flags = st.flags0 ∧ offset = ulong (st.index + st.count) ∧ size ≠ 0 ∧
      voffset = ulong (st.voff + st.count) then
    .ok ({ st with count := ulong (st.count + size) }, [])
  else
    let next : Pending := { flags0 := flags, index := offset, voff := voffset, count := size }
    if st.count ≠ 0 then
      match pageFlagName st.flags0 with
      | .error e => .error e
      | .ok name => .ok (next, [.range st.voff st.index st.count name])
    else .ok (next, [])

def flushPageRange (st : Pending) : Except Fatal (Pending × List Line) :=
  showPageRange st 0 0 0 0

def showPage (voffset offset : Nat) (flags : Flags) : Except Fatal (List Line) :=
  match pageFlagName flags with
  | .error e => .error e
  | .ok name => .ok [.page voffset offset name]

theorem pageFlagNameLoop_error {flags : Flags} {i n : Nat} {e : Fatal}
    (h : pageFlagNameLoop flags i n = .error e) : ∃ b, e = .unknownFlagBit b := by
  induction n generalizing i e with
  | zero => simp [pageFlagNameLoop] at h
  | succ n ih =>
    rw [pageFlagNameLoop] at h
    split at h
    · split at h
      · exact ⟨i, by simpa using h.symm⟩
      · exact ih h
    · cases hrest : pageFlagNameLoop flags (i + 1) n with
      | error e' =>
        rw [hrest] at h
        obtain ⟨b, rfl⟩ := ih hrest
        exact ⟨b, by simpa [bind, Except.bind] using h.symm⟩
      | ok rest => simp [hrest, bind, Except.bind, pure, Except.pure] at h

theorem pageFlagName_error {flags : Flags} {e : Fatal} (h : pageFlagName flags = .error e) :
    ∃ b, e = .unknownFlagBit b := pageFlagNameLoop_error h

theorem showPageRange_error {st : Pending} {voffset offset size : Nat} {flags : Flags}
    {e : Fatal} (h : showPageRange st voffset offset size flags = .error e) :
    ∃ b, e = .unknownFlagBit b := by
  unfold showPageRange at h
  split at h
  · cases h
  · dsimp only at h
    split at h
    · split at h
      · rename_i e' hname
        cases h
        exact pageFlagName_error hname
      · cases h
    · cases h

theorem showPage_ok {voffset offset : Nat} {flags : Flags} {name : List Char}
    (h : pageFlagName flags = .ok name) :
    showPage voffset offset flags = .ok [.page voffset offset name] := by
  unfold showPage
  simp only [h]

theorem showPage_error {voffset offset : Nat} {flags : Flags} {e : Fatal}
    (h : showPage voffset offset flags = .error e) : ∃ b, e = .unknownFlagBit b := by
  unfold showPage at h
  split at h
  · rename_i hname
    cases h
    exact pageFlagName_error hname
  · cases h

theorem showPageRange_ok {st : Pending} (hst : Named st.flags0) (voffset offset size : Nat)
    {flags : Flags} (hflags : Named flags) :
    ∃ st' lines, showPageRange st voffset offset size flags = .ok (st', lines) ∧
      Named st'.flags0 := by
  unfold showPageRange
  split
  · exact ⟨_, _, rfl, hst⟩
  · obtain ⟨name, hname⟩ := pageFlagName_ok hst
    rw [hname]
    dsimp only
    split
    · exact ⟨_, _, rfl, hflags⟩
    · exact ⟨_, _, rfl, hflags⟩

end MceTest.PageTypes

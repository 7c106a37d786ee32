import MceTest.PageTypes.Hash
import MceTest.PageTypes.Task
import Mathlib.Data.BitVec

/-! The state of the tool and `add_page`, which filters, poisons, lists and counts. -/

namespace MceTest.PageTypes

open MceTest.Library

structure Options where
  optRaw : Bool := false
  optList : ListMode := .off
  optNoSummary : Bool := false
  optPid : Nat := 0
  optHwpoison : Bool := false
  optUnpoison : Bool := false
  optFilters : List BitFilter := []
  optAddrRanges : List (Nat × Nat) := []

structure State where
  opts : Options := {}
  pending : Pending := {}
  pageFlags : Nat → Flags := fun _ => 0
  nrPages : Nat → BitVec 64 := fun _ => 0
  totalPages : BitVec 64 := 0
  /-- What was written to `hwpoison/corrupt-pfn` and `hwpoison/unpoison-pfn`, one write
  an entry. -/
  corruptPfn : List (List Char) := []
  unpoisonPfn : List (List Char) := []
  stdout : List Line := []
  vmas : VmaTable := {}
  warnings : List MapsWarning := []
  /-- The number of reads of `kpageflags` and of `pagemap` so far. -/
  reads : Nat := 0
  pagemapReads : Nat := 0

/-- A run goes on, or has left through `fatal` with the effects it had by then. -/
abbrev Run := Except (Fatal × State) State

structure PageArgs where
  voffset : Nat
  offset : Nat
  flags : Flags
  pme : BitVec 64

def pfnText (offset : Nat) : List Char := '0' :: 'x' :: hexText offset ++ ['\n']

/-- A failing write is reported and ignored, so only the attempt is kept. -/
def hwpoisonPage (s : State) (offset : Nat) : State :=
  { s with corruptPfn := s.corruptPfn ++ [pfnText offset] }

def unpoisonPage (s : State) (offset : Nat) : State :=
  { s with unpoisonPfn := s.unpoisonPfn ++ [pfnText offset] }

def poisonActions (s : State) (offset : Nat) : State :=
  let s := if s.opts.optHwpoison then hwpoisonPage s offset else s
  if s.opts.optUnpoison then unpoisonPage s offset else s

def listActions (s : State) (voffset offset : Nat) (flags : Flags) : Run :=
  match s.opts.optList with
  | .off => .ok s
  | .ranges => match showPageRange s.pending voffset offset 1 flags with
    | .error e => .error (e, s)
    | .ok (pending, lines) => .ok { s with pending, stdout := s.stdout ++ lines }
  | .each => match showPage voffset offset flags with
    | .error e => .error (e, s)
    | .ok lines => .ok { s with stdout := s.stdout ++ lines }

def countPage (s : State) (flags : Flags) : Run :=
  match hashSlot s.pageFlags flags with
  | .error e => .error (e, s)
  | .ok (k, pageFlags) =>
    .ok { s with
      pageFlags
      nrPages := Probing.bump s.nrPages k
      totalPages := s.totalPages + 1 }

def addPage (s : State) (p : PageArgs) : Run :=
  let flags := kpageflagsFlags s.opts.optRaw p.flags p.pme
  if bitMaskOk s.opts.optFilters flags then do
    let s ← listActions (poisonActions s p.offset) p.voffset p.offset flags
    countPage s flags
  else .ok s

def addPages (s : State) (ps : List PageArgs) : Run := ps.foldlM addPage s

/-- The translated words of the pages that pass the filters, in order. -/
def accepted (opts : Options) (ps : List PageArgs) : List Flags :=
  (ps.map fun p => kpageflagsFlags opts.optRaw p.flags p.pme).filter
    (bitMaskOk opts.optFilters)

@[simp] theorem accepted_nil (opts : Options) : accepted opts [] = [] := rfl

theorem accepted_append (opts : Options) (ps qs : List PageArgs) :
    accepted opts (ps ++ qs) = accepted opts ps ++ accepted opts qs := by
  simp [accepted]

/-- The words a listing can print: all of them when nothing is listed. -/
def Printable (opts : Options) (words : List Flags) : Prop :=
  opts.optList = .off ∨ ∀ f ∈ words, Named f

theorem poisonActions_eq (s : State) (offset : Nat) :
    poisonActions s offset = { s with
      corruptPfn := s.corruptPfn ++ if s.opts.optHwpoison then [pfnText offset] else []
      unpoisonPfn := s.unpoisonPfn ++ if s.opts.optUnpoison then [pfnText offset] else [] } := by
  cases h : s.opts.optHwpoison <;> cases h' : s.opts.optUnpoison <;>
    simp [poisonActions, hwpoisonPage, unpoisonPage, h, h']

theorem listActions_ok {s s' : State} {voffset offset : Nat} {flags : Flags}
    (h : listActions s voffset offset flags = .ok s') :
    ∃ pending stdout, s' = { s with pending, stdout } := by
  unfold listActions at h
  split at h
  · exact ⟨s.pending, s.stdout, by cases h; rfl⟩
  · split at h
    · cases h
    · cases h; exact ⟨_, _, rfl⟩
  · split at h
    · cases h
    · cases h; exact ⟨_, _, rfl⟩

theorem listActions_error {s : State} {voffset offset : Nat} {flags : Flags} {e : Fatal}
    {s' : State} (h : listActions s voffset offset flags = .error (e, s')) :
    ∃ b, e = .unknownFlagBit b := by
  unfold listActions at h
  split at h
  · cases h
  · split at h
    · rename_i hshow
      cases h
      exact showPageRange_error hshow
    · cases h
  · split at h
    · rename_i hshow
      cases h
      exact showPage_error hshow
    · cases h

theorem countPage_error {s : State} {flags : Flags} {e : Fatal}
    (h : hashSlot s.pageFlags flags = .error e) : countPage s flags = .error (e, s) := by
  rw [countPage, h]

theorem countPage_ok {s : State} {flags : Flags} (k : Nat) (pageFlags : Nat → Flags)
    (h : hashSlot s.pageFlags flags = .ok (k, pageFlags)) :
    countPage s flags = .ok { s with
      pageFlags
      nrPages := Probing.bump s.nrPages k
      totalPages := s.totalPages + 1 } := by
  rw [countPage, h]

theorem addPage_accepted {s : State} {p : PageArgs}
    (h : bitMaskOk s.opts.optFilters (kpageflagsFlags s.opts.optRaw p.flags p.pme) = true) :
    addPage s p =
      (listActions (poisonActions s p.offset) p.voffset p.offset
        (kpageflagsFlags s.opts.optRaw p.flags p.pme)).bind
          (countPage · (kpageflagsFlags s.opts.optRaw p.flags p.pme)) := by
  simp only [addPage]
  rw [if_pos h]
  rfl

theorem addPage_rejected {s : State} {p : PageArgs}
    (h : bitMaskOk s.opts.optFilters (kpageflagsFlags s.opts.optRaw p.flags p.pme) = false) :
    addPage s p = .ok s := by
  simp only [addPage]
  rw [if_neg (by simp [h])]

/-- Everything `add_page` can do: reject the page, stop in the listing, find the table
full, or count the page in the slot of its word. -/
theorem addPage_cases (s : State) (p : PageArgs) :
    let flags := kpageflagsFlags s.opts.optRaw p.flags p.pme
    (bitMaskOk s.opts.optFilters flags = false ∧ addPage s p = .ok s) ∨
    bitMaskOk s.opts.optFilters flags = true ∧
      ((∃ b s', addPage s p = .error (.unknownFlagBit b, s')) ∨
       (Probing.locate (tableOf s.pageFlags) flags (probe flags) = none ∧
          ∃ s', addPage s p = .error (.hashTableFull, s')) ∨
       ∃ pending stdout k pageFlags,
          Probing.locate (tableOf s.pageFlags) flags (probe flags) = some k ∧
          tableOf pageFlags = Probing.insert (tableOf s.pageFlags) flags k ∧
          pageFlags 0 = s.pageFlags 0 ∧
          addPage s p = .ok { s with
            pending, stdout, pageFlags
            nrPages := Probing.bump s.nrPages k
            totalPages := s.totalPages + 1
            corruptPfn := s.corruptPfn ++
              if s.opts.optHwpoison then [pfnText p.offset] else []
            unpoisonPfn := s.unpoisonPfn ++
              if s.opts.optUnpoison then [pfnText p.offset] else [] }) := by
  intro flags
  by_cases hok : bitMaskOk s.opts.optFilters flags = true
  swap
  · have hno := Bool.eq_false_of_not_eq_true hok
    exact Or.inl ⟨hno, addPage_rejected hno⟩
  refine Or.inr ⟨hok, ?_⟩
  rw [addPage_accepted hok]
  cases hlist : listActions (poisonActions s p.offset) p.voffset p.offset flags with
  | error r =>
    obtain ⟨e, s'⟩ := r
    obtain ⟨b, rfl⟩ := listActions_error hlist
    exact Or.inl ⟨b, s', rfl⟩
  | ok s₁ =>
    obtain ⟨pending, stdout, rfl⟩ := listActions_ok hlist
    rw [poisonActions_eq]
    change _ ∨ (_ ∧ ∃ s', countPage _ flags = .error (.hashTableFull, s')) ∨
      ∃ pending stdout k pageFlags, _ ∧ _ ∧ _ ∧ countPage _ flags = _
    rcases hashSlot_cases s.pageFlags flags with ⟨k, pf, hslot, hk, hpf, hzero⟩ | ⟨hslot, hk⟩
    · exact Or.inr (Or.inr ⟨pending, stdout, k, pf, hk, hpf, hzero, countPage_ok k pf hslot⟩)
    · exact Or.inr (Or.inl ⟨hk, _, countPage_error hslot⟩)

end MceTest.PageTypes

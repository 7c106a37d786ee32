import Mathlib.Data.List.Basic
import Mathlib.Algebra.Group.Nat.Defs

/-! Page flag words: the bits of `kernel-page-flags.h` and of the tool itself, the
name table, the two translations of a `kpageflags` word and the bit filters. -/

namespace MceTest.PageTypes

abbrev Flags := BitVec 64

/-- The reasons for which the tool leaves through `fatal`, or through `perror` and
`exit`. -/
inductive Fatal
  | unknownFlagBit (bit : Nat)
  | hashTableFull
  | indexOverflow (index : Nat)
  | tooManyAddrRanges
  | tooMuchBitFilters
  | invalidRange (offset size : Nat)
  | invalidNameOrNumber (str : List Char)
  | partialRead (bytes : Nat)
  | perror (name : String)
  deriving DecidableEq

def Fatal.message : Fatal → String
  | .unknownFlagBit i => "unknown flag bit " ++ toString i ++ "\n"
  | .hashTableFull => "hash table full: bump up HASH_SHIFT?\n"
  | .indexOverflow i => "index overflow: " ++ toString i ++ "\n"
  | .tooManyAddrRanges => "too many addr ranges\n"
  | .tooMuchBitFilters => "too much bit filters\n"
  | .invalidRange o s => "invalid range: " ++ toString o ++ "," ++ toString s ++ "\n"
  | .invalidNameOrNumber str => "invalid name or number: " ++ String.ofList str ++ "\n"
  | .partialRead b => "partial read: " ++ toString b ++ " bytes\n"
  | .perror name => name

namespace Kpf

def locked := 0
def error := 1
def referenced := 2
def uptodate := 3
def dirty := 4
def lru := 5
def active := 6
def slab := 7
def writeback := 8
def reclaim := 9
def buddy := 10
def mmap := 11
def anon := 12
def swapcache := 13
def swapbacked := 14
def compoundHead := 15
def compoundTail := 16
def huge := 17
def unevictable := 18
def hwpoison := 19
def nopage := 20
def ksm := 21
def thp := 22
def balloon := 23
def zeroPage := 24
def idle := 25

def reserved := 32
def mlocked := 33
def mappedtodisk := 34
def «private» := 35
def private2 := 36
def ownerPrivate := 37
def arch := 38
def uncached := 39
def softdirty := 40

def readahead := 48
def slobFree := 49
def slubFrozen := 50
def slubDebug := 51
def file := 62
def mmapExclusive := 63

end Kpf

def bit (n : Nat) : Flags := 1#64 <<< n

def kpfAllBits : Flags := BitVec.allOnes 64
def kpfHackersBits : Flags := 0xffff#64 <<< 32
def bitsCompound : Flags := bit Kpf.compoundHead ||| bit Kpf.compoundTail

def pmSoftDirty : BitVec 64 := 1#64 <<< 55
def pmMmapExclusive : BitVec 64 := 1#64 <<< 56
def pmFile : BitVec 64 := 1#64 <<< 61

/-- The designated initialisers of `page_flag_names`; the array has 64 entries and the
ones not listed are null. -/
def pageFlagNames : List (Nat × List Char) :=
  [(Kpf.locked, "L:locked".toList), (Kpf.error, "E:error".toList),
   (Kpf.referenced, "R:referenced".toList), (Kpf.uptodate, "U:uptodate".toList),
   (Kpf.dirty, "D:dirty".toList), (Kpf.lru, "l:lru".toList),
   (Kpf.active, "A:active".toList), (Kpf.slab, "S:slab".toList),
   (Kpf.writeback, "W:writeback".toList), (Kpf.reclaim, "I:reclaim".toList),
   (Kpf.buddy, "B:buddy".toList), (Kpf.mmap, "M:mmap".toList),
   (Kpf.anon, "a:anonymous".toList), (Kpf.swapcache, "s:swapcache".toList),
   (Kpf.swapbacked, "b:swapbacked".toList), (Kpf.compoundHead, "H:compound_head".toList),
   (Kpf.compoundTail, "T:compound_tail".toList), (Kpf.huge, "G:huge".toList),
   (Kpf.unevictable, "u:unevictable".toList), (Kpf.hwpoison, "X:hwpoison".toList),
   (Kpf.nopage, "n:nopage".toList), (Kpf.ksm, "x:ksm".toList), (Kpf.thp, "t:thp".toList),
   (Kpf.balloon, "o:balloon".toList), (Kpf.zeroPage, "z:zero_page".toList),
   (Kpf.reserved, "r:reserved".toList), (Kpf.mlocked, "m:mlocked".toList),
   (Kpf.mappedtodisk, "d:mappedtodisk".toList), (Kpf.private, "P:private".toList),
   (Kpf.private2, "p:private_2".toList), (Kpf.ownerPrivate, "O:owner_private".toList),
   (Kpf.arch, "h:arch".toList), (Kpf.uncached, "c:uncached".toList),
   (Kpf.softdirty, "f:softdirty".toList), (Kpf.readahead, "I:readahead".toList),
   (Kpf.slobFree, "P:slob_free".toList), (Kpf.slubFrozen, "A:slub_frozen".toList),
   (Kpf.slubDebug, "E:slub_debug".toList), (Kpf.file, "F:file".toList),
   (Kpf.mmapExclusive, "1:mmap_exclusive".toList)]

def pageFlagNamesSize : Nat := 64

def flagName? (i : Nat) : Option (List Char) := pageFlagNames.lookup i

/-- The loop of `page_flag_name` from index `i` on, `n` indices before the end. -/
def pageFlagNameLoop (flags : Flags) : Nat → Nat → Except Fatal (List Char)
  | _, 0 => .ok []
  | i, n + 1 => match flagName? i with
    | none =>
      if flags.getLsbD i then .error (.unknownFlagBit i) else pageFlagNameLoop flags (i + 1) n
    | some name => do
      let rest ← pageFlagNameLoop flags (i + 1) n
      return (if flags.getLsbD i then name.headD '_' else '_') :: rest

def pageFlagName (flags : Flags) : Except Fatal (List Char) :=
  pageFlagNameLoop flags 0 pageFlagNamesSize

def longnameSize : Nat := 1024

/-- The loop of `page_flag_longname`: the buffer, and the length `snprintf` would have
liked to reach. -/
def pageFlagLongnameLoop (flags : Flags) :
    List (Nat × List Char) → List Char × Nat → List Char × Nat
  | [], r => r
  | (i, name) :: names, (buf, n) =>
    if flags.getLsbD i then
      let item := name.drop 2 ++ [',']
      pageFlagLongnameLoop flags names
        (buf ++ item.take (longnameSize - n - 1), n + item.length)
    else pageFlagLongnameLoop flags names (buf, n)

def pageFlagLongname (flags : Flags) : List Char :=
  let r := pageFlagLongnameLoop flags pageFlagNames ([], 0)
  r.1.take (r.2 - 1)

/-- Every bit that is set has an entry in the name table. -/
def Named (flags : Flags) : Prop :=
  ∀ i < pageFlagNamesSize, flags.getLsbD i = true → (flagName? i).isSome

instance (flags : Flags) : Decidable (Named flags) := Nat.decidableBallLT _ _

theorem named_zero : Named 0 := by
  intro i _ h
  simp at h

theorem pageFlagNameLoop_ok (flags : Flags) (h : Named flags) (n i : Nat)
    (hi : i + n = pageFlagNamesSize) : ∃ text, pageFlagNameLoop flags i n = .ok text := by
  induction n generalizing i with
  | zero => exact ⟨[], rfl⟩
  | succ n ih =>
    obtain ⟨rest, hrest⟩ := ih (i + 1) (by omega)
    rw [pageFlagNameLoop]
    cases hname : flagName? i with
    | none =>
      have hclear : flags.getLsbD i = false := by
        by_contra hset
        have := h i (by omega) (by simpa using hset)
        simp [hname] at this
      exact ⟨rest, by simp [hclear, hrest]⟩
    | some name => exact ⟨_, by simp only [hrest]; rfl⟩

theorem pageFlagName_ok {flags : Flags} (h : Named flags) :
    ∃ text, pageFlagName flags = .ok text :=
  pageFlagNameLoop_ok flags h _ 0 rfl

def expandOverloadedFlags (flags : Flags) (pme : BitVec 64) : Flags :=
  let flags :=
    if flags &&& bit Kpf.slab ≠ 0 then
      let flags :=
        if flags &&& bit Kpf.private ≠ 0 then
          flags ^^^ (bit Kpf.private ||| bit Kpf.slobFree) else flags
      let flags :=
        if flags &&& bit Kpf.active ≠ 0 then
          flags ^^^ (bit Kpf.active ||| bit Kpf.slubFrozen) else flags
      if flags &&& bit Kpf.error ≠ 0 then
        flags ^^^ (bit Kpf.error ||| bit Kpf.slubDebug) else flags
    else flags
  let flags :=
    if flags &&& (bit Kpf.reclaim ||| bit Kpf.writeback) = bit Kpf.reclaim then
      flags ^^^ (bit Kpf.reclaim ||| bit Kpf.readahead) else flags
  let flags := if pme &&& pmSoftDirty ≠ 0 then flags ||| bit Kpf.softdirty else flags
  let flags := if pme &&& pmFile ≠ 0 then flags ||| bit Kpf.file else flags
  if pme &&& pmMmapExclusive ≠ 0 then flags ||| bit Kpf.mmapExclusive else flags

def wellKnownFlags (flags : Flags) : Flags :=
  let flags := flags &&& ~~~kpfHackersBits
  if flags &&& bitsCompound ≠ 0 ∧ ¬ (flags &&& bit Kpf.huge ≠ 0) then
    flags &&& ~~~bitsCompound
  else flags

def kpageflagsFlags (optRaw : Bool) (flags : Flags) (pme : BitVec 64) : Flags :=
  if optRaw then expandOverloadedFlags flags pme else wellKnownFlags flags

/-- One entry of the `opt_mask` and `opt_bits` tables. -/
structure BitFilter where
  mask : Flags
  bits : Flags
  deriving DecidableEq

/-- One round of the loop of `bit_mask_ok`. -/
def BitFilter.ok (f : BitFilter) (flags : Flags) : Bool :=
  if f.bits = kpfAllBits then flags &&& f.mask ≠ 0 else flags &&& f.mask = f.bits

def bitMaskOk : List BitFilter → Flags → Bool
  | [], _ => true
  | f :: fs, flags => if f.ok flags then bitMaskOk fs flags else false

end MceTest.PageTypes

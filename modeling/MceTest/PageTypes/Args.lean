import MceTest.Library.Numeral
import MceTest.PageTypes.Page
import Mathlib.Data.List.TakeWhile

/-! The arguments of `-a` and `-b`: numbers, address ranges and lists of flag names. -/

namespace MceTest.PageTypes

open MceTest.Library.Numeral

def parseNumber (str : List Char) : Except Fatal Nat :=
  let n := (strtoll str % 2 ^ 64).toNat
  if n = 0 ∧ str.head? ≠ some '0' then .error (.invalidNameOrNumber str) else .ok n

/-- `strchr`; a pointer into a string is the rest of the string from there on. -/
def strchr (str : List Char) (c : Char) : Option (List Char) :=
  match str.dropWhile (· ≠ c) with
  | [] => none
  | p => some p

def maxAddrRanges : Nat := 1024

def addAddrRange (opts : Options) (offset size : Nat) : Except Fatal Options :=
  if opts.optAddrRanges.length ≥ maxAddrRanges then .error .tooManyAddrRanges
  else .ok { opts with
    optAddrRanges := opts.optAddrRanges ++ [(offset, min size (ulongMax - offset))] }

def parseAddrRange (opts : Options) (optarg : List Char) : Except Fatal Options :=
  match (strchr optarg ',').or (strchr optarg '+') with
  | none => do addAddrRange opts (← parseNumber optarg) 1
  | some p =>
    if p = optarg then do addAddrRange opts 0 (← parseNumber p.tail)
    else do
      let offset ← parseNumber optarg
      if p.tail = [] then addAddrRange opts offset ulongMax
      else
        let size ← parseNumber p.tail
        if p.head? = some ',' then
          if size < offset then .error (.invalidRange offset size)
          else addAddrRange opts offset (size - offset)
        else addAddrRange opts offset size

def maxBitFilters : Nat := 64

def addBitsFilter (opts : Options) (f : BitFilter) : Except Fatal Options :=
  if opts.optFilters.length ≥ maxBitFilters then .error .tooMuchBitFilters
  else .ok { opts with optFilters := opts.optFilters ++ [f] }

/-- `parse_flag_name`; `strncmp` is equality of the first `len` characters. -/
def parseFlagName (str : List Char) (len : Nat) : Except Fatal Flags :=
  if str = [] ∨ len = 0 then .ok 0
  else if len ≤ 8 ∧ str.take len = "compound".toList.take len then .ok bitsCompound
  else match pageFlagNames.find? fun e => str.take len = (e.2.drop 2).take len with
    | some e => .ok (bit e.1)
    | none => do return BitVec.ofNat 64 (← parseNumber str)

/-- One item of `parse_flag_names`, from `str` up to the delimiter `len` further on. -/
def parseFlagItem (all : Bool) (str : List Char) (len : Nat) : Except Fatal Flags :=
  match str with
  | '~' :: str => if all ∧ str ≠ [] then parseFlagName str (len - 1) else .ok 0
  | str => parseFlagName str len

/-- The loop of `parse_flag_names`, with `p` somewhere behind `str`. -/
def parseFlagNamesLoop (all : Bool) : List Char → List Char → Flags → Except Fatal Flags
  | [], str, flags => do return flags ||| (← parseFlagItem all str str.length)
  | c :: p, str, flags =>
    if c = ',' ∨ c = '=' then do
      let item ← parseFlagItem all str (str.length - (c :: p).length)
      if c ≠ ',' then return flags ||| item
      else parseFlagNamesLoop all p p (flags ||| item)
    else parseFlagNamesLoop all p str flags

def parseFlagNames (str : List Char) (all : Bool) : Except Fatal Flags :=
  parseFlagNamesLoop all str str 0

/-- The filter `parse_bits_mask` installs. -/
def bitsMask (optarg : List Char) : Except Fatal BitFilter :=
  match strchr optarg '=' with
  | some p =>
    if p = optarg then do
      let bits ← parseFlagNames p.tail false
      return { mask := kpfAllBits, bits }
    else do
      let mask ← parseFlagNames optarg false
      let bits ← parseFlagNames p.tail false
      return { mask, bits }
  | none =>
    if (strchr optarg '~').isSome then do
      let mask ← parseFlagNames optarg true
      let bits ← parseFlagNames optarg false
      return { mask, bits }
    else do
      let mask ← parseFlagNames optarg false
      return { mask, bits := kpfAllBits }

def parseBitsMask (opts : Options) (optarg : List Char) : Except Fatal Options := do
  addBitsFilter opts (← bitsMask optarg)

structure Number where
  text : List Char
  val : Nat
  number : CNumber text val

theorem CNumber.alnum {text : List Char} {n : Nat} (h : CNumber text n) : Digits 36 text := by
  have hlt : ∀ {base : Nat} {ds : List Char}, base ≤ 36 → Digits base ds → Digits 36 ds :=
    fun hb hds c hc => (hds c hc).trans_le hb
  cases h with
  | decimal d ds hd hds => exact hlt (by decide) hds
  | octal ds hds => exact (hlt (by decide) hds).cons (by decide)
  | hex x d ds hx hds =>
    refine ((hlt (by decide) hds).cons ?_).cons (by decide)
    rcases hx with rfl | rfl <;> decide

theorem strchr_append {ds : List Char} {c : Char} (hds : c ∉ ds) (rest : List Char) :
    strchr (ds ++ c :: rest) c = some (c :: rest) := by
  have hdrop : (ds ++ c :: rest).dropWhile (· ≠ c) = c :: rest := by
    rw [List.dropWhile_append_of_pos fun a ha => by simpa using ne_of_mem_of_not_mem ha hds]
    simp
  rw [strchr, hdrop]

theorem strchr_eq_none {s : List Char} {c : Char} (h : c ∉ s) : strchr s c = none := by
  have hdrop : s.dropWhile (· ≠ c) = [] := by
    rw [List.dropWhile_eq_nil_iff]
    intro a ha
    simpa using ne_of_mem_of_not_mem ha h
  rw [strchr, hdrop]

theorem Number.not_mem (n : Number) {c : Char} (hc : 36 ≤ digitVal c) : c ∉ n.text :=
  fun h => absurd (CNumber.alnum n.number c h) (by omega)

theorem Number.ne_nil (n : Number) : n.text ≠ [] := by
  obtain ⟨d, ds, h, -⟩ := n.number.head
  simp [h]

/-- Numbers are read through `strtoll`, so none is larger than `LLONG_MAX`. -/
theorem parseNumber_number (n : Number) {rest : List Char} (hrest : Stops 36 rest) :
    parseNumber (n.text ++ rest) = .ok (min n.val (2 ^ 63 - 1)) := by
  have hval : (strtoll (n.text ++ rest) % 2 ^ 64).toNat = min n.val (2 ^ 63 - 1) := by
    rw [n.number.strtoll hrest]
    omega
  rw [parseNumber]
  simp only [hval]
  rw [if_neg]
  rintro ⟨hzero, hhead⟩
  have h₀ : n.text.head? = some '0' := n.number.zero (by omega)
  rw [List.head?_append_of_ne_nil _ n.ne_nil] at hhead
  exact hhead h₀

/-- The documented forms of an `-a` argument. -/
inductive AddrSpec
  | one (n : Number)
  | length (n m : Number)
  | range (n m : Number)
  | «from» (n : Number)
  | upto (m : Number)

def AddrSpec.text : AddrSpec → List Char
  | .one n => n.text
  | .length n m => n.text ++ '+' :: m.text
  | .range n m => n.text ++ ',' :: m.text
  | .from n => n.text ++ [',']
  | .upto m => ',' :: m.text

/-- The page frames the usage text gives a form. -/
def AddrSpec.Covers (p : Nat) : AddrSpec → Prop
  | .one n => p = n.val
  | .length n m => n.val ≤ p ∧ p < n.val + m.val
  | .range n m => n.val ≤ p ∧ p < m.val
  | .from n => n.val ≤ p
  | .upto m => p < m.val

instance (p : Nat) : (a : AddrSpec) → Decidable (a.Covers p)
  | .one n => inferInstanceAs (Decidable (p = n.val))
  | .length n m => inferInstanceAs (Decidable (n.val ≤ p ∧ p < n.val + m.val))
  | .range n m => inferInstanceAs (Decidable (n.val ≤ p ∧ p < m.val))
  | .from n => inferInstanceAs (Decidable (n.val ≤ p))
  | .upto m => inferInstanceAs (Decidable (p < m.val))

def AddrSpec.Below (bound : Nat) : AddrSpec → Prop
  | .one n | .from n | .upto n => n.val < bound
  | .length n m => n.val < bound ∧ m.val < bound
  | .range n m => n.val ≤ m.val ∧ m.val < bound

/-- The offset and the size that the forms stand for, before `add_addr_range`. -/
def AddrSpec.bounds : AddrSpec → Nat × Nat
  | .one n => (n.val, 1)
  | .length n m => (n.val, m.val)
  | .range n m => (n.val, m.val - n.val)
  | .from n => (n.val, ulongMax)
  | .upto m => (0, m.val)

theorem stops_cons {base : Nat} {c : Char} (rest : List Char) (hc : base ≤ digitVal c) :
    Stops base (c :: rest) := by
  intro c' hc'
  obtain rfl : c = c' := by simpa using hc'
  exact hc

theorem parseNumber_below (n : Number) (hn : n.val < 2 ^ 60) {rest : List Char}
    (hrest : Stops 36 rest) : parseNumber (n.text ++ rest) = .ok n.val := by
  rw [parseNumber_number n hrest, Nat.min_eq_left (by omega)]

theorem append_ne_self {α : Type*} {ds rest : List α} (h : ds ≠ []) : rest ≠ ds ++ rest := by
  intro heq
  have := congrArg List.length heq
  rw [List.length_append] at this
  exact h (List.eq_nil_of_length_eq_zero (by omega))

theorem parseAddrRange_spec (opts : Options) (a : AddrSpec) (ha : a.Below (2 ^ 60)) :
    parseAddrRange opts a.text = addAddrRange opts a.bounds.1 a.bounds.2 := by
  have hcomma : 36 ≤ digitVal ',' := by decide
  have hplus : 36 ≤ digitVal '+' := by decide
  cases a with
  | one n =>
    have hnum := parseNumber_below n ha (Stops.nil 36)
    rw [List.append_nil] at hnum
    rw [parseAddrRange, AddrSpec.text, strchr_eq_none (n.not_mem hcomma),
      strchr_eq_none (n.not_mem hplus)]
    simp [hnum, AddrSpec.bounds, bind, Except.bind]
  | length n m =>
    have hn := parseNumber_below n ha.1 (stops_cons m.text hplus)
    have hm := parseNumber_below m ha.2 (Stops.nil 36)
    rw [List.append_nil] at hm
    have hnone : ',' ∉ n.text ++ '+' :: m.text := by
      simp [n.not_mem hcomma, m.not_mem hcomma]
    rw [parseAddrRange, AddrSpec.text, strchr_eq_none hnone, strchr_append (n.not_mem hplus)]
    simp [hn, hm, append_ne_self n.ne_nil, m.ne_nil, AddrSpec.bounds, bind, Except.bind]
  | range n m =>
    obtain ⟨hle, hlt⟩ := ha
    have hn := parseNumber_below n (hle.trans_lt hlt) (stops_cons m.text hcomma)
    have hm := parseNumber_below m hlt (Stops.nil 36)
    rw [List.append_nil] at hm
    rw [parseAddrRange, AddrSpec.text, strchr_append (n.not_mem hcomma)]
    simp [hn, hm, append_ne_self n.ne_nil, m.ne_nil, hle.not_gt, AddrSpec.bounds, bind,
      Except.bind]
  | «from» n =>
    have hn := parseNumber_below n ha (stops_cons [] hcomma)
    rw [parseAddrRange, AddrSpec.text, strchr_append (n.not_mem hcomma)]
    simp [hn, append_ne_self n.ne_nil, AddrSpec.bounds, bind, Except.bind]
  | upto m =>
    have hm := parseNumber_below m ha (Stops.nil 36)
    rw [List.append_nil] at hm
    have hfirst : strchr (',' :: m.text) ',' = some (',' :: m.text) :=
      strchr_append List.not_mem_nil m.text
    rw [parseAddrRange, AddrSpec.text, hfirst]
    simp [hm, AddrSpec.bounds, bind, Except.bind]

theorem AddrSpec.covers_iff {a : AddrSpec} (ha : a.Below (2 ^ 60)) {p : Nat} (hp : p < 2 ^ 60) :
    a.Covers p ↔ a.bounds.1 ≤ p ∧
      p < a.bounds.1 + min a.bounds.2 (ulongMax - a.bounds.1) := by
  cases a <;> simp only [AddrSpec.Covers, AddrSpec.bounds, AddrSpec.Below, ulongMax] at * <;>
    omega

end MceTest.PageTypes

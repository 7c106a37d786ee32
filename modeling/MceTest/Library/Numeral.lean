import Mathlib.Data.Nat.Digits.Defs
import Mathlib.Data.List.Induction
import Mathlib.Algebra.Group.Nat.Defs
import Mathlib.Tactic.SplitIfs

/-! Numerals in a positional system with the digits `0`-`9` and `a`-`z`, and the number
syntax of C. -/

namespace MceTest.Library.Numeral

/-- The value of a letter or digit; 36, which is no digit in any base, for the rest. -/
def digitVal (c : Char) : Nat :=
  if 48 ≤ c.toNat ∧ c.toNat ≤ 57 then c.toNat - 48
  else if 97 ≤ c.toNat ∧ c.toNat ≤ 122 then c.toNat - 87
  else if 65 ≤ c.toNat ∧ c.toNat ≤ 90 then c.toNat - 55
  else 36

def digitPrefix (base : Nat) (s : List Char) : List Char :=
  s.takeWhile fun c => digitVal c < base

def value (base : Nat) (ds : List Char) : Nat :=
  ds.foldl (fun n c => n * base + digitVal c) 0

def Digits (base : Nat) (ds : List Char) : Prop := ∀ c ∈ ds, digitVal c < base

instance (base : Nat) (ds : List Char) : Decidable (Digits base ds) := List.decidableBAll _ ds

@[simp] theorem value_nil (base : Nat) : value base [] = 0 := rfl

theorem value_concat (base : Nat) (ds : List Char) (c : Char) :
    value base (ds ++ [c]) = value base ds * base + digitVal c := by
  simp [value, List.foldl_append]

theorem value_zero_cons (base : Nat) (ds : List Char) :
    value base ('0' :: ds) = value base ds := by
  have : digitVal '0' = 0 := by decide
  simp [value, this]

theorem Digits.cons {base : Nat} {c : Char} {ds : List Char} (hc : digitVal c < base)
    (h : Digits base ds) : Digits base (c :: ds) := List.forall_mem_cons.mpr ⟨hc, h⟩

/-- What follows a numeral and does not belong to it. -/
def Stops (base : Nat) (rest : List Char) : Prop := ∀ c ∈ rest.head?, base ≤ digitVal c

theorem Stops.nil (base : Nat) : Stops base [] := by simp [Stops]

theorem Stops.mono {base base' : Nat} {rest : List Char} (hb : base ≤ base')
    (h : Stops base' rest) : Stops base rest := fun c hc => hb.trans (h c hc)

theorem digitPrefix_append {base : Nat} {ds rest : List Char} (hds : Digits base ds)
    (hrest : Stops base rest) : digitPrefix base (ds ++ rest) = ds := by
  rw [digitPrefix, List.takeWhile_append_of_pos (by simpa [Digits] using hds)]
  cases rest with
  | nil => simp
  | cons c rest =>
    have hc : base ≤ digitVal c := hrest c (by simp)
    rw [List.takeWhile_cons_of_neg (by simpa using hc), List.append_nil]

theorem digitVal_digitChar {d : Nat} (h : d < 16) : digitVal (Nat.digitChar d) = d := by
  have : ∀ d < 16, digitVal (Nat.digitChar d) = d := by decide
  exact this d h

theorem digits_toDigits {base : Nat} (hb : 1 < base) (hb' : base ≤ 16) (n : Nat) :
    Digits base (Nat.toDigits base n) := by
  induction n using Nat.strongRecOn with
  | ind n ih =>
    rw [Nat.toDigits_eq_if hb]
    split
    · intro c hc
      obtain rfl : c = Nat.digitChar n := by simpa using hc
      rw [digitVal_digitChar (by omega)]
      assumption
    · intro c hc
      rcases List.mem_append.mp hc with hc | hc
      · exact ih (n / base) (Nat.div_lt_self (by omega) hb) c hc
      · obtain rfl : c = Nat.digitChar (n % base) := by simpa using hc
        have hlt := Nat.mod_lt n (by omega : 0 < base)
        rw [digitVal_digitChar (by omega)]
        exact hlt

theorem value_toDigits {base : Nat} (hb : 1 < base) (hb' : base ≤ 16) (n : Nat) :
    value base (Nat.toDigits base n) = n := by
  induction n using Nat.strongRecOn with
  | ind n ih =>
    rw [Nat.toDigits_eq_if hb]
    split
    · rename_i hn
      rw [← List.nil_append [Nat.digitChar n], value_concat, digitVal_digitChar (by omega)]
      simp
    · have hlt := Nat.mod_lt n (by omega : 0 < base)
      rw [value_concat, ih (n / base) (Nat.div_lt_self (by omega) hb),
        digitVal_digitChar (by omega)]
      exact Nat.div_add_mod' n base

theorem toDigits_injective {base : Nat} (hb : 1 < base) (hb' : base ≤ 16) :
    Function.Injective (Nat.toDigits base) :=
  Function.LeftInverse.injective (value_toDigits hb hb')

def isSpace (c : Char) : Bool := c = ' ' ∨ 9 ≤ c.toNat ∧ c.toNat ≤ 13

def radix : List Char → Nat × List Char
  | '0' :: x :: d :: s =>
    if (x = 'x' ∨ x = 'X') ∧ digitVal d < 16 then (16, d :: s) else (8, '0' :: x :: d :: s)
  | '0' :: s => (8, '0' :: s)
  | s => (10, s)

def unsignedPart (s : List Char) : Nat :=
  let r := radix s
  value r.1 (digitPrefix r.1 r.2)

/-- The number at the start of a text, base 0: blanks, a sign, a prefix and digits. -/
def signedPart (s : List Char) : Int :=
  match s.dropWhile isSpace with
  | '-' :: s => -(unsignedPart s : Int)
  | '+' :: s => unsignedPart s
  | s => unsignedPart s

/-- `strtoll` with base 0: out of range it yields the bound that is exceeded. -/
def strtoll (s : List Char) : Int := max (-2 ^ 63) (min (2 ^ 63 - 1) (signedPart s))

/-- `strtol` with base 10. -/
def strtolDecimal (s : List Char) : Int :=
  let decimal (s : List Char) : Int := value 10 (digitPrefix 10 s)
  let n := match s.dropWhile isSpace with
    | '-' :: s => -decimal s
    | '+' :: s => decimal s
    | s => decimal s
  max (-2 ^ 63) (min (2 ^ 63 - 1) n)

/-- `strtoull` with base 0; a minus sign negates in the unsigned type. -/
def strtoull (s : List Char) : Nat :=
  let n := signedPart s
  if n.natAbs ≥ 2 ^ 64 then 2 ^ 64 - 1 else (n % 2 ^ 64).toNat

/-- The C-style numbers: decimal, octal and hexadecimal. -/
inductive CNumber : List Char → Nat → Prop
  | decimal (d : Char) (ds : List Char) (hd : d ≠ '0') (hds : Digits 10 (d :: ds)) :
    CNumber (d :: ds) (value 10 (d :: ds))
  | octal (ds : List Char) (hds : Digits 8 ds) : CNumber ('0' :: ds) (value 8 ds)
  | hex (x d : Char) (ds : List Char) (hx : x = 'x' ∨ x = 'X') (hds : Digits 16 (d :: ds)) :
    CNumber ('0' :: x :: d :: ds) (value 16 (d :: ds))

theorem radix_decimal {d : Char} (hd : d ≠ '0') (s : List Char) :
    radix (d :: s) = (10, d :: s) := by
  unfold radix
  split
  · simp_all
  · simp_all
  · rfl

theorem radix_octal {s : List Char} (h : ∀ c ∈ s.head?, c ≠ 'x' ∧ c ≠ 'X') :
    radix ('0' :: s) = (8, '0' :: s) := by
  match s with
  | [] => rfl
  | [_] => rfl
  | x :: d :: s =>
    have hx := h x (by simp)
    simp [radix, hx.1, hx.2]

theorem CNumber.unsignedPart {text : List Char} {n : Nat} (h : CNumber text n)
    {rest : List Char} (hrest : Stops 36 rest) : unsignedPart (text ++ rest) = n := by
  cases h with
  | decimal d ds hd hds =>
    rw [Numeral.unsignedPart, List.cons_append, radix_decimal hd]
    change value 10 (digitPrefix 10 ((d :: ds) ++ rest)) = _
    rw [digitPrefix_append hds (hrest.mono (by decide))]
  | octal ds hds =>
    have hhead : ∀ c ∈ (ds ++ rest).head?, c ≠ 'x' ∧ c ≠ 'X' := by
      intro c hc
      have hval : digitVal c < 8 ∨ 36 ≤ digitVal c := by
        cases ds with
        | nil => exact Or.inr (hrest c hc)
        | cons d ds => exact Or.inl (hds c (by simp at hc; simp [hc]))
      constructor
      · rintro rfl
        revert hval
        decide
      · rintro rfl
        revert hval
        decide
    rw [Numeral.unsignedPart, List.cons_append, radix_octal hhead]
    change value 8 (digitPrefix 8 (('0' :: ds) ++ rest)) = _
    rw [digitPrefix_append (hds.cons (by decide)) (hrest.mono (by decide)), value_zero_cons]
  | hex x d ds hx hds =>
    have hd : digitVal d < 16 := hds d (by simp)
    have hradix : radix ('0' :: x :: d :: ds ++ rest) = (16, (d :: ds) ++ rest) := by
      simp only [List.cons_append, radix]
      rw [if_pos ⟨hx, hd⟩]
    rw [Numeral.unsignedPart, hradix]
    change value 16 (digitPrefix 16 ((d :: ds) ++ rest)) = _
    rw [digitPrefix_append hds (hrest.mono (by decide))]

theorem CNumber.head {text : List Char} {n : Nat} (h : CNumber text n) :
    ∃ d ds, text = d :: ds ∧ digitVal d < 10 := by
  cases h with
  | decimal d ds hd hds => exact ⟨d, ds, rfl, hds d (by simp)⟩
  | octal ds hds => exact ⟨'0', ds, rfl, by decide⟩
  | hex x d ds hx hds => exact ⟨'0', x :: d :: ds, rfl, by decide⟩

theorem toNat_of_digitVal {c : Char} (h : digitVal c < 10) : 48 ≤ c.toNat ∧ c.toNat ≤ 57 := by
  unfold digitVal at h
  split at h
  · assumption
  · split at h
    · omega
    · split at h <;> omega

theorem signedPart_of_digit {d : Char} {s : List Char} (hd : digitVal d < 16) :
    signedPart (d :: s) = unsignedPart (d :: s) := by
  have hspace : isSpace d = false := by
    rw [isSpace, decide_eq_false_iff_not]
    rintro (rfl | ⟨-, hle⟩)
    · exact absurd hd (by decide)
    · unfold digitVal at hd
      split at hd
      · omega
      · split at hd
        · omega
        · split at hd <;> omega
  rw [signedPart, List.dropWhile_cons_of_neg (by simp [hspace])]
  split
  · rename_i heq
    cases heq
    exact absurd hd (by decide)
  · rename_i heq
    cases heq
    exact absurd hd (by decide)
  · rfl

theorem CNumber.signedPart {text : List Char} {n : Nat} (h : CNumber text n)
    {rest : List Char} (hrest : Stops 36 rest) : signedPart (text ++ rest) = n := by
  have hval := h.unsignedPart hrest
  obtain ⟨d, ds, rfl, hd⟩ := h.head
  rw [List.cons_append] at hval ⊢
  rw [signedPart_of_digit (by omega), hval]

theorem CNumber.strtoll {text : List Char} {n : Nat} (h : CNumber text n)
    {rest : List Char} (hrest : Stops 36 rest) :
    strtoll (text ++ rest) = (min n (2 ^ 63 - 1) : Nat) := by
  rw [Numeral.strtoll, h.signedPart hrest]
  omega

theorem value_pos {base : Nat} (hb : 0 < base) {d : Char} (hd : 0 < digitVal d)
    (ds : List Char) : 0 < value base (d :: ds) := by
  induction ds using List.reverseRecOn with
  | nil => simpa [value] using hd
  | append_singleton ds c ih =>
    rw [← List.cons_append, value_concat]
    exact Nat.add_pos_left (Nat.mul_pos ih hb) _

theorem digitVal_pos {d : Char} (hd : d ≠ '0') (h : digitVal d < 10) : 0 < digitVal d := by
  obtain ⟨hlo, hhi⟩ := toNat_of_digitVal h
  have hne : d.toNat ≠ '0'.toNat := fun heq => hd (Char.toNat_inj.mp heq)
  have h48 : '0'.toNat = 48 := rfl
  rw [digitVal, if_pos ⟨hlo, hhi⟩]
  omega

theorem CNumber.zero {text : List Char} {n : Nat} (h : CNumber text n) (hn : n = 0) :
    text.head? = some '0' := by
  cases h with
  | decimal d ds hd hds =>
    have := value_pos (by decide : 0 < 10) (digitVal_pos hd (hds d (by simp))) ds
    omega
  | octal ds hds => rfl
  | hex x d ds hx hds => rfl

theorem CNumber.unique {text : List Char} {n m : Nat} (h : CNumber text n)
    (h' : CNumber text m) : n = m := by
  rw [← h.unsignedPart (Stops.nil 36), ← h'.unsignedPart (Stops.nil 36)]

theorem CNumber.strtoull {text : List Char} {n : Nat} (h : CNumber text n) :
    strtoull text = min n (2 ^ 64 - 1) := by
  have hval := h.signedPart (Stops.nil 36)
  rw [List.append_nil] at hval
  simp only [Numeral.strtoull, hval]
  split <;> omega

theorem digitChar_ne_zero {d : Nat} (h₀ : d ≠ 0) (h : d < 16) : Nat.digitChar d ≠ '0' := by
  have : ∀ d < 16, d ≠ 0 → Nat.digitChar d ≠ '0' := by decide
  exact this d h h₀

theorem toDigits_head {base : Nat} (hb : 1 < base) (hb' : base ≤ 16) {n : Nat} (hn : n ≠ 0) :
    ∃ d ds, Nat.toDigits base n = d :: ds ∧ d ≠ '0' := by
  induction n using Nat.strongRecOn with
  | ind n ih =>
    rw [Nat.toDigits_eq_if hb]
    split
    · exact ⟨_, [], rfl, digitChar_ne_zero hn (by omega)⟩
    · rename_i hge
      have hpos : 0 < n / base := Nat.div_pos (by omega) (by omega)
      obtain ⟨d, ds, htext, hd⟩ := ih (n / base) (Nat.div_lt_self (by omega) hb) hpos.ne'
      exact ⟨d, ds ++ _, by rw [htext]; rfl, hd⟩

theorem cNumber_decimal (n : Nat) : CNumber (Nat.toDigits 10 n) n := by
  by_cases hn : n = 0
  · subst hn
    exact .octal [] (by decide)
  · obtain ⟨d, ds, htext, hd⟩ := toDigits_head (by decide : 1 < 10) (by decide) hn
    have hds := digits_toDigits (by decide : 1 < 10) (by decide) n
    have hval := value_toDigits (by decide : 1 < 10) (by decide) n
    rw [htext] at hds hval ⊢
    exact hval ▸ .decimal d ds hd hds

theorem digitVal_toUpper (c : Char) : digitVal c.toUpper = digitVal c := by
  by_cases h : c.val ≥ 'a'.val ∧ c.val ≤ 'z'.val
  · have hlo : 97 ≤ c.toNat := h.1
    have hhi : c.toNat ≤ 122 := h.2
    have hupper : c.toUpper.toNat = c.toNat - 32 := by
      have hval : c.toUpper.val = c.val + ('A'.val - 'a'.val) := by
        delta Char.toUpper
        rw [dif_pos h]
      have hshift : ('A'.val - 'a'.val).toNat = 2 ^ 32 - 32 := rfl
      change c.toUpper.val.toNat = _
      rw [hval, UInt32.toNat_add, hshift]
      change (c.toNat + _) % _ = _
      omega
    simp only [digitVal, hupper]
    split_ifs <;> omega
  · have hsame : c.toUpper = c := by
      delta Char.toUpper
      rw [dif_neg h]
    rw [hsame]

theorem value_map_toUpper (base : Nat) (ds : List Char) :
    value base (ds.map Char.toUpper) = value base ds := by
  rw [value, List.foldl_map]
  simp only [digitVal_toUpper]
  rfl

theorem Digits.map_toUpper {base : Nat} {ds : List Char} (h : Digits base ds) :
    Digits base (ds.map Char.toUpper) := by
  intro c hc
  obtain ⟨d, hd, rfl⟩ := List.mem_map.mp hc
  rw [digitVal_toUpper]
  exact h d hd

theorem toDigits_shift {b n : Nat} (hb : 1 < b) (hn : 0 < n) (k : Nat) :
    Nat.toDigits b (n * b ^ k) = Nat.toDigits b n ++ List.replicate k '0' := by
  induction k with
  | zero => rw [Nat.pow_zero, Nat.mul_one, List.replicate_zero, List.append_nil]
  | succ k ih =>
    have hpos : 0 < n * b ^ k := Nat.mul_pos hn (Nat.pow_pos (by omega))
    rw [List.replicate_succ', ← List.append_assoc, ← ih, Nat.pow_succ, ← Nat.mul_assoc,
      Nat.mul_comm _ b]
    have happend := Nat.toDigits_append_toDigits hb hpos (Nat.zero_lt_of_lt hb)
    rw [Nat.add_zero, Nat.toDigits_zero] at happend
    exact happend.symm

theorem value_zeros (base : Nat) (ds : List Char) (k : Nat) :
    value base (ds ++ List.replicate k '0') = value base ds * base ^ k := by
  induction k with
  | zero => rw [Nat.pow_zero, Nat.mul_one, List.replicate_zero, List.append_nil]
  | succ k ih =>
    have hzero : digitVal '0' = 0 := by decide
    rw [List.replicate_succ', ← List.append_assoc, value_concat, ih, hzero, Nat.add_zero,
      Nat.pow_succ, Nat.mul_assoc]

theorem cNumber_of_hex {ds : List Char} (hne : ds ≠ []) (hds : Digits 16 ds) :
    CNumber ('0' :: 'x' :: ds) (value 16 ds) := by
  obtain ⟨d, ds, rfl⟩ := List.exists_cons_of_ne_nil hne
  exact .hex 'x' d ds (Or.inl rfl) hds

theorem cNumber_hex (n : Nat) : CNumber ('0' :: 'x' :: Nat.toDigits 16 n) n := by
  have h := cNumber_of_hex Nat.toDigits_ne_nil (digits_toDigits (by decide) (by decide) n)
  rwa [value_toDigits (by decide) (by decide)] at h

theorem cNumber_hex_zeros (n k : Nat) :
    CNumber ('0' :: 'x' :: (Nat.toDigits 16 n ++ List.replicate k '0')) (n * 16 ^ k) := by
  have hds : Digits 16 (Nat.toDigits 16 n ++ List.replicate k '0') := by
    refine List.forall_mem_append.mpr ⟨digits_toDigits (by decide) (by decide) n, fun c hc => ?_⟩
    rw [List.eq_of_mem_replicate hc]
    decide
  have h := cNumber_of_hex (List.append_ne_nil_of_left_ne_nil Nat.toDigits_ne_nil _) hds
  rwa [value_zeros, value_toDigits (by decide) (by decide)] at h

/-- A hexadecimal number in capital letters, as `bc` writes it. -/
theorem cNumber_hex_upper (n : Nat) :
    CNumber ('0' :: 'x' :: (Nat.toDigits 16 n).map Char.toUpper) n := by
  have hne : (Nat.toDigits 16 n).map Char.toUpper ≠ [] :=
    mt List.map_eq_nil_iff.mp Nat.toDigits_ne_nil
  have h := cNumber_of_hex hne (digits_toDigits (by decide) (by decide) n).map_toUpper
  rwa [value_map_toUpper, value_toDigits (by decide) (by decide)] at h

theorem strtolDecimal_toDigits {n : Nat} (hn : n < 2 ^ 63) {rest : List Char}
    (hrest : Stops 10 rest) : strtolDecimal (Nat.toDigits 10 n ++ rest) = n := by
  have hds := digits_toDigits (by decide : 1 < 10) (by decide) n
  have hread := digitPrefix_append hds hrest
  have hvalue := value_toDigits (by decide : 1 < 10) (by decide) n
  obtain ⟨d, ds, htext, hd⟩ := (cNumber_decimal n).head
  rw [htext] at hread hvalue ⊢
  obtain ⟨hlo, hhi⟩ := toNat_of_digitVal hd
  have hspace : isSpace d = false := by
    rw [isSpace, decide_eq_false_iff_not]
    rintro (rfl | ⟨-, hle⟩)
    · exact absurd hlo (by decide)
    · omega
  have hdrop : (d :: ds ++ rest).dropWhile isSpace = d :: (ds ++ rest) :=
    List.dropWhile_cons_of_neg (by simp [hspace])
  rw [strtolDecimal, hdrop]
  split
  · rename_i heq
    cases heq
    exact absurd hlo (by decide)
  · rename_i heq
    cases heq
    exact absurd hlo (by decide)
  · dsimp only
    rw [← List.cons_append, hread, hvalue]
    omega

end MceTest.Library.Numeral

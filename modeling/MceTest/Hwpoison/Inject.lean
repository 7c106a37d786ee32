import MceTest.Library.Grep
import MceTest.Library.Numeral
import MceTest.PageTypes.Show
import Mathlib.Data.List.Forall2
import Mathlib.Data.List.TakeWhile
import Mathlib.Data.Int.DivMod
import Mathlib.Data.List.Infix

/-! The injection back-ends of `hwpoison.sh` and the loop over the page list. -/

namespace MceTest.Hwpoison

open MceTest.Library MceTest.Library.Numeral MceTest.PageTypes

def intText : Int → List Char
  | .ofNat n => decText n
  | .negSucc n => '-' :: decText (n + 1)

/-- `printf "%i"`: an argument that is no number counts for its longest valid prefix. -/
def printfI (arg : List Char) : List Char := intText (strtoll arg)

def printfX (arg : List Char) : List Char := hexText (strtoull arg)

/-- The product of a shell `let`, in 64-bit signed arithmetic. -/
def letMul (i : List Char) (pgsize : Nat) : Int := (strtoll i * pgsize).bmod (2 ^ 64)

inductive File
  | corruptPfn | softOfflinePage | errorType | param1 | errorInject
  deriving DecidableEq

abbrev Write := File × List Char

def pfnHwpoison (pfn : List Char) : List Write := [(.corruptPfn, pfn)]

def pfnSoftOffline (pgsize : Nat) (pfn : List Char) : List Write :=
  let i := printfI pfn
  let j := letMul i pgsize
  let paddr := '0' :: 'x' :: printfX (intText j)
  [(.softOfflinePage, paddr)]

def apeiInj (pg type : List Char) : List Write :=
  let pfn := printfX pg
  [(.errorType, type), (.param1, '0' :: 'x' :: pfn ++ ['0', '0', '0']), (.errorInject, ['1'])]

def apeiMemUcr (pg : List Char) : List Write := apeiInj pg ['0', 'x', '1', '0']

inductive Backend
  | hwpoison | softOffline | apei

/-- The body of the page loop in `pfn_inj` and in `apei_inj`. -/
def Backend.inject (pgsize : Nat) (pg : List Char) : Backend → List Write
  | .hwpoison => pfnHwpoison ('0' :: 'x' :: pg)
  | .softOffline => pfnSoftOffline pgsize ('0' :: 'x' :: pg)
  | .apei => apeiMemUcr pg

/-- The file that takes the address or the frame number. -/
def Backend.file : Backend → File
  | .hwpoison => .corruptPfn
  | .softOffline => .softOfflinePage
  | .apei => .param1

def Backend.address (p : Nat) : Backend → Nat
  | .hwpoison => p
  | .softOffline | .apei => p * 4096

/-- The page loop: every `progress` pages it reads the clock and may stop. -/
def pageLoop (inject : List Char → List Write) (progress timeE : Nat) (clock : Nat → Nat) :
    Nat → Nat → List (List Char) → List Write
  | _, _, [] => []
  | reading, i, pg :: rest =>
    inject pg ++
      if i + 1 = progress then
        if clock reading ≥ timeE then []
        else pageLoop inject progress timeE clock (reading + 1) 0 rest
      else pageLoop inject progress timeE clock reading (i + 1) rest

/-- `grep -v offset | cut -f1` on the lines of a listing. -/
def pgList (lines : List (List Char)) : List (List Char) :=
  (lines.filter fun line => ¬ "offset".toList <:+: line).map (·.takeWhile (· ≠ '\t'))

structure Listed where
  pfn : Nat
  flags : Flags
  symbols : List Char
  shown : pageFlagName flags = .ok symbols

/-- The output of `page-types -NLr`, line by line. -/
def listing (pages : List Listed) : List (List Char) :=
  (Line.heading "offset\tflags\n" :: pages.map fun p => Line.page p.pfn p.pfn p.symbols).map
    fun line => (line.text false false).dropLast

def pass (b : Backend) (pgsize progress timeE : Nat) (clock : Nat → Nat)
    (pages : List Listed) : List Write :=
  pageLoop (fun pg => b.inject pgsize pg) progress timeE clock 0 0 (pgList (listing pages))

def Backend.written (b : Backend) (writes : List Write) : List (List Char) :=
  (writes.filter fun w => w.1 = b.file).map Prod.snd

/-- The numbers written denote the listed pages in order, up to a page after which the
time was over. -/
def Hits (b : Backend) (pages : List Listed) : Prop :=
  ∀ progress timeE clock, ∃ m, (m = pages.length ∨ ∃ k, timeE ≤ clock k) ∧
    List.Forall₂ CNumber (b.written (pass b 4096 progress timeE clock pages))
      ((pages.take m).map fun p => b.address p.pfn)

theorem pageLoop_eq (inject : List Char → List Write) (progress timeE : Nat)
    (clock : Nat → Nat) (reading i : Nat) (pgs : List (List Char)) :
    ∃ m, (m = pgs.length ∨ ∃ k, timeE ≤ clock k) ∧
      pageLoop inject progress timeE clock reading i pgs = (pgs.take m).flatMap inject := by
  induction pgs generalizing reading i with
  | nil => exact ⟨0, Or.inl rfl, rfl⟩
  | cons pg rest ih =>
    have hmore (reading i : Nat) : ∃ m, (m = (pg :: rest).length ∨ ∃ k, timeE ≤ clock k) ∧
        inject pg ++ pageLoop inject progress timeE clock reading i rest =
          ((pg :: rest).take m).flatMap inject := by
      obtain ⟨m, hm, heq⟩ := ih reading i
      refine ⟨m + 1, hm.imp_left (by simp [·]), ?_⟩
      rw [heq, List.take_succ_cons, List.flatMap_cons]
    rw [pageLoop]
    split
    · split
      · rename_i hstop
        exact ⟨1, Or.inr ⟨reading, hstop⟩, by simp⟩
      · exact hmore (reading + 1) 0
    · exact hmore reading (i + 1)

theorem names_symbol : ∀ e ∈ pageFlagNames, e.2.headD '_' ≠ 'e' := by decide

theorem flagName_mem {i : Nat} {name : List Char} (h : flagName? i = some name) :
    (i, name) ∈ pageFlagNames := by
  obtain ⟨l, l', heq, -⟩ := List.lookup_eq_some_iff.mp h
  rw [heq]
  simp

theorem symbols_no_e {flags : Flags} {i n : Nat} {symbols : List Char}
    (h : pageFlagNameLoop flags i n = .ok symbols) : 'e' ∉ symbols := by
  induction n generalizing i symbols with
  | zero =>
    cases h
    simp
  | succ n ih =>
    rw [pageFlagNameLoop] at h
    cases hname : flagName? i with
    | none =>
      rw [hname] at h
      dsimp only at h
      split at h
      · cases h
      · exact ih h
    | some name =>
      cases hrest : pageFlagNameLoop flags (i + 1) n with
      | error e =>
        rw [hname, hrest] at h
        cases h
      | ok rest =>
        rw [hname, hrest] at h
        cases h
        rw [List.mem_cons, not_or]
        refine ⟨?_, ih hrest⟩
        split
        · exact (names_symbol _ (flagName_mem hname)).symm
        · decide

theorem Listed.no_e (p : Listed) : 'e' ∉ p.symbols := by
  have h := p.shown
  rw [pageFlagName] at h
  exact symbols_no_e h

theorem hexText_digits (n : Nat) : Digits 16 (hexText n) :=
  digits_toDigits (by decide) (by decide) n

theorem not_offset {p : Nat} {symbols : List Char} (hs : 'e' ∉ symbols) :
    ¬ "offset".toList <:+: hexText p ++ '\t' :: symbols := by
  rw [Grep.infix_split (by decide) (by decide)]
  rintro (hhex | hsym)
  · have := hexText_digits p 'o' (hhex.subset (by decide))
    revert this
    decide
  · exact hs (hsym.subset (by decide))

theorem pgList_listing (pages : List Listed) :
    pgList (listing pages) = pages.map fun p => hexText p.pfn := by
  have hline (p : Listed) : ((Line.page p.pfn p.pfn p.symbols).text false false).dropLast =
      hexText p.pfn ++ '\t' :: p.symbols := by
    rw [Line.text.eq_def]
    exact List.dropLast_concat
  have hhead : ¬ ¬ "offset".toList <:+:
      ((Line.heading "offset\tflags\n").text false false).dropLast := by
    rw [Line.text.eq_def]
    decide
  have hcut (p : Listed) : (hexText p.pfn ++ '\t' :: p.symbols).takeWhile (· ≠ '\t') =
      hexText p.pfn := by
    have hhex : ∀ c ∈ hexText p.pfn, c ≠ '\t' := by
      rintro c hc rfl
      have := hexText_digits p.pfn _ hc
      revert this
      decide
    rw [List.takeWhile_append_of_pos (by simpa using hhex)]
    simp
  rw [listing, List.map_cons, pgList, List.filter_cons_of_neg (by exact mt of_decide_eq_true hhead)]
  induction pages with
  | nil => rfl
  | cons p pages ih =>
    rw [List.map_cons, List.map_cons, hline,
      List.filter_cons_of_pos (by exact decide_eq_true (not_offset p.no_e)), List.map_cons,
      hcut, ih, List.map_cons]

/-- The text a back-end writes for an entry of the page list. -/
def Backend.addressText (pg : List Char) : Backend → List Char
  | .hwpoison => '0' :: 'x' :: pg
  | .softOffline =>
    '0' :: 'x' :: printfX (intText (letMul (printfI ('0' :: 'x' :: pg)) 4096))
  | .apei => '0' :: 'x' :: printfX pg ++ ['0', '0', '0']

theorem written_pass (b : Backend) (progress timeE : Nat) (clock : Nat → Nat)
    (pages : List Listed) :
    ∃ m, (m = pages.length ∨ ∃ k, timeE ≤ clock k) ∧
      b.written (pass b 4096 progress timeE clock pages) =
        (pages.take m).map fun p => b.addressText (hexText p.pfn) := by
  obtain ⟨m, hm, heq⟩ := pageLoop_eq (fun pg => b.inject 4096 pg) progress timeE clock 0 0
    (pgList (listing pages))
  have hone (pg : List Char) :
      ((b.inject 4096 pg).filter fun w => w.1 = b.file).map Prod.snd = [b.addressText pg] := by
    cases b <;> rfl
  rw [pgList_listing, List.length_map] at hm
  refine ⟨m, hm, ?_⟩
  rw [pass, heq, pgList_listing, Backend.written, List.filter_flatMap, List.map_flatMap,
    ← List.map_take, List.flatMap_map]
  simp only [hone]
  exact List.map_eq_flatMap.symm

theorem hits_iff (b : Backend) (pages : List Listed) :
    Hits b pages ↔ ∀ p ∈ pages, CNumber (b.addressText (hexText p.pfn)) (b.address p.pfn) := by
  constructor
  · intro h
    -- a clock that never strikes lets the loop finish
    obtain ⟨m, hm, hwritten⟩ := h 0 1 fun _ => 0
    obtain ⟨m', hm', heq⟩ := written_pass b 0 1 (fun _ => 0) pages
    have hfull (n : Nat) (hn : n = pages.length ∨ ∃ _ : Nat, 1 ≤ 0) : n = pages.length :=
      hn.resolve_right (by simp)
    rw [heq, hfull m hm, hfull m' hm', List.take_length, List.forall₂_map_left_iff,
      List.forall₂_map_right_iff, List.forall₂_same] at hwritten
    exact hwritten
  · intro h progress timeE clock
    obtain ⟨m, hm, heq⟩ := written_pass b progress timeE clock pages
    refine ⟨m, hm, ?_⟩
    rw [heq, List.forall₂_map_left_iff, List.forall₂_map_right_iff, List.forall₂_same]
    exact fun p hp => h p (List.mem_of_mem_take hp)

theorem hits_hwpoison (pages : List Listed) : Hits .hwpoison pages :=
  (hits_iff _ _).mpr fun p _ => cNumber_hex p.pfn

theorem intText_natCast (n : Nat) : intText n = decText n := rfl

theorem strtoll_of_cNumber {text : List Char} {n : Nat} (h : CNumber text n)
    (hn : n < 2 ^ 63) : strtoll text = n := by
  have := h.strtoll (Stops.nil 36)
  rw [List.append_nil] at this
  rw [this]
  omega

theorem softOffline_address {p : Nat} (hp : p * 4096 < 2 ^ 63) :
    CNumber (Backend.softOffline.addressText (hexText p)) (p * 4096) := by
  have hi : strtoll (printfI ('0' :: 'x' :: hexText p)) = p := by
    have hhex : CNumber ('0' :: 'x' :: hexText p) p := cNumber_hex p
    rw [printfI, strtoll_of_cNumber hhex (by omega), intText_natCast]
    exact strtoll_of_cNumber (cNumber_decimal p) (by omega)
  have hj : letMul (printfI ('0' :: 'x' :: hexText p)) 4096 = (p * 4096 : Nat) := by
    rw [letMul, hi]
    exact Int.bmod_eq_of_le (by omega) (by omega)
  have hx : printfX (intText (p * 4096 : Nat)) = hexText (p * 4096) := by
    rw [printfX, intText_natCast, decText, (cNumber_decimal (p * 4096)).strtoull,
      Nat.min_eq_left (by omega)]
  rw [Backend.addressText, hj, hx]
  exact cNumber_hex (p * 4096)

theorem hits_softOffline {pages : List Listed} (h : ∀ p ∈ pages, p.pfn * 4096 < 2 ^ 63) :
    Hits .softOffline pages :=
  (hits_iff _ _).mpr fun p hp => softOffline_address (h p hp)

def decimalPrefix (n : Nat) : Nat := value 10 (digitPrefix 10 (hexText n))

theorem digitPrefix_eq_self {ds : List Char} (h : Digits 10 ds) : digitPrefix 10 ds = ds := by
  simpa using digitPrefix_append h (Stops.nil 10)

theorem decimalPrefix_small {n : Nat} (hn : n < 10) : decimalPrefix n = n := by
  have : ∀ n < 10, decimalPrefix n = n := by decide
  exact this n hn

theorem hexText_step {n : Nat} (hn : 16 ≤ n) :
    hexText n = hexText (n / 16) ++ [Nat.digitChar (n % 16)] := by
  rw [hexText, Nat.toDigits_eq_if (by decide), if_neg (by omega)]
  rfl

theorem decimalPrefix_step {n : Nat} (hn : 16 ≤ n) :
    decimalPrefix n = decimalPrefix (n / 16) ∨
      decimalPrefix n = decimalPrefix (n / 16) * 10 + n % 16 := by
  have hc := digitVal_digitChar (Nat.mod_lt n (by decide : 16 > 0))
  rw [decimalPrefix, decimalPrefix, hexText_step hn]
  generalize hexText (n / 16) = t
  by_cases ht : Digits 10 t
  · by_cases hlt : n % 16 < 10
    · right
      have hall : Digits 10 (t ++ [Nat.digitChar (n % 16)]) := by
        intro c hmem
        rcases List.mem_append.mp hmem with hmem | hmem
        · exact ht c hmem
        · obtain rfl : c = Nat.digitChar (n % 16) := by simpa using hmem
          omega
      rw [digitPrefix_eq_self hall, digitPrefix_eq_self ht, value_concat, hc]
    · left
      have hstop : Stops 10 [Nat.digitChar (n % 16)] := by
        intro c hmem
        obtain rfl : Nat.digitChar (n % 16) = c := by simpa using hmem
        omega
      rw [digitPrefix_append ht hstop, digitPrefix_eq_self ht]
  · left
    obtain ⟨c, hmem, hge⟩ : ∃ c ∈ t, ¬ digitVal c < 10 := by
      simpa [Digits] using ht
    rw [digitPrefix, digitPrefix, List.takeWhile_append]
    rw [if_neg]
    intro hlen
    have hself : t.takeWhile (fun c => digitVal c < 10) = t :=
      (List.takeWhile_prefix _).eq_of_length hlen
    have := List.mem_takeWhile_imp (hself.symm ▸ hmem)
    exact hge (by simpa using this)

theorem decimalPrefix_lt {n : Nat} (hn : 10 ≤ n) : decimalPrefix n < n := by
  have hbound : decimalPrefix n ≤ n ∧ (10 ≤ n → decimalPrefix n < n) := by
    clear hn
    induction n using Nat.strongRecOn with
    | ind n ih =>
      by_cases hsmall : n < 16
      · have : ∀ n < 16, decimalPrefix n ≤ n ∧ (10 ≤ n → decimalPrefix n < n) := by decide
        exact this n hsmall
      · have hstep := decimalPrefix_step (by omega : 16 ≤ n)
        have hle := (ih (n / 16) (by omega)).1
        omega
  exact hbound.2 hn

theorem printfX_hexText {p : Nat} (hp : p ≠ 0) :
    printfX (hexText p) = hexText (min (decimalPrefix p) (2 ^ 64 - 1)) := by
  obtain ⟨d, ds, htext, hd⟩ := toDigits_head (by decide : 1 < 16) (by decide) hp
  have hlt : digitVal d < 16 := by
    refine hexText_digits p d ?_
    rw [hexText, htext]
    simp
  have hsigned : signedPart (hexText p) = (decimalPrefix p : Nat) := by
    have hradix : unsignedPart (d :: ds) = value 10 (digitPrefix 10 (d :: ds)) := by
      rw [unsignedPart, radix_decimal hd]
    rw [decimalPrefix, hexText, htext, ← hradix]
    exact signedPart_of_digit hlt
  rw [printfX, strtoull, hsigned]
  congr 1
  split <;> omega

theorem cNumber_thousands (n : Nat) :
    CNumber ('0' :: 'x' :: hexText n ++ ['0', '0', '0']) (n * 4096) :=
  cNumber_hex_zeros n 3

theorem apei_address {p : Nat} (hp : p ≠ 0) :
    CNumber (Backend.apei.addressText (hexText p))
      (min (decimalPrefix p) (2 ^ 64 - 1) * 4096) := by
  rw [Backend.addressText, printfX_hexText hp]
  exact cNumber_thousands _

theorem apei_address_iff (p : Nat) :
    CNumber (Backend.apei.addressText (hexText p)) (p * 4096) ↔ p < 10 := by
  by_cases hp : p = 0
  · subst hp
    have hzero : printfX (hexText 0) = hexText 0 := by decide
    rw [Backend.addressText, hzero]
    exact iff_of_true (cNumber_thousands 0) (by decide)
  · have haddr := apei_address hp
    constructor
    · intro h
      have heq := h.unique haddr
      by_contra hge
      have := decimalPrefix_lt (Nat.le_of_not_lt hge)
      omega
    · intro hlt
      rw [decimalPrefix_small hlt, Nat.min_eq_left (by omega)] at haddr
      exact haddr

/-- The three back-ends hit the same pages exactly when no listed frame number needs a
second digit or a letter. -/
theorem backends_agree_iff (pages : List Listed) :
    (∀ b, Hits b pages) ↔ ∀ p ∈ pages, p.pfn < 10 := by
  constructor
  · intro h p hp
    exact (apei_address_iff p.pfn).mp ((hits_iff .apei pages).mp (h .apei) p hp)
  · intro h b
    cases b with
    | hwpoison => exact hits_hwpoison pages
    | softOffline => exact hits_softOffline fun p hp => by have := h p hp; omega
    | apei => exact (hits_iff _ _).mpr fun p hp => (apei_address_iff p.pfn).mpr (h p hp)

/-- Frame 16 is listed as `10`, and the address written is that of frame 10. -/
theorem backends_disagree_sixteen :
    ∃ page : Listed, page.pfn = 16 ∧ pgList (listing [page]) = [['1', '0']] ∧
      CNumber (Backend.apei.addressText ['1', '0']) (10 * 4096) ∧ ¬ Hits .apei [page] := by
  obtain ⟨symbols, shown⟩ := pageFlagName_ok named_zero
  refine ⟨⟨16, 0, symbols, shown⟩, rfl, ?_, apei_address (p := 16) (by decide), ?_⟩
  · rw [pgList_listing]
    change [hexText 16] = _
    decide
  · rw [hits_iff]
    intro h
    exact absurd ((apei_address_iff 16).mp (h _ (List.mem_singleton.mpr rfl))) (by decide)

end MceTest.Hwpoison

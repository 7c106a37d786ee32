import MceTest.Library.Mask
import MceTest.PageTypes.Walk

/-! The three programs that look a page up in `/proc/pid/pagemap`: `page-types`, `victim` and
`tinjpage`, and the address that `tinjpage` hands to `mce-inject`. -/

namespace MceTest.Pagemap

open MceTest.Library MceTest.Library.Numeral MceTest.PageTypes

def pageSize : Nat := 4096

/-- The entry at a byte offset of the file, if it can be read. -/
abbrev File := Nat → Option (BitVec 64)

/-- `struct pagemaps` of `victim`. -/
structure Pagemaps where
  pfn : BitVec 55
  pgshift : BitVec 6
  rsvd : BitVec 1
  swapped : BitVec 1
  present : BitVec 1

def Pagemaps.ofEntry (entry : BitVec 64) : Pagemaps where
  pfn := entry.extractLsb' 0 55
  pgshift := entry.extractLsb' 55 6
  rsvd := entry.extractLsb' 61 1
  swapped := entry.extractLsb' 62 1
  present := entry.extractLsb' 63 1

/-- The type a compiler gives to a bit-field that is wider than `int`: the declared one, or
an integer type of the width of the field. -/
inductive FieldType
  | declared | exact
  deriving DecidableEq

def FieldType.width : FieldType → Nat
  | .declared => 64
  | .exact => 55

def vtop (field : FieldType) (file : File) (addr : BitVec 64) : Nat :=
  match file (addr.toNat / pageSize * 8) with
  | none => 0
  | some entry =>
    (Pagemaps.ofEntry entry).pfn.toNat * pageSize % 2 ^ field.width |||
      (addr.toNat &&& (pageSize - 1))

/-- `page_to_pfn` leaves through `err` if it cannot read the entry. -/
def pageToPfn (file : File) (page : BitVec 64) : Option Nat :=
  (file (page.toNat / pageSize * 8)).map fun pfn => (pfn &&& (1#64 <<< 56) - 1).toNat

/-- `%#llx` -/
def altHexText (n : Nat) : List Char :=
  if n = 0 then ['0'] else '0' :: 'x' :: hexText n

def mceRecord (addr : Nat) : List (List Char) :=
  ["CPU 0 BANK 3 STATUS UNCORRECTED SRAO 0xc0".toList, "MCGSTATUS RIPV MCIP".toList,
    "ADDR ".toList ++ altHexText addr, "MISC 0x8c".toList, "RIP 0x73:0x1eadbabe".toList]

/-- What `inject_mce_inject` writes to `mce-inject`. -/
def injectMceInject (file : File) (page : BitVec 64) : Option (List (List Char)) :=
  (pageToPfn file page).map mceRecord

/-- The frame of a page: none unless it is present. -/
def frame (entry : BitVec 64) : Nat := if entry.getLsbD 63 then entry.toNat % 2 ^ 55 else 0

def Agree (field : FieldType) (file : File) (entry addr : BitVec 64) : Prop :=
  pagemapPfn entry = frame entry ∧ vtop field file addr / pageSize = frame entry ∧
    pageToPfn file addr = some (frame entry)

def pageOf (addr : BitVec 64) : BitVec 64 := BitVec.ofNat 64 (addr.toNat / pageSize * pageSize)

/-- `mce-inject` is given the physical address of the page. -/
def InjectsPage (field : FieldType) (file : File) (addr : BitVec 64) : Prop :=
  injectMceInject file (pageOf addr) = some (mceRecord (vtop field file (pageOf addr)))

instance (field : FieldType) (file : File) (entry addr : BitVec 64) :
    Decidable (Agree field file entry addr) := inferInstanceAs (Decidable (_ ∧ _ ∧ _))

instance (field : FieldType) (file : File) (addr : BitVec 64) :
    Decidable (InjectsPage field file addr) := inferInstanceAs (Decidable (_ = _))

theorem altHexText_number (n : Nat) : CNumber (altHexText n) n := by
  unfold altHexText
  split
  · rename_i hn
    rw [hn]
    exact .octal [] (by decide)
  · exact cNumber_hex n

theorem mceRecord_injective {n m : Nat} (h : mceRecord n = mceRecord m) : n = m := by
  have htext : altHexText n = altHexText m := by simpa [mceRecord] using h
  exact (altHexText_number n).unique (htext ▸ altHexText_number m)

theorem pmPframe_eq (entry : BitVec 64) : pmPframe entry = entry.toNat % 2 ^ 55 := by
  have hmask : ((1#64 <<< 55) - 1).toNat = 2 ^ 55 - 1 := by decide
  rw [pmPframe, BitVec.toNat_and, hmask, Nat.and_two_pow_sub_one_eq_mod]

theorem pmPresent_iff (entry : BitVec 64) :
    entry &&& pmPresent ≠ 0 ↔ entry.getLsbD 63 = true := by
  have hpresent : pmPresent = BitVec.twoPow 64 63 := by decide
  rw [hpresent, BitVec.and_comm]
  exact Mask.twoPow_and_ne_zero (by decide : 63 < 64) entry

theorem pagemapPfn_eq (entry : BitVec 64) : pagemapPfn entry = frame entry := by
  unfold pagemapPfn frame
  rw [pmPframe_eq]
  exact if_congr (pmPresent_iff entry) rfl rfl

section

variable {field : FieldType} {file : File} {entry addr : BitVec 64}

theorem pageToPfn_eq (h : file (addr.toNat / pageSize * 8) = some entry) :
    pageToPfn file addr = some (entry.toNat % 2 ^ 56) := by
  have hmask : ((1#64 <<< 56) - 1).toNat = 2 ^ 56 - 1 := by decide
  rw [pageToPfn, h, Option.map_some, BitVec.toNat_and, hmask, Nat.and_two_pow_sub_one_eq_mod]

theorem vtop_eq (h : file (addr.toNat / pageSize * 8) = some entry) :
    vtop field file addr =
      entry.toNat % 2 ^ 55 * pageSize % 2 ^ field.width ||| addr.toNat % 2 ^ 12 := by
  have hpfn : (Pagemaps.ofEntry entry).pfn.toNat = entry.toNat % 2 ^ 55 := by
    simp [Pagemaps.ofEntry]
  unfold vtop
  simp only [h]
  rw [hpfn, ← Nat.and_two_pow_sub_one_eq_mod addr.toNat]
  rfl

/-- The frame `victim` reports loses the bits that do not fit behind the in-page offset. -/
theorem vtop_frame (h : file (addr.toNat / pageSize * 8) = some entry) :
    vtop field file addr / pageSize = entry.toNat % 2 ^ 55 % 2 ^ (field.width - 12) := by
  rw [vtop_eq h]
  change _ / 2 ^ 12 = _
  rw [← Nat.shiftRight_eq_div_pow, Nat.shiftRight_or_distrib, Nat.shiftRight_eq_div_pow,
    Nat.shiftRight_eq_div_pow, Nat.div_eq_of_lt (Nat.mod_lt _ (by decide)), Nat.or_zero]
  cases field
  all_goals
    simp only [FieldType.width, pageSize]
    omega

theorem pageOf_toNat (addr : BitVec 64) :
    (pageOf addr).toNat = addr.toNat / pageSize * pageSize := by
  have hlt := addr.isLt
  rw [pageOf, BitVec.toNat_ofNat, Nat.mod_eq_of_lt (lt_of_le_of_lt (Nat.div_mul_le_self ..) hlt)]

theorem pageOf_index (addr : BitVec 64) :
    (pageOf addr).toNat / pageSize * 8 = addr.toNat / pageSize * 8 := by
  rw [pageOf_toNat, Nat.mul_div_cancel _ (by decide)]

/-- The three programs agree where the frame is present, not soft-dirty and has an address. -/
theorem agree_iff (field : FieldType) (h : file (addr.toNat / pageSize * 8) = some entry) :
    Agree field file entry addr ↔
      entry.getLsbD 63 = true ∧ entry.getLsbD 55 = false ∧
        entry.toNat % 2 ^ 55 < 2 ^ (field.width - 12) ∨ entry.toNat % 2 ^ 56 = 0 := by
  have hbit : entry.getLsbD 55 = decide (entry.toNat / 2 ^ 55 % 2 = 1) :=
    Nat.testBit_eq_decide_div_mod_eq
  rw [Agree, pagemapPfn_eq, vtop_frame h, pageToPfn_eq h, Option.some.injEq, frame, hbit]
  cases hpresent : entry.getLsbD 63
  all_goals
    cases field
    all_goals
      simp only [FieldType.width, Bool.false_eq_true, if_false, if_true, decide_eq_false_iff_not,
        true_and, false_and, false_or]
      omega

theorem injectsPage_iff (field : FieldType) (h : file (addr.toNat / pageSize * 8) = some entry) :
    InjectsPage field file addr ↔ entry.toNat % 2 ^ 56 = 0 := by
  have h' : file ((pageOf addr).toNat / pageSize * 8) = some entry := pageOf_index addr ▸ h
  have halign : (pageOf addr).toNat % 2 ^ 12 = 0 := by
    rw [pageOf_toNat]
    exact Nat.mul_mod_left _ _
  rw [InjectsPage, injectMceInject, pageToPfn_eq h', vtop_eq h', halign, Nat.or_zero,
    Option.map_some, Option.some.injEq]
  refine ⟨fun hrecord => ?_, fun hzero => ?_⟩
  · have hsame := mceRecord_injective hrecord
    -- 4095 is odd, so a frame that equals its address is 0
    cases field
    all_goals
      simp only [FieldType.width, pageSize] at hsame
      omega
  · have hpfn : entry.toNat % 2 ^ 55 = 0 := by omega
    rw [hzero, hpfn, Nat.zero_mul, Nat.zero_mod]

/-- The decoders agree on the entries without a soft-dirty bit whose page is present, but the
address is that of the frame only where there is none. -/
theorem decoders_agree (field : FieldType) (file : File) (addr : BitVec 64) {entry : BitVec 64}
    (h : file (addr.toNat / pageSize * 8) = some entry) :
    (Agree field file entry addr ↔
      entry.getLsbD 63 = true ∧ entry.getLsbD 55 = false ∧
        entry.toNat % 2 ^ 55 < 2 ^ (field.width - 12) ∨ entry.toNat % 2 ^ 56 = 0) ∧
    (InjectsPage field file addr ↔ entry.toNat % 2 ^ 56 = 0) ∧
    (Agree field file entry addr ∧ InjectsPage field file addr ↔ entry.toNat % 2 ^ 56 = 0) := by
  have hagree := agree_iff field h
  have hinjects := injectsPage_iff field h
  refine ⟨hagree, hinjects, fun hboth => hinjects.mp hboth.2, fun hzero => ?_⟩
  exact ⟨hagree.mpr (.inr hzero), hinjects.mpr hzero⟩

end

def cleanEntry : BitVec 64 := 0x8000000000001234#64

theorem decoders_agree_clean :
    Agree .declared (fun _ => some cleanEntry) cleanEntry 0x1000#64 ∧
      ¬ InjectsPage .declared (fun _ => some cleanEntry) 0x1000#64 := by
  obtain ⟨hagree, hinjects, -⟩ :=
    decoders_agree .declared (fun _ => some cleanEntry) 0x1000#64 rfl
  exact ⟨hagree.mpr (by decide), fun h => absurd (hinjects.mp h) (by decide)⟩

/-- `tinjpage` hands on the frame number as address; where the entry is soft-dirty, it is not
even that. -/
theorem pfn_as_address :
    (vtop .declared (fun _ => some cleanEntry) 0x1000#64 = 0x1234000 ∧
      injectMceInject (fun _ => some cleanEntry) 0x1000#64 = some (mceRecord 0x1234) ∧
      ¬ InjectsPage .declared (fun _ => some cleanEntry) 0x1000#64) ∧
    ¬ Agree .declared (fun _ => some (cleanEntry ||| pmSoftDirty)) (cleanEntry ||| pmSoftDirty)
      0x1000#64 := by
  decide +kernel

end MceTest.Pagemap

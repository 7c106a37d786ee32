import MceTest.Library.Align
import MceTest.Ttranshuge.Model

/-! Where `find_thp_addr` finds a block, and when the page that is poisoned lies in the memory
that was requested. -/

namespace MceTest.Ttranshuge

open MceTest.Library

/-- A whole huge page of the range. -/
def Block (start size a : Nat) : Prop :=
  defaultThpSize ∣ a ∧ start ≤ a ∧ a + defaultThpSize ≤ start + size

/-- The search finds a block whenever there is one, and then the lowest. -/
structure FindsThp (start size : Addr) : Prop where
  found_iff : findThpAddr start size ≠ 0 ↔ ∃ a, Block start.toNat size.toNat a
  lowest : findThpAddr start size ≠ 0 →
    IsLeast {a | Block start.toNat size.toNat a} (findThpAddr start size).toNat

/-- The first huge page boundary from an address on. -/
def thpUp (n : Nat) : Nat := Align.up defaultThpSize n

theorem defaultThpSize_pos : 0 < defaultThpSize := by decide

theorem le_thpUp (n : Nat) : n ≤ thpUp n := Align.le_up defaultThpSize_pos n

theorem thpUp_lt (n : Nat) : thpUp n < n + defaultThpSize := Align.up_lt defaultThpSize_pos n

theorem dvd_thpUp (n : Nat) : defaultThpSize ∣ thpUp n := Align.dvd_up defaultThpSize n

theorem exists_block_iff {start size : Nat} :
    (∃ a, Block start size a) ↔ thpUp start + defaultThpSize ≤ start + size :=
  Align.exists_block_iff defaultThpSize_pos

theorem toNat_thpAlignAddr (start : Addr) :
    ((start + BitVec.ofNat 64 (defaultThpSize - 1)) &&&
      ~~~BitVec.ofNat 64 (defaultThpSize - 1)).toNat = thpUp start.toNat % 2 ^ 64 := by
  have hmask := Align.toNat_and_not_mask (start + BitVec.ofNat 64 (defaultThpSize - 1)) 21
  rw [show 2 ^ 21 = defaultThpSize by decide] at hmask
  rw [hmask, BitVec.toNat_add, BitVec.toNat_ofNat]
  have hlt := start.isLt
  simp only [thpUp, Align.up, defaultThpSize]
  omega

theorem toNat_findThpAddr {start size : Addr} (hend : start.toNat + size.toNat < 2 ^ 64) :
    (findThpAddr start size).toNat =
      if thpUp start.toNat = 2 ^ 64 - defaultThpSize ∨
        thpUp start.toNat + defaultThpSize < start.toNat + size.toNat
      then thpUp start.toNat else 0 := by
  have hsize : defaultThpSize = 2097152 := rfl
  have hle := le_thpUp start.toNat
  have hlt := thpUp_lt start.toNat
  obtain ⟨q, hq⟩ := dvd_thpUp start.toNat
  rw [hsize] at hq
  have halign := toNat_thpAlignAddr start
  rw [findThpAddr]
  generalize (start + BitVec.ofNat 64 (defaultThpSize - 1)) &&&
    ~~~BitVec.ofNat 64 (defaultThpSize - 1) = thpAlignAddr at halign ⊢
  have hcond : (start ≤ thpAlignAddr ∧
      thpAlignAddr + BitVec.ofNat 64 defaultThpSize < start + size) ↔
      (start.toNat ≤ thpUp start.toNat % 2 ^ 64 ∧
        (thpUp start.toNat % 2 ^ 64 + defaultThpSize) % 2 ^ 64 < start.toNat + size.toNat) := by
    rw [BitVec.le_def, BitVec.lt_def, BitVec.toNat_add, BitVec.toNat_add, Nat.mod_eq_of_lt hend,
      halign]
    rfl
  by_cases h : start ≤ thpAlignAddr ∧ thpAlignAddr + BitVec.ofNat 64 defaultThpSize < start + size
  · have hnat := hcond.mp h
    rw [if_pos h, halign, if_pos (by omega)]
    omega
  · have hnat := mt hcond.mpr h
    rw [if_neg h, if_neg (by omega)]
    rfl

theorem findThpAddr_ne_zero_iff {start size : Addr} (hpos : 0 < start.toNat)
    (hend : start.toNat + size.toNat < 2 ^ 64) :
    findThpAddr start size ≠ 0 ↔
      thpUp start.toNat = 2 ^ 64 - defaultThpSize ∨
        thpUp start.toNat + defaultThpSize < start.toNat + size.toNat := by
  have hle := le_thpUp start.toNat
  rw [ne_eq, ← BitVec.toNat_inj, toNat_findThpAddr hend]
  split_ifs with hcond
  · have hne : thpUp start.toNat ≠ 0 := by omega
    exact iff_of_true hne hcond
  · exact iff_of_false (fun hne => hne rfl) hcond

/-- The range ends where its first block does. -/
def EndsWithFirstBlock (start size : Nat) : Prop :=
  defaultThpSize ∣ start + size ∧ defaultThpSize ≤ size ∧ size < 2 * defaultThpSize

/-- The range starts in the last huge page but one, or on the boundary after it. -/
def StartsAtTheTop (start : Nat) : Prop :=
  2 ^ 64 - 2 * defaultThpSize < start ∧ start ≤ 2 ^ 64 - defaultThpSize

theorem endsWithFirstBlock_iff {start size : Nat} :
    EndsWithFirstBlock start size ↔ thpUp start + defaultThpSize = start + size := by
  have hle := le_thpUp start
  have hlt := thpUp_lt start
  constructor
  · rintro ⟨hdvd, hlo, hhi⟩
    have hblock : defaultThpSize ∣ start + size - defaultThpSize :=
      Nat.dvd_sub hdvd (dvd_refl _)
    have hup := (Align.up_eq_iff defaultThpSize_pos hblock).mpr
      ⟨show start ≤ _ by omega, by omega⟩
    rw [thpUp, hup]
    omega
  · intro heq
    refine ⟨?_, by omega, by omega⟩
    rw [← heq]
    exact Nat.dvd_add (dvd_thpUp start) (dvd_refl _)

theorem startsAtTheTop_iff {start : Nat} :
    StartsAtTheTop start ↔ thpUp start = 2 ^ 64 - defaultThpSize := by
  have hsize : defaultThpSize = 2097152 := rfl
  have hdvd : defaultThpSize ∣ 2 ^ 64 - defaultThpSize := by decide
  rw [thpUp, Align.up_eq_iff defaultThpSize_pos hdvd, StartsAtTheTop]
  omega

/-- A block at the very end is missed, and one that crosses the last address is made up. -/
theorem findsThp_iff {start size : Addr} (hpos : 0 < start.toNat)
    (hend : start.toNat + size.toNat < 2 ^ 64) :
    FindsThp start size ↔
      ¬EndsWithFirstBlock start.toNat size.toNat ∧ ¬StartsAtTheTop start.toNat := by
  have hsize : defaultThpSize = 2097152 := rfl
  have hfound := findThpAddr_ne_zero_iff hpos hend
  rw [endsWithFirstBlock_iff, startsAtTheTop_iff]
  constructor
  · rintro ⟨hexact, -⟩
    rw [hfound, exists_block_iff] at hexact
    omega
  · rintro ⟨hexact, hlast⟩
    constructor
    · rw [hfound, exists_block_iff]
      omega
    · intro hne
      have hcond := hfound.mp hne
      rw [toNat_findThpAddr hend, if_pos hcond]
      exact Align.isLeast_up defaultThpSize_pos (by rw [thpUp] at *; omega)

section Memory

variable {m : Memory} {corruptPageAddr addr : Addr} {avoid : Bool}

theorem writeMem_add (m : Memory) {n i : Nat} (hn : addr.toNat + n ≤ 2 ^ 64) (hi : i < n) :
    writeMem m addr n (addr + BitVec.ofNat 64 i) = letter i := by
  induction n with
  | zero => exact absurd hi (Nat.not_lt_zero i)
  | succ n ih =>
    simp only [writeMem]
    by_cases hlast : i = n
    · rw [if_pos (by rw [hlast]), hlast]
    · have hne : addr + BitVec.ofNat 64 i ≠ addr + BitVec.ofNat 64 n := by
        intro heq
        have hnat := congrArg BitVec.toNat heq
        rw [Align.toNat_add_ofNat (by omega), Align.toNat_add_ofNat (by omega)] at hnat
        omega
      rw [if_neg hne]
      exact ih (by omega) (by omega)

theorem forall_from_succ {P : Nat → Prop} {i n : Nat} :
    (∀ j, i ≤ j → j < i + (n + 1) → P j) ↔ P i ∧ ∀ j, i + 1 ≤ j → j < i + 1 + n → P j := by
  constructor
  · intro hall
    exact ⟨hall i (le_refl i) (by omega), fun j hlo hhi => hall j (by omega) (by omega)⟩
  · rintro ⟨hfirst, hrest⟩ j hlo hhi
    rcases hlo.eq_or_lt with rfl | hlt
    · exact hfirst
    · exact hrest j hlt (by omega)

theorem readMemLoop_eq_zero_iff {n i : Nat} :
    readMemLoop m corruptPageAddr addr avoid n i = 0 ↔
      ∀ j, i ≤ j → j < i + n →
        ¬(avoid ∧ Avoided corruptPageAddr (addr + BitVec.ofNat 64 j)) →
        m (addr + BitVec.ofNat 64 j) = letter j := by
  induction n generalizing i with
  | zero => exact iff_of_true rfl (fun j hlo hhi => absurd hhi (by omega))
  | succ n ih =>
    rw [readMemLoop, forall_from_succ]
    split_ifs with havoid hbyte
    · rw [ih, and_iff_right (fun hnot => absurd havoid hnot)]
    · exact iff_of_false (by decide) fun hall => hbyte (hall.1 havoid)
    · rw [ih, and_iff_right (fun _ => not_not.mp hbyte)]

theorem readMem_eq_zero_iff {size : Nat} :
    readMem m corruptPageAddr addr size avoid = 0 ↔
      ∀ i < size, ¬(avoid ∧ Avoided corruptPageAddr (addr + BitVec.ofNat 64 i)) →
        m (addr + BitVec.ofNat 64 i) = letter i := by
  rw [readMem, readMemLoop_eq_zero_iff]
  simp only [Nat.zero_le, Nat.zero_add, true_implies]

theorem readMem_writeMem (m : Memory) {n : Nat} (hn : addr.toNat + n ≤ 2 ^ 64) :
    readMem (writeMem m addr n) corruptPageAddr addr n false = 0 :=
  readMem_eq_zero_iff.mpr fun _ hi _ => writeMem_add m hn hi

end Memory

/-- Memory that `mmap` can return: pages below the end of the address space. -/
structure Mapped (memAddr : Addr) : Prop where
  page : defaultPs ∣ memAddr.toNat
  pos : 0 < memAddr.toNat
  last : memAddr.toNat + reqMemSize < 2 ^ 64

def InPage (memAddr page : Addr) (i : Nat) : Prop :=
  page.toNat ≤ memAddr.toNat + i ∧ memAddr.toNat + i < page.toNat + defaultPs

/-- The page is one of the requested memory, and with `--avoid-touch` the bytes read are
all the others. -/
structure Inside (memAddr page : Addr) : Prop where
  first : memAddr.toNat ≤ page.toNat
  last : page.toNat + defaultPs ≤ memAddr.toNat + reqMemSize
  avoided_iff : ∀ i < reqMemSize,
    (Avoided page (memAddr + BitVec.ofNat 64 i) ↔ InPage memAddr page i)
  read_iff : ∀ m : Memory, readMem m page memAddr reqMemSize true = 0 ↔
    ∀ i < reqMemSize, ¬InPage memAddr page i → m (memAddr + BitVec.ofNat 64 i) = letter i

/-- The page that any groundwork leaves to be poisoned is inside. -/
def PoisonsInside (o : Options) (memAddr : Addr) : Prop :=
  ∀ madvise memory c, groundwork madvise o memory memAddr = some c →
    Inside memAddr c.corruptPageAddr

section Poison

variable {o : Options} {memAddr page : Addr}

theorem Mapped.avoided_iff (hmap : Mapped memAddr)
    (hlast : page.toNat + defaultPs ≤ memAddr.toNat + reqMemSize) {i : Nat}
    (hi : i < reqMemSize) :
    Avoided page (memAddr + BitVec.ofNat 64 i) ↔ InPage memAddr page i := by
  have hend := hmap.last
  rw [Avoided, InPage, BitVec.le_def, BitVec.lt_def, Align.toNat_add_ofNat (by omega),
    Align.toNat_add_ofNat (by omega)]

theorem Mapped.inside_iff (hmap : Mapped memAddr) :
    Inside memAddr page ↔
      memAddr.toNat ≤ page.toNat ∧ page.toNat + defaultPs ≤ memAddr.toNat + reqMemSize := by
  constructor
  · rintro ⟨hfirst, hlast, -, -⟩
    exact ⟨hfirst, hlast⟩
  · rintro ⟨hfirst, hlast⟩
    refine ⟨hfirst, hlast, fun i hi => hmap.avoided_iff hlast hi, fun m => ?_⟩
    rw [readMem_eq_zero_iff]
    refine forall₂_congr fun i hi => ?_
    rw [hmap.avoided_iff hlast hi]
    simp only [true_and]

/-- The number of the page from the huge page on. -/
def poisonedPage (o : Options) : Nat := (max 0 o.corruptPage).toNat

def poisonedAddr (o : Options) (memAddr : Addr) : Addr :=
  findThpAddr memAddr (BitVec.ofNat 64 reqMemSize) +
    BitVec.ofNat 64 (CInt.toULong (if o.corruptPage < 0 then 0 else o.corruptPage)) *
      BitVec.ofNat 64 defaultPs

theorem getOptions_isInt {argv : List Opt} {o o' : Options} (hint : CInt.IsInt o.corruptPage)
    (h : getOptions argv o = .ok o') : CInt.IsInt o'.corruptPage := by
  induction argv generalizing o with
  | nil =>
    cases h
    exact hint
  | cons opt argv ih =>
    cases opt with
    | offset arg => exact ih (CInt.isInt_toInt _) h
    | avoidTouch => exact ih (o := { o with avoidTouch := true }) hint h
    | earlyKill => exact ih (o := { o with earlyKill := true }) hint h
    | help => cases h
    | unknown => cases h

theorem getOptionsOrDie_isInt {argv : List Opt} (h : getOptionsOrDie argv = .ok o) :
    CInt.IsInt o.corruptPage := by
  cases hopts : getOptions argv {} with
  | error status =>
    rw [getOptionsOrDie, hopts] at h
    cases h
  | ok o' =>
    rw [getOptionsOrDie, hopts] at h
    have hint := getOptions_isInt (by decide) hopts
    have hcond : (if o'.avoidTouch = true ∧ o'.corruptPage = -1 then Except.error 1
      else Except.ok o') = Except.ok o := h
    split_ifs at hcond
    cases hcond
    exact hint

theorem toULong_poisoned (hint : CInt.IsInt o.corruptPage) :
    CInt.toULong (if o.corruptPage < 0 then 0 else o.corruptPage) = poisonedPage o := by
  obtain ⟨hlo, hhi⟩ := hint
  rw [poisonedPage, CInt.toULong]
  split_ifs <;> omega

theorem Mapped.toNat_findThpAddr (hmap : Mapped memAddr) :
    (findThpAddr memAddr (BitVec.ofNat 64 reqMemSize)).toNat = thpUp memAddr.toNat := by
  have hend := hmap.last
  have hlt := thpUp_lt memAddr.toNat
  have hsize : defaultThpSize = 2097152 := rfl
  have hreq : reqMemSize = 8388608 := rfl
  have hnat : (BitVec.ofNat 64 reqMemSize).toNat = reqMemSize := by decide
  rw [Ttranshuge.toNat_findThpAddr (by rw [hnat]; exact hend), hnat, if_pos (by omega)]

theorem Mapped.toNat_poisonedAddr (hmap : Mapped memAddr) (hint : CInt.IsInt o.corruptPage) :
    (poisonedAddr o memAddr).toNat =
      (thpUp memAddr.toNat + poisonedPage o * defaultPs) % 2 ^ 64 := by
  rw [poisonedAddr, toULong_poisoned hint, BitVec.toNat_add, hmap.toNat_findThpAddr,
    BitVec.toNat_mul, BitVec.toNat_ofNat, BitVec.toNat_ofNat, ← Nat.mul_mod, Nat.add_mod_mod]

theorem Mapped.groundwork_eq (hmap : Mapped memAddr) (madvise : Addr → Nat → Bool)
    (o : Options) (memory : Memory) :
    groundwork madvise o memory memAddr =
      if requestThpWithMadvise madvise memAddr = false then none
      else some
        { memory := writeMem memory memAddr reqMemSize, memAddr
          corruptPage := if o.corruptPage < 0 then 0 else o.corruptPage
          thpAddr := findThpAddr memAddr (BitVec.ofNat 64 reqMemSize)
          corruptPageAddr := poisonedAddr o memAddr } := by
  have hmem : memAddr ≠ 0 := by
    rintro rfl
    exact absurd hmap.pos (by decide)
  have hthp : findThpAddr memAddr (BitVec.ofNat 64 reqMemSize) ≠ 0 := by
    intro heq
    have hnat := hmap.toNat_findThpAddr
    have hle := le_thpUp memAddr.toNat
    have hpos := hmap.pos
    rw [heq] at hnat
    have hzero : (0 : Addr).toNat = 0 := rfl
    omega
  have hread : ∀ page, readMem (writeMem memory memAddr reqMemSize) page memAddr reqMemSize false
      = 0 := fun page => readMem_writeMem memory hmap.last.le
  rw [groundwork, prepMemoryMap, if_neg hmem]
  change prepInjection madvise { fork o memory with memAddr } = _
  simp only [prepInjection, fork, hread, hthp, poisonedAddr, lt_irrefl, if_false]
  rfl

theorem Mapped.poisonsInside_iff (hmap : Mapped memAddr) (hint : CInt.IsInt o.corruptPage) :
    PoisonsInside o memAddr ↔
      thpUp memAddr.toNat + poisonedPage o * defaultPs + defaultPs ≤
        memAddr.toNat + reqMemSize := by
  have hpage : PoisonsInside o memAddr ↔ Inside memAddr (poisonedAddr o memAddr) := by
    constructor
    · intro hinside
      exact hinside (fun _ _ => true) (fun _ => 0) _ (hmap.groundwork_eq _ _ _)
    · intro hinside madvise memory c hc
      rw [hmap.groundwork_eq] at hc
      by_cases hadvice : requestThpWithMadvise madvise memAddr = false
      · rw [if_pos hadvice] at hc
        cases hc
      · rw [if_neg hadvice] at hc
        cases hc
        exact hinside
  have hle := le_thpUp memAddr.toNat
  have hlt := thpUp_lt memAddr.toNat
  have hend := hmap.last
  have hbound : poisonedPage o < 2 ^ 31 := by
    obtain ⟨hlo, hhi⟩ := hint
    rw [poisonedPage]
    omega
  rw [hpage, hmap.inside_iff, hmap.toNat_poisonedAddr hint]
  simp only [reqMemSize, defaultThpSize, defaultPs] at *
  omega

end Poison

/-- The search is exact but for a block at the end of the range or of the address space, and
the page that is poisoned is inside unless the offset is large. -/
theorem find_poison_iff (start size : Addr) (argv : List Opt) (o : Options) (memAddr : Addr) :
    (0 < start.toNat → start.toNat + size.toNat < 2 ^ 64 →
      (FindsThp start size ↔
        ¬EndsWithFirstBlock start.toNat size.toNat ∧ ¬StartsAtTheTop start.toNat)) ∧
    (getOptionsOrDie argv = .ok o → Mapped memAddr →
      (PoisonsInside o memAddr ↔
        thpUp memAddr.toNat + poisonedPage o * defaultPs + defaultPs ≤
          memAddr.toNat + reqMemSize)) :=
  ⟨fun hpos hend => findsThp_iff hpos hend,
    fun hopts hmap => hmap.poisonsInside_iff (getOptionsOrDie_isInt hopts)⟩

/-- A range that starts between two huge pages, and `-o 1 -a`. -/
theorem find_poison_iff_second :
    (FindsThp 0x1ff000 0x800000 ↔
      ¬EndsWithFirstBlock 0x1ff000 0x800000 ∧ ¬StartsAtTheTop 0x1ff000) ∧
    (PoisonsInside { corruptPage := 1, avoidTouch := true } 0x1ff000 ↔
      thpUp 0x1ff000 + 1 * defaultPs + defaultPs ≤ 0x1ff000 + reqMemSize) :=
  have h := find_poison_iff 0x1ff000 0x800000 [.offset "1".toList, .avoidTouch]
    { corruptPage := 1, avoidTouch := true } 0x1ff000
  ⟨h.1 (by decide) (by decide), h.2 (by decide) ⟨by decide, by decide, by decide⟩⟩

/-- A range that is one block: it is not found. `-o 2048` poisons past the memory. -/
theorem find_poison_misses :
    (Block 0x200000 0x200000 0x200000 ∧ findThpAddr 0x200000 0x200000 = 0 ∧
      ¬FindsThp 0x200000 0x200000) ∧
    (getOptionsOrDie [.offset "2048".toList] = .ok { corruptPage := 2048 } ∧
      Mapped 0x200000 ∧ ¬PoisonsInside { corruptPage := 2048 } 0x200000) := by
  have hblock : Block 0x200000 0x200000 0x200000 := ⟨by decide, by decide, by decide⟩
  have hnone : findThpAddr 0x200000 0x200000 = 0 := by decide
  have hmap : Mapped 0x200000 := ⟨by decide, by decide, by decide⟩
  refine ⟨⟨hblock, hnone, fun hfind => ?_⟩, by decide, hmap, ?_⟩
  · exact hfind.found_iff.mpr ⟨0x200000, hblock⟩ hnone
  · rw [hmap.poisonsInside_iff (by decide)]
    decide

end MceTest.Ttranshuge

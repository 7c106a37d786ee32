import MceTest.PageTypes.BitsSpec

/-! When the filter of a `-b` argument accepts what the usage text says. -/

namespace MceTest.PageTypes

open MceTest.Library MceTest.Library.Mask

def HasBig (is : List Item) : Prop := ∃ i ∈ is, i.Big

def HasTop (is : List Item) : Prop := ∃ i ∈ is, i.Top

/-- All bits but the top one: the largest number `strtoll` gives. -/
def lowBits : Flags := BitVec.ofNat 64 (2 ^ 63 - 1)

theorem orBits_getLsbD (is : List Item) (k : Nat) :
    (orBits is).getLsbD k = true ↔ ∃ i ∈ is, i.bits.getLsbD k = true := by
  induction is with
  | nil => simp [orBits]
  | cons i is ih =>
    rw [orBits, List.foldr_cons, ← orBits, BitVec.getLsbD_or, Bool.or_eq_true, ih]
    simp

theorem orRead_getLsbD (is : List Item) (k : Nat) :
    (orRead is).getLsbD k = true ↔ ∃ i ∈ is, i.read.getLsbD k = true := by
  induction is with
  | nil => simp [orRead]
  | cons i is ih =>
    rw [orRead, List.foldr_cons, ← orRead, BitVec.getLsbD_or, Bool.or_eq_true, ih]
    simp

theorem bit_getLsbD {i k : Nat} (hk : k < 64) : (bit i).getLsbD k = true ↔ i = k := by
  rw [bit, ← BitVec.twoPow_eq, BitVec.getLsbD_twoPow]
  simp
  omega

theorem Item.read_eq_bits {i : Item} (h : ¬ i.Big) : i.read = i.bits := by
  cases i with
  | name => rfl
  | number n word =>
    have hlt : n.val < 2 ^ 63 := Nat.lt_of_not_le h
    rw [Item.read, Item.bits, Nat.min_eq_left (by omega)]

theorem testBit_lowBits {k : Nat} : (2 ^ 63 - 1).testBit k = decide (k < 63) :=
  Nat.testBit_two_pow_sub_one 63 k

theorem lowBits_getLsbD {k : Nat} (hk : k < 64) : lowBits.getLsbD k = true ↔ k < 63 := by
  rw [lowBits, BitVec.getLsbD_ofNat, testBit_lowBits]
  simp
  omega

theorem Item.read_of_big {i : Item} (h : i.Big) : i.read = lowBits := by
  cases i with
  | name => exact absurd h id
  | number n word =>
    have hle : 2 ^ 63 ≤ n.val := h
    rw [Item.read, Nat.min_eq_right (by omega)]
    rfl

theorem Item.read_top (i : Item) : i.read.getLsbD 63 = true ↔ i.Top := by
  cases i with
  | name i entry listed => exact bit_getLsbD (by decide)
  | number n word =>
    have hlt : min n.val (2 ^ 63 - 1) < 2 ^ 63 := by omega
    rw [Item.read, BitVec.getLsbD_ofNat, Nat.testBit_lt_two_pow hlt]
    simp [Item.Top]

theorem Item.bits_top (i : Item) : i.bits.getLsbD 63 = true ↔ i.Top ∨ i.Big := by
  by_cases hbig : i.Big
  · cases i with
    | name => exact absurd hbig id
    | number n word =>
      have hle : 2 ^ 63 ≤ n.val := hbig
      have hset : n.val.testBit 63 = true := by
        rw [Nat.testBit_eq_decide_div_mod_eq]
        simp
        omega
      rw [Item.bits, BitVec.getLsbD_ofNat, hset]
      simp [hbig]
  · rw [← Item.read_eq_bits hbig, Item.read_top]
    simp [hbig]

/-- How the word that is read relates to the word that is written: a number that is too
big gives all bits but the top one, which only its name can add. -/
structure Reading (big top : Prop) (written read : Flags) : Prop where
  small : ¬ big → read = written
  top_iff : written.getLsbD 63 = true ↔ top ∨ big
  low : big → ¬ top → read = lowBits
  full : big → top → read = kpfAllBits

theorem reading (is : List Item) : Reading (HasBig is) (HasTop is) (orBits is) (orRead is) where
  small := by
    intro h
    apply eq_of_getLsbD
    intro k _
    rw [orRead_getLsbD, orBits_getLsbD]
    have hread (i : Item) (hi : i ∈ is) : i.read = i.bits :=
      Item.read_eq_bits fun hbig => h ⟨i, hi, hbig⟩
    constructor <;> rintro ⟨i, hi, hk⟩ <;> exact ⟨i, hi, by simpa [hread i hi] using hk⟩
  top_iff := by
    rw [orBits_getLsbD]
    constructor
    · rintro ⟨i, hi, hk⟩
      exact ((i.bits_top).mp hk).imp (fun h => ⟨i, hi, h⟩) fun h => ⟨i, hi, h⟩
    · rintro (⟨i, hi, h⟩ | ⟨i, hi, h⟩)
      · exact ⟨i, hi, i.bits_top.mpr (Or.inl h)⟩
      · exact ⟨i, hi, i.bits_top.mpr (Or.inr h)⟩
  low := by
    rintro ⟨i, hi, hbig⟩ htop
    apply eq_of_getLsbD
    intro k hk
    rw [orRead_getLsbD, lowBits_getLsbD hk]
    constructor
    · rintro ⟨j, hj, hset⟩
      by_contra hge
      obtain rfl : k = 63 := by omega
      exact htop ⟨j, hj, j.read_top.mp hset⟩
    · intro hlt
      exact ⟨i, hi, by rw [i.read_of_big hbig, lowBits_getLsbD hk]; exact hlt⟩
  full := by
    rintro ⟨i, hi, hbig⟩ ⟨j, hj, htop⟩
    apply eq_of_getLsbD
    intro k hk
    rw [orRead_getLsbD]
    refine ⟨fun _ => by rw [kpfAllBits, BitVec.getLsbD_allOnes, decide_eq_true hk], fun _ => ?_⟩
    rcases Nat.lt_or_ge k 63 with hlt | hge
    · exact ⟨i, hi, by rw [i.read_of_big hbig, lowBits_getLsbD hk]; exact hlt⟩
    · obtain rfl : k = 63 := by omega
      exact ⟨j, hj, j.read_top.mpr htop⟩

theorem lowBits_top : ¬ lowBits.getLsbD 63 = true := by decide

theorem lowBits_ne_all : lowBits ≠ kpfAllBits := by decide

theorem all_ne_zero : kpfAllBits ≠ 0 := by decide

theorem all_ne_twoPow (i : Nat) : kpfAllBits ≠ BitVec.twoPow 64 i := by
  intro h
  have h₀ := congrArg (·.getLsbD 0) h
  have h₁ := congrArg (·.getLsbD 1) h
  simp [kpfAllBits] at h₀ h₁
  omega

theorem within_all (b : Flags) : Within b kpfAllBits := BitVec.and_allOnes

theorem within_lowBits_iff {b : Flags} : Within b lowBits ↔ ¬ b.getLsbD 63 = true := by
  constructor
  · intro h hset
    rw [← h, BitVec.getLsbD_and, Bool.and_eq_true] at hset
    exact lowBits_top hset.2
  · intro hclear
    apply eq_of_getLsbD
    intro k hk
    rw [BitVec.getLsbD_and, Bool.and_eq_true, lowBits_getLsbD hk]
    refine ⟨fun h => h.1, fun h => ⟨h, ?_⟩⟩
    by_contra hge
    obtain rfl : k = 63 := by omega
    exact hclear h

section Reading

variable {big top big' top' : Prop} {m m' b b' : Flags}

theorem Reading.low_ne (h : Reading big top m m') (hbig : big) : m ≠ lowBits := by
  rintro rfl
  exact lowBits_top (h.top_iff.mpr (Or.inr hbig))

theorem Reading.eq_iff (h : Reading big top m m') :
    m = m' ↔ (big → m = kpfAllBits ∧ top) := by
  constructor
  · intro heq hbig
    by_cases htop : top
    · exact ⟨heq.trans (h.full hbig htop), htop⟩
    · exact absurd (heq.trans (h.low hbig htop)) (h.low_ne hbig)
  · intro hsound
    by_cases hbig : big
    · obtain ⟨hall, htop⟩ := hsound hbig
      rw [hall, h.full hbig htop]
    · exact (h.small hbig).symm

theorem Reading.eq_ne_iff (h : Reading big top m m') :
    (m = m' ∧ m' ≠ kpfAllBits) ↔ ¬ big ∧ m ≠ kpfAllBits := by
  constructor
  · rintro ⟨rfl, hne⟩
    exact ⟨fun hbig => hne (h.eq_iff.mp rfl hbig).1, hne⟩
  · rintro ⟨hsmall, hne⟩
    have heq := h.small hsmall
    exact ⟨heq.symm, by rwa [heq]⟩

/-- When `list=list` means what it says, in terms of the two lists as written. -/
def MaskedSound (big top big' top' : Prop) (m b : Flags) : Prop :=
  (¬ big ∧ ¬ big' ∧ (b ≠ kpfAllBits ∨ m = 0)) ∨
  (¬ big ∧ big' ∧ ¬ top' ∧ ¬ Within b m ∧ ¬ Within lowBits m) ∨
  (¬ big ∧ big' ∧ top' ∧ (m = 0 ∨ (m = bit 63 ∧ b = bit 63))) ∨
  (big ∧ ¬ big' ∧ b ≠ kpfAllBits ∧ ((top ∧ m = kpfAllBits) ∨ (¬ top ∧ top' ∧ ¬ Within b m)))

theorem masked_iff_of_ne (h : Reading big top m m') (h' : Reading big' top' b b')
    (hne : b' ≠ kpfAllBits) :
    ((¬ Within b' m' ∧ ¬ Within b m) ∨ (Within b' m' ∧ Within b m ∧ m' = m ∧ b' = b)) ↔
      MaskedSound big top big' top' m b := by
  by_cases hbig : big
  · by_cases hbig' : big'
    · have hb' : b' = lowBits := by
        by_cases htop' : top'
        · exact absurd (h'.full hbig' htop') hne
        · exact h'.low hbig' htop'
      have hin : Within b' m' := by
        by_cases htop : top
        · rw [h.full hbig htop]
          exact within_all b'
        · rw [h.low hbig htop, hb', within_lowBits_iff]
          exact lowBits_top
      have hbne : b' ≠ b := hb' ▸ (h'.low_ne hbig').symm
      simp [MaskedSound, hbig, hbig', hin, hbne]
    · have hb : b' = b := h'.small hbig'
      subst hb
      by_cases htop : top
      · rw [h.full hbig htop]
        simp only [MaskedSound, within_all, hbig, hbig', htop]
        constructor
        · rintro (⟨hno, -⟩ | ⟨-, -, rfl, -⟩)
          · exact absurd trivial hno
          · simp [hne]
        · rintro hm
          obtain ⟨-, rfl⟩ : ¬ b' = kpfAllBits ∧ m = kpfAllBits := by simpa using hm
          simp [within_all]
      · have hset : b'.getLsbD 63 = true ↔ top' := by
          rw [h'.top_iff]
          simp [hbig']
        rw [h.low hbig htop, within_lowBits_iff, hset]
        have hmne : lowBits ≠ m := (h.low_ne hbig).symm
        simp [MaskedSound, hbig, hbig', htop, hne, hmne]
  · have hm : m' = m := h.small hbig
    subst hm
    by_cases hbig' : big'
    · have htop' : ¬ top' := fun htop' => hne (h'.full hbig' htop')
      have hb' : b' = lowBits := h'.low hbig' htop'
      have hbne : lowBits ≠ b := (h'.low_ne hbig').symm
      rw [hb']
      simp only [MaskedSound, hbig, hbig', htop', hbne]
      tauto
    · have hb : b' = b := h'.small hbig'
      subst hb
      simp only [MaskedSound, hbig, hbig']
      tauto

theorem masked_iff_of_eq (h : Reading big top m m') (h' : Reading big' top' b b')
    (hall : b' = kpfAllBits) :
    ((m' = 0 ∧ ¬ Within b m) ∨ (m = m' ∧ b = m ∧ ∃ i < 64, m = BitVec.twoPow 64 i)) ↔
      MaskedSound big top big' top' m b := by
  by_cases hbig : big
  · have hm' : m' ≠ 0 := by
      by_cases htop : top
      · rw [h.full hbig htop]
        exact all_ne_zero
      · rw [h.low hbig htop]
        decide
    have hm : ¬ (m = m' ∧ b = m ∧ ∃ i < 64, m = BitVec.twoPow 64 i) := by
      rintro ⟨heq, -, i, -, hi⟩
      exact all_ne_twoPow i ((h.eq_iff.mp heq hbig).1.symm.trans hi)
    have hb : ¬ big' → b = kpfAllBits := fun hbig' => (h'.small hbig').symm.trans hall
    simp only [MaskedSound, hbig, hm', hm]
    tauto
  · have hm : m' = m := h.small hbig
    subst hm
    by_cases hbig' : big'
    · have htop' : top' := by
        by_contra htop'
        exact lowBits_ne_all ((h'.low hbig' htop').symm.trans hall)
      have hset : b.getLsbD 63 = true := h'.top_iff.mpr (Or.inr hbig')
      have hzero : ¬ Within b 0 := by
        intro hb
        rw [← hb] at hset
        simp at hset
      have hone : (b = m' ∧ ∃ i < 64, m' = BitVec.twoPow 64 i) ↔ m' = bit 63 ∧ b = bit 63 := by
        constructor
        · rintro ⟨rfl, i, -, rfl⟩
          obtain rfl : 63 = i := by simpa using hset
          exact ⟨BitVec.twoPow_eq 64 63, BitVec.twoPow_eq 64 63⟩
        · rintro ⟨rfl, rfl⟩
          exact ⟨rfl, 63, by decide, (BitVec.twoPow_eq 64 63).symm⟩
      simp only [MaskedSound, hbig, hbig', htop', hone]
      constructor
      · rintro (⟨hz, -⟩ | ⟨-, hm⟩)
        · simp [hz]
        · simp [hm]
      · intro hd
        have hd : m' = 0 ∨ (m' = bit 63 ∧ b = bit 63) := by simpa using hd
        rcases hd with rfl | hm
        · exact Or.inl ⟨rfl, hzero⟩
        · exact Or.inr ⟨trivial, hm⟩
    · have hb : b = kpfAllBits := (h'.small hbig').symm.trans hall
      subst hb
      have hzero : ¬ Within kpfAllBits 0 := by decide
      have hno : ¬ (kpfAllBits = m' ∧ ∃ i < 64, m' = BitVec.twoPow 64 i) := by
        rintro ⟨rfl, i, -, hi⟩
        exact all_ne_twoPow i hi
      simp only [MaskedSound, hbig, hbig', hno]
      constructor
      · rintro (⟨hz, -⟩ | ⟨-, hf⟩)
        · simp [hz]
        · cases hf
      · intro hd
        have hd : m' = 0 := by simpa using hd
        rw [hd]
        exact Or.inl ⟨rfl, hzero⟩

end Reading

theorem BitFilter.ok_of_all {f : BitFilter} (h : f.bits = kpfAllBits) (flags : Flags) :
    f.ok flags = true ↔ flags &&& f.mask ≠ 0 := by
  rw [BitFilter.ok, if_pos h, decide_eq_true_iff]

theorem BitFilter.ok_of_ne {f : BitFilter} (h : f.bits ≠ kpfAllBits) (flags : Flags) :
    f.ok flags = true ↔ flags &&& f.mask = f.bits := by
  rw [BitFilter.ok, if_neg h, decide_eq_true_iff]

/-- When a filter accepts the words whose masked part is `b`. -/
theorem BitFilter.ok_iff (f : BitFilter) (m b : Flags) :
    (∀ flags, f.ok flags = true ↔ flags &&& m = b) ↔
      (f.bits = kpfAllBits ∧ ((f.mask = 0 ∧ ¬ Within b m) ∨
        (m = f.mask ∧ b = m ∧ ∃ i < 64, m = BitVec.twoPow 64 i))) ∨
      (f.bits ≠ kpfAllBits ∧ ((¬ Within f.bits f.mask ∧ ¬ Within b m) ∨
        (Within f.bits f.mask ∧ Within b m ∧ f.mask = m ∧ f.bits = b))) := by
  by_cases hall : f.bits = kpfAllBits
  · simp only [f.ok_of_all hall, forall_ne_zero_iff_eq, hall]
    simp
  · simp only [f.ok_of_ne hall, forall_and_eq_iff]
    simp [hall]

theorem orBits_within (l : List ListItem) : Within (orBits (plain l)) (orBits (every l)) := by
  apply eq_of_getLsbD
  intro k _
  rw [BitVec.getLsbD_and, Bool.and_eq_true, orBits_getLsbD, orBits_getLsbD]
  refine ⟨fun h => h.1, fun h => ⟨h, ?_⟩⟩
  obtain ⟨i, hi, hk⟩ := h
  obtain ⟨x, hx, rfl⟩ := List.mem_map.mp hi
  exact ⟨x.item, List.mem_map_of_mem (List.mem_of_mem_filter hx), hk⟩

theorem orRead_within (l : List ListItem) : Within (orRead (plain l)) (orRead (every l)) := by
  apply eq_of_getLsbD
  intro k _
  rw [BitVec.getLsbD_and, Bool.and_eq_true, orRead_getLsbD, orRead_getLsbD]
  refine ⟨fun h => h.1, fun h => ⟨h, ?_⟩⟩
  obtain ⟨i, hi, hk⟩ := h
  obtain ⟨x, hx, rfl⟩ := List.mem_map.mp hi
  exact ⟨x.item, List.mem_map_of_mem (List.mem_of_mem_filter hx), hk⟩

/-- When an argument means what the usage text says.  The exceptions come from numbers
that are too big for `strtoll`, and from bits that look like the sentinel. -/
def BitsSpec.Sound : BitsSpec → Prop
  | .list l _ =>
    (HasBig (every l) → orBits (every l) = kpfAllBits ∧ HasTop (every l)) ∧
      (l.any ListItem.tilde = true →
        ¬ HasBig (plain l) ∧ orBits (plain l) ≠ kpfAllBits)
  | .masked l l' _ _ =>
    MaskedSound (HasBig (plain l)) (HasTop (plain l)) (HasBig (plain l')) (HasTop (plain l'))
      (orBits (plain l)) (orBits (plain l'))
  | .exact l _ => ¬ HasBig (plain l) ∧ orBits (plain l) ≠ kpfAllBits

theorem sound_list_plain {l : List ListItem} (hl : l ≠ [])
    (htilde : ¬ l.any ListItem.tilde = true) :
    (∀ flags, (BitsSpec.list l hl).filter.ok flags = true ↔
      (BitsSpec.list l hl).Accepts flags) ↔ (BitsSpec.list l hl).Sound := by
  rw [BitsSpec.filter, if_neg htilde]
  simp only [BitsSpec.Accepts, if_neg htilde, BitFilter.ok_of_all, forall_and_ne_zero_iff]
  rw [eq_comm, (reading (every l)).eq_iff]
  simp [BitsSpec.Sound, htilde]

theorem sound_list_tilde {l : List ListItem} (hl : l ≠ [])
    (htilde : l.any ListItem.tilde = true) :
    (∀ flags, (BitsSpec.list l hl).filter.ok flags = true ↔
      (BitsSpec.list l hl).Accepts flags) ↔ (BitsSpec.list l hl).Sound := by
  rw [BitsSpec.filter, if_pos htilde]
  simp only [BitsSpec.Accepts, if_pos htilde, BitFilter.ok_iff]
  simp only [orBits_within, orRead_within, not_true, and_false, false_or, true_and]
  have hsound : (BitsSpec.list l hl).Sound ↔ orBits (every l) = orRead (every l) ∧
      orBits (plain l) = orRead (plain l) ∧ orRead (plain l) ≠ kpfAllBits := by
    rw [BitsSpec.Sound, (reading (every l)).eq_iff, (reading (plain l)).eq_ne_iff]
    simp [htilde]
  rw [hsound]
  constructor
  · rintro (⟨hall, heq, -, i, -, hi⟩ | ⟨hne, hmask, hbits⟩)
    · -- all bits are within the mask, so the mask is no single bit
      have hmask : kpfAllBits &&& orRead (every l) = kpfAllBits := hall ▸ orRead_within l
      rw [kpfAllBits, BitVec.allOnes_and, ← heq, hi] at hmask
      exact absurd hmask.symm (all_ne_twoPow i)
    · exact ⟨hmask.symm, hbits.symm, hne⟩
  · rintro ⟨hmask, hbits, hne⟩
    exact Or.inr ⟨hne, hmask.symm, hbits.symm⟩

theorem sound_masked {l l' : List ListItem} (hl : l ≠ []) (hl' : l' ≠ []) :
    (∀ flags, (BitsSpec.masked l l' hl hl').filter.ok flags = true ↔
      (BitsSpec.masked l l' hl hl').Accepts flags) ↔ (BitsSpec.masked l l' hl hl').Sound := by
  simp only [BitsSpec.filter, BitsSpec.Accepts, BitFilter.ok_iff, BitsSpec.Sound]
  by_cases hall : orRead (plain l') = kpfAllBits
  · rw [← masked_iff_of_eq (reading (plain l)) (reading (plain l')) hall]
    simp [hall]
  · rw [← masked_iff_of_ne (reading (plain l)) (reading (plain l')) hall]
    simp [hall]

theorem sound_exact {l : List ListItem} (hl : l ≠ []) :
    (∀ flags, (BitsSpec.exact l hl).filter.ok flags = true ↔
      (BitsSpec.exact l hl).Accepts flags) ↔ (BitsSpec.exact l hl).Sound := by
  have haccepts (flags : Flags) : (BitsSpec.exact l hl).Accepts flags ↔
      flags &&& kpfAllBits = orBits (plain l) := by
    rw [BitsSpec.Accepts, kpfAllBits, BitVec.and_allOnes]
  simp only [haccepts, BitsSpec.filter, BitFilter.ok_iff, within_all, not_true, and_false,
    false_or, true_and]
  rw [BitsSpec.Sound, ← (reading (plain l)).eq_ne_iff]
  constructor
  · rintro (⟨-, -, i, -, hi⟩ | ⟨hne, heq⟩)
    · exact absurd hi (all_ne_twoPow i)
    · exact ⟨heq.symm, hne⟩
  · rintro ⟨heq, hne⟩
    exact Or.inr ⟨hne, heq.symm⟩

/-- The filter of a documented argument accepts the words that the usage text names if
and only if the argument is sound. -/
theorem bitsMask_accepts_iff (spec : BitsSpec) :
    (∃ f, bitsMask spec.text = .ok f ∧
      ∀ flags, f.ok flags = true ↔ spec.Accepts flags) ↔ spec.Sound := by
  have hfilter : (∃ f, bitsMask spec.text = .ok f ∧
      ∀ flags, f.ok flags = true ↔ spec.Accepts flags) ↔
        ∀ flags, spec.filter.ok flags = true ↔ spec.Accepts flags := by
    rw [bitsMask_text]
    constructor
    · rintro ⟨f, hf, h⟩
      cases hf
      exact h
    · exact fun h => ⟨_, rfl, h⟩
  rw [hfilter]
  cases spec with
  | list l hl =>
    by_cases htilde : l.any ListItem.tilde = true
    · exact sound_list_tilde hl htilde
    · exact sound_list_plain hl htilde
  | masked l l' hl hl' => exact sound_masked hl hl'
  | exact l hl => exact sound_exact hl

/-- `0x8000000000000000` names the top bit, and its filter looks at all the others. -/
theorem bitsMask_saturates :
    let n : Number := ⟨"0x8000000000000000".toList, Numeral.value 16 "8000000000000000".toList,
      .hex 'x' '8' "000000000000000".toList (Or.inl rfl) (by decide)⟩
    let spec : BitsSpec := .list [⟨false, .number n (by decide)⟩] (by simp)
    spec.Accepts (bit 63) ∧
      ∃ f, bitsMask spec.text = .ok f ∧ f.ok (bit 63) = false := by
  intro n spec
  refine ⟨?_, spec.filter, bitsMask_text spec, ?_⟩
  · change bit 63 &&& orBits [.number n (by decide)] ≠ 0
    decide
  · decide

end MceTest.PageTypes

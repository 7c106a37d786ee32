import MceTest.Edac.Inject
import Mathlib.Data.List.Forall2
import Mathlib.Data.List.Nodup
import Mathlib.Data.List.TakeWhile
import Mathlib.Tactic.SplitIfs

/-! The addresses that `inject_lot_ce` chooses lie in the ranges of RAM. -/

namespace MceTest.Edac

open MceTest.Library MceTest.Library.Numeral MceTest.Library.Shell

structure Range where
  start : Nat
  stop : Nat

/-- A line of `/proc/iomem` for a range of RAM. -/
def RamLine (line : Word) (r : Range) : Prop :=
  ∃ indent lo hi rest, line = indent ++ (lo ++ '-' :: hi) ++ " : System RAM".toList ++ rest ∧
    (∀ c ∈ indent, c = ' ') ∧ (lo ≠ [] ∧ Digits 16 lo ∧ value 16 lo = r.start) ∧
    hi ≠ [] ∧ Digits 16 hi ∧ value 16 hi = r.stop

def Range.Tested (r : Range) : Prop :=
  0x100000 ≤ r.start ∧ rangeSizeThr * 0x100000 ≤ r.stop - r.start

/-- Consecutive pages of the range, none of them twice. -/
structure Injected (r : Range) (addrs : List Nat) : Prop where
  consecutive : ∃ pfn, addrs = (List.range numTestaddr).map fun i => (pfn + i) * pagesize
  nodup : addrs.Nodup
  bounds : ∀ addr ∈ addrs, r.start ≤ addr ∧ addr ≤ r.stop

theorem plain_of_digit {c : Char} (h : digitVal c < 16) :
    isBlank c = false ∧ c ≠ '-' ∧ c ≠ ':' := by
  refine ⟨?_, ?_, ?_⟩
  · rw [isBlank, decide_eq_false_iff_not]
    rintro (rfl | rfl | rfl) <;> exact absurd h (by decide)
  · rintro rfl
    exact absurd h (by decide)
  · rintro rfl
    exact absurd h (by decide)

theorem echo_ramLine {line : Word} {indent lo hi rest : List Char}
    (hline : line = indent ++ (lo ++ '-' :: hi) ++ " : System RAM".toList ++ rest)
    (hindent : ∀ c ∈ indent, c = ' ') (hlo : Digits 16 lo) (hhi : Digits 16 hi) :
    echo (line.takeWhile (· ≠ ':')) = lo ++ '-' :: hi := by
  have hword : IsWord (lo ++ '-' :: hi) := by
    refine ⟨List.append_ne_nil_of_right_ne_nil _ (List.cons_ne_nil _ _), fun c hc => ?_⟩
    rcases List.mem_append.mp hc with hc | hc
    · exact (plain_of_digit (hlo c hc)).1
    · rcases List.mem_cons.mp hc with rfl | hc
      · decide
      · exact (plain_of_digit (hhi c hc)).1
  have hplain : ∀ c ∈ indent ++ (lo ++ '-' :: hi) ++ [' '], c ≠ ':' := by
    intro c hc
    simp only [List.mem_append, List.mem_cons, List.not_mem_nil, or_false] at hc
    rcases hc with (hc | hc | rfl | hc) | rfl
    · rw [hindent c hc]
      decide
    · exact (plain_of_digit (hlo c hc)).2.2
    · decide
    · exact (plain_of_digit (hhi c hc)).2.2
    · decide
  have hcut : line.takeWhile (· ≠ ':') = indent ++ (lo ++ '-' :: hi) ++ [' '] := by
    have hsplit : line = indent ++ (lo ++ '-' :: hi) ++ [' '] ++
        ':' :: (" System RAM".toList ++ rest) := by
      rw [hline, List.append_assoc, List.append_assoc _ [' ']]
      rfl
    rw [hsplit, List.takeWhile_append_of_pos fun c hc => decide_eq_true (hplain c hc),
      List.takeWhile_cons_of_neg (by decide), List.append_nil]
  have hblank : ∀ c ∈ indent, isBlank c = true := fun c hc => by rw [hindent c hc]; rfl
  have hend : BlankEnd indent := by
    rcases List.eq_nil_or_concat indent with rfl | ⟨t, b, rfl⟩
    · exact Or.inl rfl
    · exact Or.inr ⟨t, b, List.concat_eq_append, hblank b (by simp)⟩
  rw [hcut, echo, splitWords_around hend hword (Or.inr ⟨' ', [], rfl, rfl⟩),
    splitWords_blanks hblank, show splitWords [' '] = [] from rfl, List.nil_append]
  exact List.intercalate_singleton

theorem arith_hex {ds : List Char} (hne : ds ≠ []) (hds : Digits 16 ds)
    (hlt : value 16 ds < 2 ^ 60) : arith ('0' :: 'x' :: ds) = value 16 ds := by
  have hread := (cNumber_of_hex hne hds).signedPart (Stops.nil 36)
  rw [List.append_nil] at hread
  rw [arith, hread, CInt.toLong_of_bounds] <;> omega

theorem arith_hexWord {n : Nat} (hlt : n < 2 ^ 60) : arith (hexWord n) = n := by
  have hvalue := value_toDigits (by decide : 1 < 16) (by decide) n
  rw [hexWord, CInt.toULong_natCast (by omega), arith_hex Nat.toDigits_ne_nil
    (digits_toDigits (by decide) (by decide) n) (by omega), hvalue]

def firstAddr (urandom : BitVec 32) (r : Range) : Nat :=
  let addr := r.start + urandom.toNat % (r.stop - r.start)
  if r.stop < addr + numTestaddr * pagesize then r.start else addr

variable {r : Range} (urandom : BitVec 32)

theorem Range.Tested.start_lt (hr : r.Tested) : r.start < r.stop := by
  obtain ⟨-, hsize⟩ := hr
  simp only [rangeSizeThr] at hsize
  omega

theorem firstAddr_bounds (hr : r.Tested) :
    r.start ≤ firstAddr urandom r ∧ firstAddr urandom r + numTestaddr * pagesize ≤ r.stop := by
  obtain ⟨-, hsize⟩ := hr
  simp only [rangeSizeThr] at hsize
  by_cases hbehind : r.stop < r.start + urandom.toNat % (r.stop - r.start) + numTestaddr * pagesize
  · rw [firstAddr, if_pos hbehind]
    simp only [numTestaddr, pagesize]
    omega
  · rw [firstAddr, if_neg hbehind]
    omega

theorem randAddr_eq (hr : r.Tested) (hstop : r.stop < 2 ^ 60) :
    randAddr urandom r.start r.stop = firstAddr urandom r := by
  have hlt := hr.start_lt
  have hrange : CInt.toLong ((r.stop : Int) - r.start) = (r.stop - r.start : Nat) := by
    rw [CInt.toLong_of_bounds] <;> omega
  have hmod := Nat.mod_lt urandom.toNat (show 0 < r.stop - r.start by omega)
  have haddr : CInt.toLong (r.start + (urandom.toNat : Int).tmod (r.stop - r.start : Nat)) =
      (r.start + urandom.toNat % (r.stop - r.start) : Nat) := by
    rw [← Int.ofNat_tmod, CInt.toLong_of_bounds] <;> omega
  have hend : CInt.toLong ((r.start + urandom.toNat % (r.stop - r.start) : Nat) +
      (numTestaddr * pagesize : Nat)) =
      (r.start + urandom.toNat % (r.stop - r.start) + numTestaddr * pagesize : Nat) := by
    rw [CInt.toLong_of_bounds] <;> simp only [numTestaddr, pagesize] <;> omega
  simp only [randAddr, hrange, haddr, firstAddr]
  rw [← Nat.cast_mul, hend, arith_hexWord (by omega)]
  simp only [gt_iff_lt, Nat.cast_lt]
  split_ifs <;> rfl

theorem arith_testAddr (first i : Nat) (hlt : first + i * pagesize < 2 ^ 61) :
    arith (testAddr first i) = ((first / pagesize + i) * pagesize : Nat) ∧
      strtoull (testAddr first i) = (first / pagesize + i) * pagesize := by
  simp only [pagesize] at hlt ⊢
  have hpfn : CInt.toLong ((first : Int).tdiv (4096 : Nat) + i) = (first / 4096 + i : Nat) := by
    rw [← Int.ofNat_tdiv, CInt.toLong_of_bounds] <;> omega
  have hnumber := cNumber_hex_zeros (first / 4096 + i) 3
  have hread := hnumber.signedPart (Stops.nil 36)
  have htext : testAddr first i =
      '0' :: 'x' :: (Nat.toDigits 16 (first / 4096 + i) ++ List.replicate 3 '0') := by
    have hnat : CInt.toULong ((first / 4096 + i : Nat) : Int) = first / 4096 + i :=
      CInt.toULong_natCast (by omega)
    simp only [testAddr, pagesize, hpfn, hexWord, hnat]
    rfl
  rw [List.append_nil] at hread
  rw [htext]
  refine ⟨?_, ?_⟩
  · rw [arith, hread, CInt.toLong_of_bounds] <;> omega
  · rw [hnumber.strtoull]
    omega

theorem dash_stops {ds : List Char} (hds : Digits 16 ds) : ∀ c ∈ ds, decide (c ≠ '-') = true :=
  fun c hc => decide_eq_true (plain_of_digit (hds c hc)).2.1

theorem startAddr_ramLine {lo hi : List Char} (hlo : Digits 16 lo) (text : Word)
    (htext : echo text = lo ++ '-' :: hi) : startAddr text = '0' :: 'x' :: lo := by
  rw [startAddr, htext, List.takeWhile_append_of_pos (dash_stops hlo),
    List.takeWhile_cons_of_neg (by decide), List.append_nil]

theorem endAddr_ramLine {lo hi : List Char} (hlo : Digits 16 lo) (hhi : Digits 16 hi) (text : Word)
    (htext : echo text = lo ++ '-' :: hi) : endAddr text = '0' :: 'x' :: hi := by
  rw [endAddr, htext, List.dropWhile_append_of_pos (dash_stops hlo),
    List.dropWhile_cons_of_neg (by decide), List.drop_one, List.tail_cons,
    List.takeWhile_eq_self_iff.mpr (dash_stops hhi)]

theorem RamLine.ends {line : Word} (hline : RamLine line r) (hlt : r.start < r.stop)
    (hstop : r.stop < 2 ^ 60) :
    arith (startAddr (line.takeWhile (· ≠ ':'))) = r.start ∧
      arith (endAddr (line.takeWhile (· ≠ ':'))) = r.stop := by
  obtain ⟨indent, lo, hi, rest, htext, hindent, ⟨hlo₀, hlo, hstart⟩, hhi₀, hhi, hend⟩ := hline
  have hecho := echo_ramLine htext hindent hlo hhi
  rw [startAddr_ramLine hlo _ hecho, endAddr_ramLine hlo hhi _ hecho,
    arith_hex hlo₀ hlo (by omega), arith_hex hhi₀ hhi (by omega), hstart, hend]
  exact ⟨rfl, rfl⟩

variable {text : Word}

theorem toLong_sizeThr : CInt.toLong (rangeSizeThr * 0x100000) = 524288000 := by decide

theorem injectLine_tested (hr : r.Tested) (hstop : r.stop < 2 ^ 60)
    (hfirst : arith (startAddr text) = r.start) (hlast : arith (endAddr text) = r.stop) :
    injectLine urandom text =
      (List.range numTestaddr).map fun i => testAddr (firstAddr urandom r) (i + 1) := by
  have hlt := hr.start_lt
  obtain ⟨hmib, hsize⟩ := hr
  have hmib' : ¬ (r.start : Int) < 0x100000 := by omega
  have hspan : ¬ CInt.toLong ((r.stop : Int) - r.start) <
      CInt.toLong (rangeSizeThr * 0x100000) := by
    simp only [rangeSizeThr] at hsize
    rw [CInt.toLong_of_bounds (by omega) (by omega), toLong_sizeThr]
    omega
  simp only [injectLine, hfirst, hlast, if_neg hmib', if_neg hspan,
    randAddr_eq urandom ⟨hmib, hsize⟩ hstop]
  rw [List.takeWhile_eq_self_iff]
  intro word hword
  obtain ⟨i, hi, rfl⟩ := List.mem_map.mp hword
  have hbounds := firstAddr_bounds urandom ⟨hmib, hsize⟩
  rw [List.mem_range] at hi
  simp only [numTestaddr, pagesize] at hi hbounds
  have hread := (arith_testAddr (firstAddr urandom r) (i + 1)
    (by simp only [pagesize]; omega)).1
  simp only [pagesize] at hread
  rw [hread, decide_eq_true_iff]
  omega

theorem injectLine_skipped (hr : ¬ r.Tested) (hlt : r.start < r.stop) (hstop : r.stop < 2 ^ 60)
    (hfirst : arith (startAddr text) = r.start) (hlast : arith (endAddr text) = r.stop) :
    injectLine urandom text = [] := by
  simp only [injectLine, hfirst, hlast]
  by_cases hmib : (r.start : Int) < 0x100000
  · rw [if_pos hmib]
  · have hspan : CInt.toLong ((r.stop : Int) - r.start) <
        CInt.toLong (rangeSizeThr * 0x100000) := by
      have hstart : 0x100000 ≤ r.start := by omega
      have hsmall : ¬ rangeSizeThr * 0x100000 ≤ r.stop - r.start :=
        fun hsize => hr ⟨hstart, hsize⟩
      simp only [rangeSizeThr] at hsmall
      rw [CInt.toLong_of_bounds (by omega) (by omega), toLong_sizeThr]
      omega
    rw [if_neg hmib, if_pos hspan]

theorem injected_tested (hr : r.Tested) (hstop : r.stop < 2 ^ 60)
    (hfirst : arith (startAddr text) = r.start) (hlast : arith (endAddr text) = r.stop) :
    Injected r ((injectLine urandom text).map strtoull) := by
  have hbounds := firstAddr_bounds urandom hr
  have haddrs : (injectLine urandom text).map strtoull =
      (List.range numTestaddr).map fun i =>
        (firstAddr urandom r / pagesize + 1 + i) * pagesize := by
    rw [injectLine_tested urandom hr hstop hfirst hlast, List.map_map]
    refine List.map_congr_left fun i hi => ?_
    rw [List.mem_range] at hi
    simp only [numTestaddr, pagesize] at hi hbounds
    rw [Function.comp_apply, (arith_testAddr _ _ (by simp only [pagesize]; omega)).2,
      Nat.add_right_comm, Nat.add_assoc]
  refine ⟨⟨_, haddrs⟩, ?_, fun addr haddr => ?_⟩
  · rw [haddrs]
    refine List.nodup_range.map_on fun i _ j _ hij => ?_
    simp only [pagesize] at hij
    omega
  · rw [haddrs] at haddr
    obtain ⟨i, hi, rfl⟩ := List.mem_map.mp haddr
    rw [List.mem_range] at hi
    simp only [numTestaddr, pagesize] at hi hbounds ⊢
    omega

/-- For every list of ranges of RAM the tested ranges, and no others, get `numTestaddr` addresses
each, consecutive pages inside the range. -/
theorem injectLotCe_in_ranges (urandom : BitVec 32) (iomem : List Word) (ranges : List Range)
    (hlines : List.Forall₂ RamLine
      (iomem.filter fun line => "System RAM".toList <:+: line) ranges)
    (hranges : ∀ r ∈ ranges, r.start < r.stop ∧ r.stop < 2 ^ 60) :
    ∃ parts, injectLotCe urandom iomem = parts.flatten ∧
      List.Forall₂ (fun (r : Range) addrs =>
        (r.Tested → Injected r addrs) ∧ (¬ r.Tested → addrs = [])) ranges parts := by
  rw [injectLotCe, iomemTmp]
  generalize (iomem.filter fun line => "System RAM".toList <:+: line) = lines at hlines
  induction hlines with
  | nil => exact ⟨[], rfl, .nil⟩
  | @cons line r lines ranges hline _ ih =>
    obtain ⟨parts, hparts, hall⟩ := ih fun r hr => hranges r (.tail _ hr)
    obtain ⟨hlt, hstop⟩ := hranges r (.head _)
    obtain ⟨hfirst, hlast⟩ := hline.ends hlt hstop
    refine ⟨(injectLine urandom (line.takeWhile (· ≠ ':'))).map strtoull :: parts, ?_,
      .cons ⟨fun hr => injected_tested urandom hr hstop hfirst hlast, fun hr => ?_⟩ hall⟩
    · rw [List.map_cons, List.flatMap_cons, List.map_append, hparts, List.flatten_cons]
    · rw [injectLine_skipped urandom hr hlt hstop hfirst hlast, List.map_nil]

/-- Low memory, a large range that starts in the middle of a page, and one that is no RAM. -/
def sampleIomem : List Word :=
  ["00001000-0009ffff : System RAM".toList, "000a0000-000fffff : PCI Bus".toList,
    "100000800-1400007ff : System RAM".toList]

theorem injectLotCe_in_sample :
    ∃ parts, injectLotCe 0x3ffff000 sampleIomem = parts.flatten ∧
      List.Forall₂ (fun (r : Range) addrs =>
        (r.Tested → Injected r addrs) ∧ (¬ r.Tested → addrs = []))
        [⟨0x1000, 0x9ffff⟩, ⟨0x100000800, 0x1400007ff⟩] parts := by
  refine injectLotCe_in_ranges 0x3ffff000 sampleIomem _ ?_ ?_
  · have hlines : (sampleIomem.filter fun line => "System RAM".toList <:+: line) =
        ["00001000-0009ffff : System RAM".toList,
          "100000800-1400007ff : System RAM".toList] := by decide +kernel
    rw [hlines]
    refine .cons ⟨[], "00001000".toList, "0009ffff".toList, [], rfl, nofun,
      ⟨by decide, by decide, by decide⟩, by decide, by decide, by decide⟩ (.cons ?_ .nil)
    exact ⟨[], "100000800".toList, "1400007ff".toList, [], rfl, nofun,
      ⟨by decide, by decide, by decide⟩, by decide, by decide, by decide⟩
  · decide

end MceTest.Edac

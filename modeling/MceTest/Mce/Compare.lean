import MceTest.Library.Lines

/-! `mce_cmp` of `lib/mce.sh`: two dumps of machine-check records as multisets. -/

namespace MceTest.Mce

open MceTest.Library.Lines

abbrev Line := List Char

/-- `tr '\n' '#'` -/
def tr (t : List Char) : List Char := t.map fun c => if c = '\n' then '#' else c

/-- `sed '1,$s/##/\n/g'` of a text of one line. -/
def sedSharp : List Char → List Char
  | [] => []
  | [c] => [c]
  | c :: d :: cs => if c = '#' ∧ d = '#' then '\n' :: sedSharp cs else c :: sedSharp (d :: cs)

variable {File : Type}

/-- `mce_reformat_for_cmp`, with what `mce-inject --dump` prints of a file, and the lines that
the removal patterns match. -/
def mceReformatForCmp (dump : File → List Char) (sh : Collation) (removes : List (Line → Bool))
    (inf : File) : List Char :=
  let tmpf := removes.foldl (fun tmpf remove => sedDelete remove tmpf) (dump inf)
  sh.sort (grepOut "#STATUS 0x800000000000000#".toList
    (grepOut "#STATUS 0x0#".toList (sedSharp (tr tmpf))))

def mceCmp (dump : File → List Char) (sh : Collation) (removes : List (Line → Bool))
    (m1 m2 : File) : Nat :=
  if mceReformatForCmp dump sh removes m1 = mceReformatForCmp dump sh removes m2 then 0 else 1

theorem mceCmp_le_one (dump : File → List Char) (sh : Collation) (removes : List (Line → Bool))
    (m1 m2 : File) : mceCmp dump sh removes m1 m2 ≤ 1 := by
  rw [mceCmp]
  split <;> decide

structure Plain (l : Line) : Prop where
  ne : l ≠ []
  sharp : '#' ∉ l
  newline : '\n' ∉ l

instance (l : Line) : Decidable (Plain l) :=
  decidable_of_iff (l ≠ [] ∧ '#' ∉ l ∧ '\n' ∉ l)
    ⟨fun h => ⟨h.1, h.2.1, h.2.2⟩, fun h => ⟨h.ne, h.sharp, h.newline⟩⟩

def statusLine (value : List Char) : Line := "STATUS ".toList ++ value

structure Record where
  before : List Line
  status : List Char
  after : List Line
  plain : ∀ l ∈ before ++ statusLine status :: after, Plain l
  single : ∀ l ∈ before ++ after, ¬ "STATUS ".toList <+: l
  before_ne : before ≠ []
  after_ne : after ≠ []

def Record.lines (r : Record) : List Line := r.before ++ statusLine r.status :: r.after

/-- What is printed of the records: their lines, and an empty line after each. -/
def printed (rs : List Record) : List Char := unlines (rs.flatMap fun r => r.lines ++ [[]])

def kept (removes : List (Line → Bool)) (ls : List Line) : List Line :=
  ls.filter fun l => removes.all fun remove => !remove l

def Leaves (removes : List (Line → Bool)) (r : Record) : Prop :=
  kept removes r.before ≠ [] ∧ kept removes r.after ≠ []

def dropped (ls : List Line) : Bool :=
  ls.contains (statusLine "0x0".toList) || ls.contains (statusLine "0x800000000000000".toList)

def compared (removes : List (Line → Bool)) (rs : List Record) : List (List Line) :=
  (rs.map fun r => kept removes r.lines).filter fun ls => !dropped ls

def flat (ls : List Line) : List Char := ['#'].intercalate ls

theorem flat_cons_cons (l l' : Line) (ls : List Line) :
    flat (l :: l' :: ls) = l ++ '#' :: flat (l' :: ls) := by
  rw [flat, List.intercalate_cons_cons, List.append_assoc]
  rfl

theorem flat_singleton (l : Line) : flat [l] = l := List.intercalate_singleton

theorem sedSharp_cons {c : Char} (h : c ≠ '#') (t : List Char) :
    sedSharp (c :: t) = c :: sedSharp t := by
  cases t with
  | nil => rfl
  | cons d t => exact if_neg fun hc => h hc.1

theorem sedSharp_append {l : List Char} (h : '#' ∉ l) (t : List Char) :
    sedSharp (l ++ t) = l ++ sedSharp t := by
  induction l with
  | nil => rfl
  | cons c l ih =>
    obtain ⟨hc, hl⟩ := not_or.mp (mt List.mem_cons.mpr h)
    rw [List.cons_append, sedSharp_cons (Ne.symm hc), ih hl]
    rfl

theorem tr_append (s t : List Char) : tr (s ++ t) = tr s ++ tr t := List.map_append

theorem tr_plain {l : List Char} (h : '\n' ∉ l) : tr l = l := by
  rw [tr]
  conv_rhs => rw [← List.map_id l]
  refine List.map_congr_left fun c hc => if_neg ?_
  rintro rfl
  exact h hc

theorem tr_unlines_cons {l : Line} (hl : '\n' ∉ l) (ls : List Line) :
    tr (unlines (l :: ls)) = l ++ '#' :: tr (unlines ls) := by
  rw [unlines, List.flatMap_cons, tr_append, tr_append, tr_plain hl, List.append_assoc]
  rfl

theorem sedSharp_sharp {t : List Char} (h : t.head? ≠ some '#') :
    sedSharp ('#' :: t) = '#' :: sedSharp t := by
  cases t with
  | nil => rfl
  | cons c t => exact if_neg fun hc => h (congrArg some hc.2)

theorem sedSharp_record {ls : List Line} (hne : ls ≠ []) (hls : ∀ l ∈ ls, Plain l)
    (t : List Char) :
    sedSharp (tr (unlines (ls ++ [[]])) ++ t) = flat ls ++ '\n' :: sedSharp t := by
  induction ls with
  | nil => exact absurd rfl hne
  | cons l ls ih =>
    have hl := hls l List.mem_cons_self
    rw [List.cons_append, tr_unlines_cons hl.newline, List.append_assoc, List.cons_append,
      sedSharp_append hl.sharp]
    cases ls with
    | nil =>
      rw [flat_singleton]
      rfl
    | cons l' ls =>
      have hl' := hls l' (.tail _ List.mem_cons_self)
      obtain ⟨c, l'', hc⟩ := List.exists_cons_of_ne_nil hl'.ne
      have hhead : (tr (unlines (l' :: ls ++ [[]])) ++ t).head? ≠ some '#' := by
        rw [List.cons_append, tr_unlines_cons hl'.newline, hc]
        intro h
        exact hl'.sharp (hc ▸ Option.some.inj h ▸ List.mem_cons_self)
      rw [sedSharp_sharp hhead, ih (List.cons_ne_nil l' ls) fun m hm => hls m (.tail _ hm),
        flat_cons_cons, List.append_assoc, List.cons_append]

theorem sedSharp_records {rs : List (List Line)} (hne : ∀ ls ∈ rs, ls ≠ [])
    (hrs : ∀ ls ∈ rs, ∀ l ∈ ls, Plain l) :
    sedSharp (tr (unlines (rs.flatMap (· ++ [[]])))) = unlines (rs.map flat) := by
  induction rs with
  | nil => rfl
  | cons ls rs ih =>
    have hsplit : unlines ((ls :: rs).flatMap (· ++ [[]])) =
        unlines (ls ++ [[]]) ++ unlines (rs.flatMap (· ++ [[]])) := by
      rw [List.flatMap_cons, unlines, List.flatMap_append]
      rfl
    rw [hsplit, tr_append, sedSharp_record (hne ls List.mem_cons_self) (hrs ls List.mem_cons_self),
      ih (fun m hm => hne m (.tail _ hm)) (fun m hm => hrs m (.tail _ hm)), List.map_cons, unlines,
      unlines, List.flatMap_cons, List.append_assoc]
    rfl

theorem infix_sharp {l : Line} (hl : '#' ∉ l) (p t : List Char) :
    '#' :: p <:+: l ++ '#' :: t ↔ p <+: t ∨ '#' :: p <:+: t := by
  induction l with
  | nil => rw [List.nil_append, List.infix_cons_iff, List.cons_prefix_cons, eq_self, true_and]
  | cons c l ih =>
    obtain ⟨hc, hl⟩ := not_or.mp (mt List.mem_cons.mpr hl)
    rw [List.cons_append, List.infix_cons_iff, List.cons_prefix_cons, or_iff_right fun h => hc h.1,
      ih hl]

theorem takeWhile_sharp {w : Line} (hw : '#' ∉ w) (t : List Char) :
    (w ++ '#' :: t).takeWhile (· ≠ '#') = w := by
  rw [List.takeWhile_append_of_pos, List.takeWhile_cons_of_neg (by decide), List.append_nil]
  intro c hc
  refine decide_eq_true ?_
  rintro rfl
  exact hw hc

theorem prefix_flat {w : Line} (hw : '#' ∉ w) {l : Line} (hl : '#' ∉ l) (ls : List Line) :
    w ++ ['#'] <+: flat (l :: ls) ↔ l = w ∧ ls ≠ [] := by
  cases ls with
  | nil =>
    rw [flat_singleton]
    refine iff_of_false (fun h => ?_) fun h => h.2 rfl
    exact hl (h.mem (List.mem_append_right w List.mem_cons_self))
  | cons l' ls =>
    rw [flat_cons_cons]
    constructor
    · rintro ⟨u, hu⟩
      rw [List.append_assoc, List.singleton_append] at hu
      have htake := congrArg (List.takeWhile (· ≠ '#')) hu
      rw [takeWhile_sharp hw, takeWhile_sharp hl] at htake
      exact ⟨htake.symm, List.cons_ne_nil l' ls⟩
    · rintro ⟨rfl, -⟩
      exact ⟨flat (l' :: ls), by rw [List.append_assoc, List.singleton_append]⟩

theorem infix_flat {w : Line} (hw : '#' ∉ w) {ls : List Line} (hls : ∀ l ∈ ls, '#' ∉ l) :
    '#' :: (w ++ ['#']) <:+: flat ls ↔
      ∃ before after, before ≠ [] ∧ after ≠ [] ∧ ls = before ++ w :: after := by
  induction ls with
  | nil =>
    refine iff_of_false (fun h => ?_) ?_
    · exact absurd (List.infix_nil.mp h) (List.cons_ne_nil _ _)
    · rintro ⟨before, after, -, -, h⟩
      exact List.append_ne_nil_of_right_ne_nil before (List.cons_ne_nil w after) h.symm
  | cons l ls ih =>
    have hl := hls l List.mem_cons_self
    cases ls with
    | nil =>
      rw [flat_singleton]
      refine iff_of_false (fun h => hl (h.mem List.mem_cons_self)) ?_
      rintro ⟨before, after, hbefore, hafter, h⟩
      have hlen := congrArg List.length h
      have := List.length_pos_iff.mpr hbefore
      have := List.length_pos_iff.mpr hafter
      simp at hlen
      omega
    | cons l' ls =>
      rw [flat_cons_cons, infix_sharp hl,
        prefix_flat hw (hls l' (.tail _ List.mem_cons_self)), ih fun m hm => hls m (.tail _ hm)]
      constructor
      · rintro (⟨rfl, hne⟩ | ⟨before, after, hbefore, hafter, h⟩)
        · exact ⟨[l], ls, List.cons_ne_nil l [], hne, rfl⟩
        · exact ⟨l :: before, after, List.cons_ne_nil l before, hafter, congrArg (l :: ·) h⟩
      · rintro ⟨before, after, hbefore, hafter, h⟩
        cases before with
        | nil => exact absurd rfl hbefore
        | cons m before =>
          obtain ⟨-, hrest⟩ := List.cons.inj h
          cases before with
          | nil =>
            obtain ⟨hw, hls⟩ := List.cons.inj hrest
            exact .inl ⟨hw, hls ▸ hafter⟩
          | cons m' before =>
            exact .inr ⟨m' :: before, after, List.cons_ne_nil m' before, hafter, hrest⟩

theorem splitOn_flat {ls : List Line} (hne : ls ≠ []) (hls : ∀ l ∈ ls, '#' ∉ l) :
    (flat ls).splitOn '#' = ls := List.splitOn_intercalate '#' hls hne

variable {removes : List (Line → Bool)} {rs rs' : List Record}

theorem removes_unlines (removes : List (Line → Bool)) {ls : List Line}
    (hls : ∀ l ∈ ls, '\n' ∉ l) :
    removes.foldl (fun tmpf remove => sedDelete remove tmpf) (unlines ls) =
      unlines (kept removes ls) := by
  induction removes generalizing ls with
  | nil => exact congrArg unlines (List.filter_eq_self.mpr fun _ _ => rfl).symm
  | cons remove removes ih =>
    rw [List.foldl_cons, sedDelete_unlines remove hls,
      ih fun l hl => hls l (List.mem_of_mem_filter hl), kept, kept, List.filter_filter]
    exact congrArg unlines (List.filter_congr fun l _ => Bool.and_comm ..)

theorem kept_plain {ls : List Line} (hls : ∀ l ∈ ls, Plain l) : ∀ l ∈ kept removes ls, Plain l :=
  fun l hl => hls l (List.mem_of_mem_filter hl)

theorem kept_lines (r : Record) : kept removes r.lines =
    kept removes r.before ++ (kept removes [statusLine r.status] ++ kept removes r.after) := by
  rw [Record.lines, kept, List.filter_append, ← List.singleton_append, List.filter_append]
  rfl

/-- With a line left before and after it, the status is found if it is there. -/
theorem Leaves.infix_iff {r : Record} (h : Leaves removes r) (value : List Char)
    (hvalue : '#' ∉ value) :
    '#' :: (statusLine value ++ ['#']) <:+: flat (kept removes r.lines) ↔
      statusLine value ∈ kept removes r.lines := by
  have hstatus : '#' ∉ statusLine value := by
    intro hmem
    rcases List.mem_append.mp hmem with hmem | hmem
    · exact absurd hmem (by decide)
    · exact hvalue hmem
  have hsharp : ∀ l ∈ kept removes r.lines, '#' ∉ l := fun l hl => (kept_plain r.plain l hl).sharp
  rw [infix_flat hstatus hsharp]
  constructor
  · rintro ⟨before, after, -, -, heq⟩
    rw [heq]
    exact List.mem_append_right before List.mem_cons_self
  · intro hmem
    have hother (ls : List Line) (hls : ∀ l ∈ ls, l ∈ r.before ++ r.after) :
        statusLine value ∉ kept removes ls := fun hin =>
      r.single _ (hls _ (List.mem_of_mem_filter hin)) ⟨value, rfl⟩
    rw [kept_lines] at hmem ⊢
    have hself : statusLine value ∈ kept removes [statusLine r.status] := by
      rcases List.mem_append.mp hmem with hmem | hmem
      · exact absurd hmem (hother _ fun l hl => List.mem_append_left _ hl)
      · rcases List.mem_append.mp hmem with hmem | hmem
        · exact hmem
        · exact absurd hmem (hother _ fun l hl => List.mem_append_right _ hl)
    have hall : kept removes [statusLine r.status] = [statusLine value] := by
      have heq := List.mem_singleton.mp (List.mem_of_mem_filter hself)
      rw [← heq] at hself ⊢
      rw [kept]
      refine List.filter_eq_self.mpr fun l hl => ?_
      rw [List.mem_singleton.mp hl]
      exact (List.mem_filter.mp hself).2
    rw [hall]
    exact ⟨_, _, h.1, h.2, rfl⟩

theorem Leaves.ne_nil {r : Record} (h : Leaves removes r) : kept removes r.lines ≠ [] := by
  rw [kept_lines]
  exact List.append_ne_nil_of_left_ne_nil h.1 _

theorem kept_empty (hremoves : ∀ remove ∈ removes, remove [] = false) :
    kept removes [[]] = [[]] := by
  refine List.filter_eq_self.mpr fun l hl => ?_
  rw [List.mem_singleton.mp hl, List.all_eq_true]
  intro remove hremove
  rw [hremoves remove hremove]
  rfl

theorem kept_printed (hremoves : ∀ remove ∈ removes, remove [] = false) (rs : List Record) :
    kept removes (rs.flatMap fun r => r.lines ++ [[]]) =
      (rs.map fun r => kept removes r.lines).flatMap (· ++ [[]]) := by
  rw [kept, List.filter_flatMap, List.flatMap_map]
  refine congrArg (List.flatMap · rs) (funext fun r => ?_)
  rw [List.filter_append]
  exact congrArg (_ ++ ·) (kept_empty hremoves)

theorem printed_newline {rs : List Record} :
    ∀ l ∈ rs.flatMap fun r => r.lines ++ [[]], '\n' ∉ l := by
  intro l hl
  obtain ⟨r, -, hl⟩ := List.mem_flatMap.mp hl
  rcases List.mem_append.mp hl with hl | hl
  · exact (r.plain l hl).newline
  · rw [List.mem_singleton.mp hl]
    exact List.not_mem_nil

theorem flat_newline {ls : List Line} (hls : ∀ l ∈ ls, Plain l) : '\n' ∉ flat ls := by
  induction ls with
  | nil => exact List.not_mem_nil
  | cons l ls ih =>
    have hl := (hls l List.mem_cons_self).newline
    cases ls with
    | nil => rwa [flat_singleton]
    | cons l' ls =>
      rw [flat_cons_cons]
      intro h
      rcases List.mem_append.mp h with h | h
      · exact hl h
      · rcases List.mem_cons.mp h with h | h
        · exact absurd h (by decide)
        · exact ih (fun m hm => hls m (.tail _ hm)) h

theorem reformat_printed (hremoves : ∀ remove ∈ removes, remove [] = false)
    (hrs : ∀ r ∈ rs, Leaves removes r) :
    grepOut "#STATUS 0x800000000000000#".toList (grepOut "#STATUS 0x0#".toList
      (sedSharp (tr (removes.foldl (fun tmpf remove => sedDelete remove tmpf) (printed rs))))) =
    unlines ((compared removes rs).map flat) := by
  have hplain : ∀ ls ∈ rs.map fun r => kept removes r.lines, ∀ l ∈ ls, Plain l := by
    intro ls hls
    obtain ⟨r, -, rfl⟩ := List.mem_map.mp hls
    exact kept_plain r.plain
  have hne : ∀ ls ∈ rs.map fun r => kept removes r.lines, ls ≠ [] := by
    intro ls hls
    obtain ⟨r, hr, rfl⟩ := List.mem_map.mp hls
    exact (hrs r hr).ne_nil
  have hnewline : ∀ l ∈ (rs.map fun r => kept removes r.lines).map flat, '\n' ∉ l := by
    intro l hl
    obtain ⟨ls, hls, rfl⟩ := List.mem_map.mp hl
    exact flat_newline (hplain ls hls)
  rw [printed, removes_unlines removes printed_newline, kept_printed hremoves,
    sedSharp_records hne hplain, grepOut_unlines _ hnewline,
    grepOut_unlines _ fun l hl => hnewline l (List.mem_of_mem_filter hl), List.filter_filter,
    List.filter_map, compared]
  refine congrArg (fun ls => unlines (ls.map flat)) (List.filter_congr fun ls hls => ?_)
  obtain ⟨r, hr, rfl⟩ := List.mem_map.mp hls
  have hzero := (hrs r hr).infix_iff "0x0".toList (by decide)
  have hbit := (hrs r hr).infix_iff "0x800000000000000".toList (by decide)
  have hzerotext : "#STATUS 0x0#".toList = '#' :: (statusLine "0x0".toList ++ ['#']) := by decide
  have hbittext : "#STATUS 0x800000000000000#".toList =
      '#' :: (statusLine "0x800000000000000".toList ++ ['#']) := by decide
  rw [Function.comp_apply, hzerotext, hbittext, dropped]
  simp only [hzero, hbit, ← List.contains_iff_mem]
  rw [Bool.and_comm, ← Bool.not_or, Bool.decide_eq_true, Bool.decide_eq_true]

theorem compared_plain (hrs : ∀ r ∈ rs, Leaves removes r) {ls : List Line}
    (h : ls ∈ compared removes rs) : ls ≠ [] ∧ ∀ l ∈ ls, Plain l := by
  obtain ⟨r, hr, rfl⟩ := List.mem_map.mp (List.mem_of_mem_filter h)
  exact ⟨(hrs r hr).ne_nil, kept_plain r.plain⟩

theorem flats_perm_iff (hrs : ∀ r ∈ rs, Leaves removes r) (hrs' : ∀ r ∈ rs', Leaves removes r) :
    ((compared removes rs).map flat).Perm ((compared removes rs').map flat) ↔
      (compared removes rs).Perm (compared removes rs') := by
  have hback {rs : List Record} (hrs : ∀ r ∈ rs, Leaves removes r) :
      ((compared removes rs).map flat).map (List.splitOn '#') = compared removes rs := by
    rw [List.map_map]
    conv_rhs => rw [← List.map_id (compared removes rs)]
    refine List.map_congr_left fun ls hls => ?_
    obtain ⟨hne, hplain⟩ := compared_plain hrs hls
    exact splitOn_flat hne fun l hl => (hplain l hl).sharp
  constructor
  · intro h
    have hsplit := h.map (List.splitOn '#')
    rwa [hback hrs, hback hrs'] at hsplit
  · exact fun h => h.map flat

variable {dump : File → List Char} {m1 m2 : File}

theorem mceCmp_eq_zero_iff (sh : Collation) (hremoves : ∀ remove ∈ removes, remove [] = false)
    (h1 : dump m1 = printed rs) (h2 : dump m2 = printed rs')
    (hrs : ∀ r ∈ rs, Leaves removes r) (hrs' : ∀ r ∈ rs', Leaves removes r) :
    mceCmp dump sh removes m1 m2 = 0 ↔ (compared removes rs).Perm (compared removes rs') := by
  have hflat {rs : List Record} (hrs : ∀ r ∈ rs, Leaves removes r) :
      ∀ l ∈ (compared removes rs).map flat, '\n' ∉ l := by
    intro l hl
    obtain ⟨ls, hls, rfl⟩ := List.mem_map.mp hl
    exact flat_newline (compared_plain hrs hls).2
  have hreformat {rs : List Record} (hrs : ∀ r ∈ rs, Leaves removes r) {m : File}
      (h : dump m = printed rs) : mceReformatForCmp dump sh removes m =
      sh.sort (unlines ((compared removes rs).map flat)) := by
    rw [mceReformatForCmp, h]
    exact congrArg sh.sort (reformat_printed hremoves hrs)
  rw [mceCmp, hreformat hrs h1, hreformat hrs' h2, ← flats_perm_iff hrs hrs',
    ← sh.sort_unlines_eq_iff (hflat hrs) (hflat hrs')]
  split
  · rename_i heq
    exact iff_of_true rfl heq
  · rename_i hne
    exact iff_of_false (by decide) hne

/-- The comparison is one of multisets of records, without those that are dropped and without
the lines that a pattern matches; so the order of the records is irrelevant. -/
theorem mceCmp_multiset (sh : Collation) (hremoves : ∀ remove ∈ removes, remove [] = false)
    (h1 : dump m1 = printed rs) (h2 : dump m2 = printed rs')
    (hrs : ∀ r ∈ rs, Leaves removes r) (hrs' : ∀ r ∈ rs', Leaves removes r) :
    (mceCmp dump sh removes m1 m2 = 0 ↔ (compared removes rs).Perm (compared removes rs')) ∧
      ∀ n1 n2 ss ss', dump n1 = printed ss → dump n2 = printed ss' → ss.Perm rs → ss'.Perm rs' →
        mceCmp dump sh removes n1 n2 = mceCmp dump sh removes m1 m2 := by
  refine ⟨mceCmp_eq_zero_iff sh hremoves h1 h2 hrs hrs', fun n1 n2 ss ss' hn1 hn2 hss hss' => ?_⟩
  have hiff := mceCmp_eq_zero_iff sh hremoves hn1 hn2 (fun r hr => hrs r (hss.mem_iff.mp hr))
    (fun r hr => hrs' r (hss'.mem_iff.mp hr))
  have hcompared {rs ss : List Record} (h : ss.Perm rs) :
      (compared removes ss).Perm (compared removes rs) := (h.map _).filter _
  have hperm : (compared removes ss).Perm (compared removes ss') ↔
      (compared removes rs).Perm (compared removes rs') :=
    ⟨fun h => (hcompared hss).symm.trans (h.trans (hcompared hss')),
      fun h => (hcompared hss).trans (h.trans (hcompared hss').symm)⟩
  rw [hperm, ← mceCmp_eq_zero_iff sh hremoves h1 h2 hrs hrs'] at hiff
  have hle := mceCmp_le_one dump sh removes n1 n2
  have hle' := mceCmp_le_one dump sh removes m1 m2
  omega

/-- The order of the `C` locale. -/
def byChars : Collation where
  le := fun a b => decide (List.instLE.le a b)
  trans := fun a b c hab hbc => decide_eq_true
    (List.le_trans (of_decide_eq_true hab) (of_decide_eq_true hbc))
  total := fun a b => by
    simpa only [Bool.or_eq_true, decide_eq_true_eq] using List.le_total a b
  antisymm := fun a b hab hba => List.le_antisymm (of_decide_eq_true hab) (of_decide_eq_true hba)

def pollRecord : Record where
  before := ["CPU 0 BANK 1".toList]
  status := "0x9c00000000000000".toList
  after := ["MCGSTATUS 0x0".toList]
  plain := by decide
  single := by decide
  before_ne := List.cons_ne_nil _ _
  after_ne := List.cons_ne_nil _ _

def panicRecord : Record where
  before := ["CPU 1 BANK 4".toList]
  status := "0xbe00000000000000".toList
  after := ["TIME 7".toList, "MCGSTATUS 0x5".toList]
  plain := by decide
  single := by decide
  before_ne := List.cons_ne_nil _ _
  after_ne := List.cons_ne_nil _ _

def timePattern (l : Line) : Bool := "TIME".toList <:+: l

theorem mceCmp_multiset_time :
    ((∀ remove ∈ [timePattern], remove [] = false) ∧
      ∀ r ∈ [pollRecord, panicRecord], Leaves [timePattern] r) ∧
    (mceCmp printed byChars [timePattern] [pollRecord, panicRecord] [panicRecord, pollRecord] = 0 ↔
      (compared [timePattern] [pollRecord, panicRecord]).Perm
        (compared [timePattern] [panicRecord, pollRecord])) ∧
      ∀ n1 n2 ss ss', printed n1 = printed ss → printed n2 = printed ss' →
        ss.Perm [pollRecord, panicRecord] → ss'.Perm [panicRecord, pollRecord] →
        mceCmp printed byChars [timePattern] n1 n2 =
          mceCmp printed byChars [timePattern] [pollRecord, panicRecord]
            [panicRecord, pollRecord] := by
  have hremoves : ∀ remove ∈ [timePattern], remove [] = false :=
    List.forall_mem_singleton.mpr (by decide)
  have hpoll : Leaves [timePattern] pollRecord := ⟨by decide +kernel, by decide +kernel⟩
  have hpanic : Leaves [timePattern] panicRecord := ⟨by decide +kernel, by decide +kernel⟩
  have hleaves : ∀ r ∈ [pollRecord, panicRecord], Leaves [timePattern] r :=
    List.forall_mem_cons.mpr ⟨hpoll, List.forall_mem_singleton.mpr hpanic⟩
  have hleaves' : ∀ r ∈ [panicRecord, pollRecord], Leaves [timePattern] r :=
    List.forall_mem_cons.mpr ⟨hpanic, List.forall_mem_singleton.mpr hpoll⟩
  exact ⟨⟨hremoves, hleaves⟩, mceCmp_multiset byChars hremoves rfl rfl hleaves hleaves'⟩

def emptyPattern (l : Line) : Bool := l = []

/-- A pattern that matches the empty line joins the records, so that their order counts. -/
theorem mceCmp_joined :
    (∀ r ∈ [pollRecord, panicRecord], Leaves [emptyPattern] r) ∧
      (compared [emptyPattern] [pollRecord, panicRecord]).Perm
        (compared [emptyPattern] [panicRecord, pollRecord]) ∧
      mceCmp printed byChars [emptyPattern] [pollRecord, panicRecord]
        [panicRecord, pollRecord] = 1 := by
  refine ⟨?_, (List.Perm.swap panicRecord pollRecord []).map _ |>.filter _, ?_⟩
  · exact List.forall_mem_cons.mpr ⟨⟨by decide +kernel, by decide +kernel⟩,
      List.forall_mem_singleton.mpr ⟨by decide +kernel, by decide +kernel⟩⟩
  · have hone (rs : List Record) {l : Line}
        (h : ((lines (grepOut "#STATUS 0x800000000000000#".toList
          (grepOut "#STATUS 0x0#".toList (sedSharp (tr ([emptyPattern].foldl
            (fun tmpf remove => sedDelete remove tmpf) (printed rs))))))).map chomp) = [l]) :
        mceReformatForCmp printed byChars [emptyPattern] rs = unlines [l] := by
      rw [mceReformatForCmp, Collation.sort, h, List.mergeSort_singleton]
    have hpoll := hone [pollRecord, panicRecord]
      (l := "CPU 0 BANK 1#STATUS 0x9c00000000000000#MCGSTATUS 0x0#".toList ++
        "CPU 1 BANK 4#STATUS 0xbe00000000000000#TIME 7#MCGSTATUS 0x5#".toList) (by decide +kernel)
    have hpanic := hone [panicRecord, pollRecord]
      (l := "CPU 1 BANK 4#STATUS 0xbe00000000000000#TIME 7#MCGSTATUS 0x5#".toList ++
        "CPU 0 BANK 1#STATUS 0x9c00000000000000#MCGSTATUS 0x0#".toList) (by decide +kernel)
    rw [mceCmp, hpoll, hpanic]
    decide +kernel

end MceTest.Mce

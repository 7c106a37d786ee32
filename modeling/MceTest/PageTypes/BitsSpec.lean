import MceTest.Library.Mask
import MceTest.PageTypes.Args

/-! The grammar of a `-b` argument, its meaning in the usage text and the filter that
`parse_bits_mask` installs. -/

namespace MceTest.PageTypes

open MceTest.Library MceTest.Library.Numeral MceTest.Library.Mask

inductive Item
  | name (i : Nat) (entry : List Char) (listed : (i, entry) ∈ pageFlagNames)
  | number (n : Number) (word : n.val < 2 ^ 64)

def Item.text : Item → List Char
  | .name _ entry _ => entry.drop 2
  | .number n _ => n.text

def Item.bits : Item → Flags
  | .name i _ _ => bit i
  | .number n _ => BitVec.ofNat 64 n.val

/-- What `parse_flag_name` makes of an item. -/
def Item.read : Item → Flags
  | .name i _ _ => bit i
  | .number n _ => BitVec.ofNat 64 (min n.val (2 ^ 63 - 1))

def Item.Big : Item → Prop
  | .name .. => False
  | .number n _ => 2 ^ 63 ≤ n.val

def Item.Top : Item → Prop
  | .name i _ _ => i = Kpf.mmapExclusive
  | .number .. => False

structure ListItem where
  tilde : Bool
  item : Item

def ListItem.text (x : ListItem) : List Char :=
  if x.tilde then '~' :: x.item.text else x.item.text

def listText : List ListItem → List Char
  | [] => []
  | [x] => x.text
  | x :: y :: l => x.text ++ ',' :: listText (y :: l)

def plain (l : List ListItem) : List Item := (l.filter fun x => !x.tilde).map ListItem.item

def every (l : List ListItem) : List Item := l.map ListItem.item

def orBits (is : List Item) : Flags := is.foldr (fun i flags => i.bits ||| flags) 0

def orRead (is : List Item) : Flags := is.foldr (fun i flags => i.read ||| flags) 0

/-- The forms of a `-b` argument; the lists are not empty. -/
inductive BitsSpec
  | list (l : List ListItem) (nonempty : l ≠ [])
  | masked (l l' : List ListItem) (nonempty : l ≠ []) (nonempty' : l' ≠ [])
  | exact (l : List ListItem) (nonempty : l ≠ [])

def BitsSpec.text : BitsSpec → List Char
  | .list l _ => listText l
  | .masked l l' _ _ => listText l ++ '=' :: listText l'
  | .exact l _ => '=' :: listText l

/-- The words the usage text lets a form accept.  It says nothing about a `~` beside
`=`; such an item is no part of its list. -/
def BitsSpec.Accepts (flags : Flags) : BitsSpec → Prop
  | .list l _ =>
    if l.any ListItem.tilde then flags &&& orBits (every l) = orBits (plain l)
    else flags &&& orBits (every l) ≠ 0
  | .masked l l' _ _ => flags &&& orBits (plain l) = orBits (plain l')
  | .exact l _ => flags = orBits (plain l)

theorem names_plain : ∀ e ∈ pageFlagNames, ∀ c ∈ e.2.drop 2, c ≠ ',' ∧ c ≠ '=' ∧ c ≠ '~' := by
  have hall : (pageFlagNames.all fun e =>
      (e.2.drop 2).all fun c => decide (c ≠ ',' ∧ c ≠ '=' ∧ c ≠ '~')) = true := by
    decide +kernel
  simpa only [List.all_eq_true, decide_eq_true_eq] using hall

theorem Item.text_plain (i : Item) : ∀ c ∈ i.text, c ≠ ',' ∧ c ≠ '=' ∧ c ≠ '~' := by
  intro c hc
  cases i with
  | name i entry listed => exact names_plain _ listed c hc
  | number n word =>
    have hlt := CNumber.alnum n.number c hc
    refine ⟨?_, ?_, ?_⟩ <;>
      · rintro rfl
        revert hlt
        decide

theorem names_nonempty : ∀ e ∈ pageFlagNames, e.2.drop 2 ≠ [] := by decide +kernel

theorem Item.text_ne_nil (i : Item) : i.text ≠ [] := by
  cases i with
  | name i entry listed => exact names_nonempty _ listed
  | number n word => exact n.ne_nil

/-- No name is a prefix of another entry's name that stands before it, and none is a
prefix of `compound`. -/
theorem names_found : ∀ e ∈ pageFlagNames,
    ¬ ((e.2.drop 2).length ≤ 8 ∧ e.2.drop 2 = "compound".toList.take (e.2.drop 2).length) ∧
    pageFlagNames.find? (fun e' => e.2.drop 2 = (e'.2.drop 2).take (e.2.drop 2).length) =
      some e := by
  decide +kernel

theorem names_letter : ∀ e ∈ pageFlagNames, ∀ c ∈ (e.2.drop 2).head?, 10 ≤ digitVal c := by
  have hall : (pageFlagNames.all fun e =>
      ((e.2.drop 2).head?).all fun c => decide (10 ≤ digitVal c)) = true := by
    decide +kernel
  simpa only [List.all_eq_true, Option.all_eq_true, decide_eq_true_eq, Option.mem_def] using hall

theorem take_ne_of_head {s t : List Char} {n : Nat} (hs : ∀ c ∈ s.head?, digitVal c < 10)
    (hne : s ≠ []) (ht : ∀ c ∈ t.head?, 10 ≤ digitVal c) : s ≠ t.take n := by
  intro heq
  cases s with
  | nil => exact hne rfl
  | cons c s =>
    have hc := hs c (by simp)
    cases t with
    | nil => simp at heq
    | cons c' t =>
      cases n with
      | zero => simp at heq
      | succ n =>
        obtain ⟨rfl, -⟩ := List.cons.inj heq
        have := ht c (by simp)
        omega

theorem parseFlagName_item (i : Item) {rest : List Char} (hrest : Stops 36 rest) :
    parseFlagName (i.text ++ rest) i.text.length = .ok i.read := by
  have hne : ¬ (i.text ++ rest = [] ∨ i.text.length = 0) := by
    simp [i.text_ne_nil]
  rw [parseFlagName, if_neg hne, List.take_left]
  cases i with
  | name i entry listed =>
    generalize hitem : Item.name i entry listed = item
    have hcompound : ¬ (item.text.length ≤ 8 ∧
        item.text = "compound".toList.take item.text.length) := by
      rw [← hitem]
      exact (names_found _ listed).1
    have hfind : pageFlagNames.find? (fun e =>
        item.text = (e.2.drop 2).take item.text.length) = some (i, entry) := by
      rw [← hitem]
      exact (names_found _ listed).2
    rw [if_neg hcompound, hfind, ← hitem]
    rfl
  | number n word =>
    have hhead : ∀ c ∈ n.text.head?, digitVal c < 10 := by
      obtain ⟨d, ds, htext, hd⟩ := n.number.head
      simpa [htext] using hd
    have hcompound : ¬ (n.text.length ≤ 8 ∧ n.text = "compound".toList.take n.text.length) :=
      fun h => take_ne_of_head hhead n.ne_nil (by rintro c ⟨⟩; decide) h.2
    have hfind : pageFlagNames.find? (fun e =>
        n.text = (e.2.drop 2).take n.text.length) = none := by
      rw [List.find?_eq_none]
      intro e he
      simpa using take_ne_of_head hhead n.ne_nil (names_letter e he)
    rw [Item.text, if_neg hcompound, hfind, parseNumber_number n hrest]
    rfl

def Follows (rest : List Char) : Prop := ∀ c ∈ rest.head?, c = ',' ∨ c = '='

theorem Follows.stops {rest : List Char} (h : Follows rest) : Stops 36 rest := by
  intro c hc
  rcases h c hc with rfl | rfl <;> decide

theorem parseFlagItem_item (all : Bool) (x : ListItem) {rest : List Char}
    (hrest : Follows rest) :
    parseFlagItem all (x.text ++ rest) x.text.length =
      .ok (if all || !x.tilde then x.item.read else 0) := by
  have hname := parseFlagName_item x.item hrest.stops
  have hne : x.item.text ++ rest ≠ [] := by simp [x.item.text_ne_nil]
  cases htilde : x.tilde with
  | true =>
    rw [ListItem.text, htilde, if_pos rfl, List.cons_append, parseFlagItem]
    cases all
    · simp
    · rw [if_pos ⟨rfl, hne⟩, List.length_cons, Nat.add_sub_cancel, hname]
      rfl
  | false =>
    rw [ListItem.text, htilde, if_neg (by simp)]
    rw [if_pos (by simp), ← hname]
    obtain ⟨c, cs, htext⟩ := List.exists_cons_of_ne_nil x.item.text_ne_nil
    have hc : c ≠ '~' := (x.item.text_plain c (by simp [htext])).2.2
    rw [htext, List.cons_append, parseFlagItem]
    intro str heq
    exact hc (List.cons.inj heq).1

theorem ListItem.text_delim (x : ListItem) : ∀ c ∈ x.text, c ≠ ',' ∧ c ≠ '=' := by
  intro c hc
  have hitem : ∀ c ∈ x.item.text, c ≠ ',' ∧ c ≠ '=' := fun c hc =>
    ⟨(x.item.text_plain c hc).1, (x.item.text_plain c hc).2.1⟩
  rw [ListItem.text] at hc
  split at hc
  · rcases List.mem_cons.mp hc with rfl | hc
    · decide
    · exact hitem c hc
  · exact hitem c hc

theorem parseFlagNamesLoop_skip (all : Bool) {t : List Char}
    (ht : ∀ c ∈ t, c ≠ ',' ∧ c ≠ '=') (rest str : List Char) (flags : Flags) :
    parseFlagNamesLoop all (t ++ rest) str flags = parseFlagNamesLoop all rest str flags := by
  induction t with
  | nil => rfl
  | cons c t ih =>
    have hc := ht c (by simp)
    rw [List.cons_append, parseFlagNamesLoop, if_neg (by simp [hc])]
    exact ih fun d hd => ht d (List.mem_cons_of_mem _ hd)

/-- The items that count: all of them, or the ones without a `~`. -/
def counting (all : Bool) (l : List ListItem) : List Item := if all then every l else plain l

theorem orRead_counting_cons (all : Bool) (x : ListItem) (l : List ListItem) :
    orRead (counting all (x :: l)) =
      (if all || !x.tilde then x.item.read else 0) ||| orRead (counting all l) := by
  cases all <;> cases h : x.tilde <;> simp [counting, every, plain, orRead, h]

def ListItem.adds (all : Bool) (x : ListItem) : Flags :=
  if all || !x.tilde then x.item.read else 0

theorem parseFlagNamesLoop_comma (all : Bool) (x : ListItem) (l : List Char) (flags : Flags) :
    parseFlagNamesLoop all (x.text ++ ',' :: l) (x.text ++ ',' :: l) flags =
      parseFlagNamesLoop all l l (flags ||| x.adds all) := by
  have hitem := parseFlagItem_item all x (by simp [Follows] : Follows (',' :: l))
  have hlen : (x.text ++ ',' :: l).length - (',' :: l).length = x.text.length := by simp
  rw [parseFlagNamesLoop_skip all x.text_delim, parseFlagNamesLoop, hlen, hitem]
  rfl

theorem parseFlagNamesLoop_last (all : Bool) (x : ListItem) {rest : List Char}
    (hrest : ∀ c ∈ rest.head?, c = '=') (flags : Flags) :
    parseFlagNamesLoop all (x.text ++ rest) (x.text ++ rest) flags =
      .ok (flags ||| x.adds all) := by
  have hitem := parseFlagItem_item all x fun c hc => Or.inr (hrest c hc)
  rw [parseFlagNamesLoop_skip all x.text_delim]
  cases rest with
  | nil =>
    rw [List.append_nil] at hitem ⊢
    rw [parseFlagNamesLoop, hitem]
    rfl
  | cons c rest =>
    have hlen : (x.text ++ c :: rest).length - (c :: rest).length = x.text.length := by simp
    obtain rfl : c = '=' := hrest c (by simp)
    rw [parseFlagNamesLoop, hlen, hitem]
    rfl

theorem parseFlagNamesLoop_list (all : Bool) (l : List ListItem) (hl : l ≠ [])
    {rest : List Char} (hrest : ∀ c ∈ rest.head?, c = '=') (flags : Flags) :
    parseFlagNamesLoop all (listText l ++ rest) (listText l ++ rest) flags =
      .ok (flags ||| orRead (counting all l)) := by
  induction l generalizing flags with
  | nil => exact absurd rfl hl
  | cons x l ih =>
    rw [orRead_counting_cons, ← BitVec.or_assoc]
    cases l with
    | nil =>
      have hlast : orRead (counting all []) = 0#64 := by cases all <;> rfl
      rw [listText, parseFlagNamesLoop_last all x hrest, hlast, BitVec.or_zero]
      rfl
    | cons y l =>
      rw [listText, List.append_assoc, List.cons_append, parseFlagNamesLoop_comma]
      exact ih (by simp) _

theorem parseFlagNames_list (all : Bool) {l : List ListItem} (hl : l ≠ [])
    {rest : List Char} (hrest : ∀ c ∈ rest.head?, c = '=') :
    parseFlagNames (listText l ++ rest) all = .ok (orRead (counting all l)) := by
  rw [parseFlagNames, parseFlagNamesLoop_list all l hl hrest]
  simp

theorem parseFlagNames_all (all : Bool) {l : List ListItem} (hl : l ≠ []) :
    parseFlagNames (listText l) all = .ok (orRead (counting all l)) := by
  simpa using parseFlagNames_list all hl (by simp : ∀ c ∈ ([] : List Char).head?, c = '=')

theorem mem_listText {l : List ListItem} {c : Char} (h : c ∈ listText l) :
    c = ',' ∨ ∃ x ∈ l, c ∈ x.text := by
  induction l with
  | nil => cases h
  | cons x l ih =>
    cases l with
    | nil => exact Or.inr ⟨x, by simp, h⟩
    | cons y l =>
      rw [listText, List.mem_append, List.mem_cons] at h
      rcases h with h | rfl | h
      · exact Or.inr ⟨x, by simp, h⟩
      · exact Or.inl rfl
      · exact (ih h).imp_right fun ⟨z, hz, hc⟩ => ⟨z, List.mem_cons_of_mem _ hz, hc⟩

theorem listText_no_equals (l : List ListItem) : '=' ∉ listText l := by
  intro h
  rcases mem_listText h with h | ⟨x, -, hx⟩
  · cases h
  · exact (x.text_delim '=' hx).2 rfl

theorem tilde_mem_listText {l : List ListItem} :
    '~' ∈ listText l ↔ l.any ListItem.tilde = true := by
  have hitem (x : ListItem) : '~' ∈ x.text ↔ x.tilde = true := by
    rw [ListItem.text]
    split
    · simp [*]
    · rename_i h
      constructor
      · exact fun hc => absurd rfl (x.item.text_plain '~' hc).2.2
      · exact fun ht => absurd ht h
  induction l with
  | nil => simp [listText]
  | cons x l ih =>
    cases l with
    | nil => simp [listText, hitem]
    | cons y l =>
      have hrest : '~' ∈ listText (y :: l) ↔ (y :: l).any ListItem.tilde = true := ih
      rw [listText, List.mem_append, List.mem_cons, hrest, hitem, List.any_cons, List.any_cons]
      simp

def BitsSpec.filter : BitsSpec → BitFilter
  | .list l _ =>
    if l.any ListItem.tilde then { mask := orRead (every l), bits := orRead (plain l) }
    else { mask := orRead (every l), bits := kpfAllBits }
  | .masked l l' _ _ => { mask := orRead (plain l), bits := orRead (plain l') }
  | .exact l _ => { mask := kpfAllBits, bits := orRead (plain l) }

theorem plain_eq_every {l : List ListItem} (h : l.any ListItem.tilde = false) :
    plain l = every l := by
  have hall : ∀ x ∈ l, x.tilde = false := by simpa using h
  rw [plain, every, List.filter_eq_self.mpr fun x hx => by simp [hall x hx]]

theorem strchr_isSome {s : List Char} {c : Char} : (strchr s c).isSome = true ↔ c ∈ s := by
  constructor
  · intro h
    by_contra hc
    rw [strchr_eq_none hc] at h
    cases h
  · intro h
    obtain ⟨pre, post, rfl, hpre⟩ := List.eq_append_cons_of_mem h
    rw [strchr_append hpre]
    rfl

theorem listText_ne_nil {l : List ListItem} (hl : l ≠ []) : listText l ≠ [] := by
  have htext (x : ListItem) : x.text ≠ [] := by
    rw [ListItem.text]
    split
    · simp
    · exact x.item.text_ne_nil
  match l with
  | [] => exact absurd rfl hl
  | [x] => exact htext x
  | x :: y :: l => simp [listText]

theorem bitsMask_text (spec : BitsSpec) : bitsMask spec.text = .ok spec.filter := by
  cases spec with
  | list l hl =>
    rw [bitsMask, BitsSpec.text, strchr_eq_none (listText_no_equals l)]
    by_cases htilde : l.any ListItem.tilde = true
    · have hmem := strchr_isSome.mpr (tilde_mem_listText.mpr htilde)
      simp only [hmem, ↓reduceIte, parseFlagNames_all _ hl]
      rw [BitsSpec.filter, if_pos htilde]
      rfl
    · have hmem : ¬ (strchr (listText l) '~').isSome = true := by
        rw [strchr_isSome, tilde_mem_listText]
        exact htilde
      simp only [hmem, Bool.false_eq_true, ↓reduceIte, parseFlagNames_all _ hl]
      rw [BitsSpec.filter, if_neg htilde, ← plain_eq_every (by simpa using htilde)]
      rfl
  | masked l l' hl hl' =>
    have hne : ¬ '=' :: listText l' = listText l ++ '=' :: listText l' :=
      append_ne_self (listText_ne_nil hl)
    have hfirst := parseFlagNames_list false hl
      (by simp : ∀ c ∈ ('=' :: listText l').head?, c = '=')
    rw [bitsMask, BitsSpec.text, strchr_append (listText_no_equals l)]
    simp only [if_neg hne, hfirst, List.tail_cons, parseFlagNames_all _ hl']
    rfl
  | exact l hl =>
    have hfind : strchr ('=' :: listText l) '=' = some ('=' :: listText l) :=
      strchr_append List.not_mem_nil _
    rw [bitsMask, BitsSpec.text, hfind]
    simp only [↓reduceIte, List.tail_cons, parseFlagNames_all _ hl]
    rfl

end MceTest.PageTypes

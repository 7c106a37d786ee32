import MceTest.PageTypes.BitsMeaning
import MceTest.PageTypes.Names

/-! The long names that the summary prints, read back by the parser of `-b`. -/

namespace MceTest.PageTypes

open MceTest.Library.Mask

abbrev Entry := { e : Nat × List Char // e ∈ pageFlagNames }

def Entry.item (e : Entry) : ListItem := ⟨false, .name e.1.1 e.1.2 e.2⟩

/-- The table entries of the bits that are set, as the items of a `-b` list. -/
def setItems (flags : Flags) (es : List Entry) : List ListItem :=
  (es.filter fun e => flags.getLsbD e.1.1).map Entry.item

def commaed (l : List ListItem) : List Char := l.flatMap fun x => x.text ++ [',']

theorem commaed_length_le (flags : Flags) (es : List Entry) :
    (commaed (setItems flags es)).length ≤ (commaed (es.map Entry.item)).length := by
  induction es with
  | nil => rfl
  | cons e es ih =>
    simp only [setItems, commaed, List.filter_cons, List.map_cons, List.flatMap_cons,
      List.length_append] at *
    split
    · simp only [List.map_cons, List.flatMap_cons, List.length_append]
      omega
    · omega

theorem commaed_names : (commaed (pageFlagNames.attach.map Entry.item)).length < longnameSize := by
  decide +kernel

theorem pageFlagLongnameLoop_eq (flags : Flags) (es : List Entry) (buf : List Char)
    (hfits : buf.length + (commaed (setItems flags es)).length < longnameSize) :
    pageFlagLongnameLoop flags (es.map Subtype.val) (buf, buf.length) =
      (buf ++ commaed (setItems flags es), (buf ++ commaed (setItems flags es)).length) := by
  induction es generalizing buf with
  | nil => simp [pageFlagLongnameLoop, setItems, commaed]
  | cons e es ih =>
    obtain ⟨⟨i, name⟩, he⟩ := e
    rw [List.map_cons, pageFlagLongnameLoop]
    by_cases hset : flags.getLsbD i = true
    · have hitems : commaed (setItems flags (⟨(i, name), he⟩ :: es)) =
          (name.drop 2 ++ [',']) ++ commaed (setItems flags es) := by
        simp [setItems, commaed, hset, Entry.item, ListItem.text, Item.text]
      rw [hitems, List.length_append] at hfits
      have htake : (name.drop 2 ++ [',']).take (longnameSize - buf.length - 1) =
          name.drop 2 ++ [','] := List.take_of_length_le (by omega)
      rw [if_pos hset, hitems, ← List.append_assoc]
      simp only [htake]
      rw [← List.length_append]
      apply ih
      rw [List.length_append]
      omega
    · have hitems : commaed (setItems flags (⟨(i, name), he⟩ :: es)) =
          commaed (setItems flags es) := by
        simp [setItems, hset]
      rw [hitems] at hfits ⊢
      rw [if_neg hset]
      exact ih buf hfits

theorem pageFlagLongname_loop (flags : Flags) :
    let text := commaed (setItems flags pageFlagNames.attach)
    text.length < longnameSize ∧
      pageFlagLongnameLoop flags pageFlagNames ([], 0) = (text, text.length) := by
  intro text
  have hfits : text.length < longnameSize :=
    (commaed_length_le flags _).trans_lt commaed_names
  refine ⟨hfits, ?_⟩
  have hloop := pageFlagLongnameLoop_eq flags pageFlagNames.attach [] (by simpa using hfits)
  rwa [List.attach_map_subtype_val] at hloop

theorem commaed_take {l : List ListItem} :
    (commaed l).take ((commaed l).length - 1) = listText l := by
  rw [← List.dropLast_eq_take]
  match l with
  | [] => rfl
  | [x] => simp [commaed, listText]
  | x :: y :: l =>
    have hne : commaed (y :: l) ≠ [] := by simp [commaed]
    have ih := commaed_take (l := y :: l)
    rw [← List.dropLast_eq_take] at ih
    have hcons : commaed (x :: y :: l) = x.text ++ ',' :: commaed (y :: l) := by
      simp [commaed]
    rw [hcons, listText, ← ih, List.dropLast_append_of_ne_nil (by simp),
      List.dropLast_cons_of_ne_nil hne]

theorem pageFlagLongname_eq (flags : Flags) :
    pageFlagLongname flags = listText (setItems flags pageFlagNames.attach) := by
  rw [pageFlagLongname, (pageFlagLongname_loop flags).2]
  exact commaed_take

theorem every_setItems (flags : Flags) (es : List Entry) (all : Bool) :
    counting all (setItems flags es) = every (setItems flags es) := by
  cases all
  · exact plain_eq_every (by simp [setItems, Entry.item])
  · rfl

theorem orRead_setItems {flags : Flags} (h : Named flags) :
    orRead (every (setItems flags pageFlagNames.attach)) = flags := by
  apply eq_of_getLsbD
  intro i hi
  rw [orRead_getLsbD]
  simp only [every, setItems, List.mem_map, List.mem_filter]
  constructor
  · rintro ⟨-, ⟨-, ⟨e, ⟨-, hset⟩, rfl⟩, rfl⟩, hread⟩
    obtain rfl : e.1.1 = i := (bit_getLsbD hi).mp hread
    exact hset
  · intro hset
    obtain ⟨name, hname⟩ := Option.isSome_iff_exists.mp (h i hi hset)
    exact ⟨_, ⟨_, ⟨⟨(i, name), mem_of_flagName? hname⟩, ⟨by simp, hset⟩, rfl⟩, rfl⟩,
      (bit_getLsbD hi).mpr rfl⟩

/-- The long names of a word are read back as the word, and none of them is cut off. -/
theorem parseFlagNames_pageFlagLongname (flags : Flags) (all : Bool) (h : Named flags) :
    parseFlagNames (pageFlagLongname flags) all = .ok flags ∧
      (pageFlagLongname flags).length < longnameSize ∧
      (pageFlagLongnameLoop flags pageFlagNames ([], 0)).2 < longnameSize := by
  obtain ⟨hfits, hloop⟩ := pageFlagLongname_loop flags
  refine ⟨?_, ?_, ?_⟩
  · rw [pageFlagLongname_eq]
    have hword := orRead_setItems h
    by_cases hnil : setItems flags pageFlagNames.attach = []
    · rw [hnil] at hword ⊢
      rw [← hword]
      rfl
    · rw [parseFlagNames_all all hnil, every_setItems, hword]
  · rw [pageFlagLongname, hloop, List.length_take]
    omega
  · rwa [hloop]

theorem parseFlagNames_pageFlagLongname_compound :
    parseFlagNames (pageFlagLongname (bitsCompound ||| bit Kpf.private)) true =
      .ok (bitsCompound ||| bit Kpf.private) :=
  (parseFlagNames_pageFlagLongname (bitsCompound ||| bit Kpf.private) true
    (by decide +kernel)).1

end MceTest.PageTypes

import MceTest.FsMetadata.Tree

/-! What `find` prints of a directory. -/

namespace MceTest.FsMetadata

def IsName (n : Name) : Prop :=
  n ≠ [] ∧ '/' ∉ n ∧ '\x00' ∉ n ∧ n ≠ ['.'] ∧ n ≠ ['.', '.']

instance (n : Name) : Decidable (IsName n) := inferInstanceAs (Decidable (_ ∧ _))

/-- The entries of a directory in the order of its enumeration; a file is anything but a
directory. -/
inductive Entries
  | nil
  | file (name : Name) (rest : Entries)
  | dir (name : Name) (sub rest : Entries)

namespace Entries

def names : Entries → List Name
  | nil => []
  | file n rest => n :: rest.names
  | dir n _ rest => n :: rest.names

/-- The names are names, and those of one directory are different ones. -/
def Ok : Entries → Prop
  | nil => True
  | file n rest => IsName n ∧ n ∉ rest.names ∧ rest.Ok
  | dir n sub rest => IsName n ∧ n ∉ rest.names ∧ sub.Ok ∧ rest.Ok

instance decidableOk : (e : Entries) → Decidable e.Ok
  | nil => inferInstanceAs (Decidable True)
  | file n rest =>
    have := decidableOk rest
    inferInstanceAs (Decidable (IsName n ∧ n ∉ rest.names ∧ rest.Ok))
  | dir n sub rest =>
    have := decidableOk sub
    have := decidableOk rest
    inferInstanceAs (Decidable (IsName n ∧ n ∉ rest.names ∧ sub.Ok ∧ rest.Ok))

/-- The relative paths, in the order in which `find` meets them; the first name comes first. -/
def listing : Entries → List (List Name)
  | nil => []
  | file n rest => [n] :: rest.listing
  | dir n sub rest => [n] :: sub.listing.map (n :: ·) ++ rest.listing

/-- What `find` prints below a path. -/
def find (path : List Char) : Entries → List (List Char)
  | nil => []
  | file n rest => (path ++ '/' :: n) :: find path rest
  | dir n sub rest =>
    (path ++ '/' :: n) :: find (path ++ '/' :: n) sub ++ find path rest

/-- The output of `find` in a directory. -/
def findText (e : Entries) : List Char :=
  (['.'] :: find ['.'] e).flatMap (· ++ ['\n'])

def namesAt : Entries → List Name → List Name
  | e, [] => e.names
  | nil, _ :: _ => []
  | file m rest, n :: p => if m = n then [] else rest.namesAt (n :: p)
  | dir m sub rest, n :: p => if m = n then sub.namesAt p else rest.namesAt (n :: p)

inductive Heads : Entries → Name → Entries → Entries → Prop
  | file (n : Name) (rest : Entries) : Heads (file n rest) n nil rest
  | dir (n : Name) (sub rest : Entries) : Heads (dir n sub rest) n sub rest

variable {e e' sub sub' rest rest' : Entries} {n m : Name} {p q : List Name}

theorem heads_of_names {ns : List Name} (h : e.names = n :: ns) :
    ∃ sub rest, Heads e n sub rest := by
  cases e with
  | nil => cases h
  | file m rest =>
    obtain ⟨rfl, -⟩ := List.cons.inj h
    exact ⟨nil, rest, .file m rest⟩
  | dir m sub rest =>
    obtain ⟨rfl, -⟩ := List.cons.inj h
    exact ⟨sub, rest, .dir m sub rest⟩

/-- A file is taken for a directory without entries. -/
@[elab_as_elim]
theorem heads_induction {motive : Entries → Prop} (nil : motive nil)
    (entry : ∀ {e n sub rest}, Heads e n sub rest → motive sub → motive rest → motive e)
    (e : Entries) : motive e := by
  induction e with
  | nil => exact nil
  | file n rest ih => exact entry (.file n rest) nil ih
  | dir n sub rest ihsub ih => exact entry (.dir n sub rest) ihsub ih

theorem namesAt_nil (e : Entries) : e.namesAt [] = e.names := by
  cases e <;> rfl

namespace Heads

theorem names (h : Heads e n sub rest) : e.names = n :: rest.names := by
  cases h <;> rfl

theorem ok (h : Heads e n sub rest) (hok : e.Ok) :
    IsName n ∧ n ∉ rest.names ∧ sub.Ok ∧ rest.Ok := by
  cases h with
  | file n rest =>
    obtain ⟨hn, hnew, hrest⟩ := hok
    exact ⟨hn, hnew, trivial, hrest⟩
  | dir n sub rest => exact hok

theorem listing (h : Heads e n sub rest) :
    e.listing = [n] :: (sub.listing.map (n :: ·) ++ rest.listing) := by
  cases h <;> rfl

theorem mem_listing (h : Heads e n sub rest) :
    p ∈ e.listing ↔ p = [n] ∨ (∃ q ∈ sub.listing, n :: q = p) ∨ p ∈ rest.listing := by
  rw [h.listing, List.mem_cons, List.mem_append, List.mem_map]

theorem find (h : Heads e n sub rest) (path : List Char) :
    e.find path =
      (path ++ '/' :: n) :: (sub.find (path ++ '/' :: n) ++ rest.find path) := by
  cases h <;> rfl

theorem namesAt_same (h : Heads e n sub rest) (p : List Name) :
    e.namesAt (n :: p) = sub.namesAt p := by
  cases h with
  | file n rest =>
    rw [namesAt, if_pos rfl]
    cases p <;> rfl
  | dir n sub rest => rw [namesAt, if_pos rfl]

theorem namesAt_other (h : Heads e n sub rest) (hne : n ≠ m) (p : List Name) :
    e.namesAt (m :: p) = rest.namesAt (m :: p) := by
  cases h with
  | file n rest => rw [namesAt, if_neg hne]
  | dir n sub rest => rw [namesAt, if_neg hne]

end Heads

theorem listing_ne_nil (e : Entries) : ∀ p ∈ e.listing, p ≠ [] := by
  induction e using heads_induction with
  | nil => exact fun p hp => absurd hp List.not_mem_nil
  | @entry e n sub rest h _ ih =>
    intro p hp
    rcases h.mem_listing.mp hp with rfl | ⟨q, -, rfl⟩ | hp
    · exact List.cons_ne_nil n []
    · exact List.cons_ne_nil n q
    · exact ih p hp

theorem listing_head (e : Entries) : ∀ n p, n :: p ∈ e.listing → n ∈ e.names := by
  induction e using heads_induction with
  | nil => exact fun n p hp => absurd hp List.not_mem_nil
  | @entry e n sub rest h _ ih =>
    intro m p hp
    rw [h.names, List.mem_cons]
    rcases h.mem_listing.mp hp with heq | ⟨q, -, heq⟩ | hp
    · exact .inl (List.cons.inj heq).1
    · exact .inl (List.cons.inj heq).1.symm
    · exact .inr (ih m p hp)

def slashed (p : List Name) : List Char := ['/'].intercalate p

theorem slashed_cons (n : Name) (hp : p ≠ []) : slashed (n :: p) = n ++ '/' :: slashed p := by
  rw [slashed, List.intercalate_cons_of_ne_nil hp, List.append_assoc, slashed]
  rfl

theorem find_eq_listing (e : Entries) (path : List Char) :
    e.find path = e.listing.map fun p => path ++ '/' :: slashed p := by
  induction e using heads_induction generalizing path with
  | nil => rfl
  | @entry e n sub rest h ihsub ih =>
    have hbelow : sub.find (path ++ '/' :: n) =
        (sub.listing.map (n :: ·)).map fun p => path ++ '/' :: slashed p := by
      rw [ihsub, List.map_map]
      refine List.map_congr_left fun p hp => ?_
      rw [Function.comp_apply, slashed_cons n (sub.listing_ne_nil p hp), List.append_assoc,
        List.cons_append]
    rw [h.find, h.listing, List.map_cons, List.map_append, hbelow, ih, slashed,
      List.intercalate_singleton]

end Entries

end MceTest.FsMetadata

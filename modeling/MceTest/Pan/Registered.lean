import MceTest.Pan.Zoo

/-! The active file is a registry: what it shows is what has been marked and not cleared, and it
has no more lines than there have been entries at a time. -/

namespace MceTest.Pan

open MceTest.Library MceTest.Library.Fgets MceTest.Library.Registry

/-- What a line can show; tags and command lines come from single lines of a file. -/
structure Entry where
  pid : Pid
  tag : Text
  cmdline : Text
  plain : '\n' ∉ tag ∧ '\n' ∉ cmdline

def Entry.line (e : Entry) : Text := justified 79 (newEntry e.pid e.tag e.cmdline) ++ ['\n']

def Entry.shown (e : Entry) : Text :=
  justified (78 - (Nat.toDigits 10 e.pid).length) (e.tag ++ ',' :: e.cmdline)

theorem length_justified (width : Nat) (entry : Text) : (justified width entry).length = width := by
  rw [justified, List.rightpad, List.length_append, List.length_replicate, List.length_take]
  omega

theorem not_mem_justified {width : Nat} {entry : Text} (h : '\n' ∉ entry) :
    '\n' ∉ justified width entry := by
  rw [justified, List.rightpad, List.mem_append, not_or]
  refine ⟨fun hmem => h (List.mem_of_mem_take hmem), fun hmem => ?_⟩
  exact absurd (List.eq_of_mem_replicate hmem) (by decide)

theorem length_pid_le (p : Pid) : (Nat.toDigits 10 p).length ≤ 10 :=
  (Nat.length_toDigits_le_iff (by decide) (by decide)).mpr (p.isLt.trans (by decide))

theorem Entry.line_eq (e : Entry) :
    e.line = Nat.toDigits 10 e.pid ++ ',' :: (e.shown ++ ['\n']) := by
  have hpid := length_pid_le e.pid
  have hcut : newEntry e.pid e.tag e.cmdline = Nat.toDigits 10 e.pid ++
      ',' :: (e.tag ++ ',' :: e.cmdline).take (78 - (Nat.toDigits 10 e.pid).length) := by
    rw [newEntry, List.take_append, List.take_of_length_le (by omega)]
    rw [show 79 - (Nat.toDigits 10 e.pid).length = 78 - (Nat.toDigits 10 e.pid).length + 1 by omega,
      List.take_succ_cons]
  rw [line, justified, List.take_of_length_le, List.rightpad, hcut, shown, justified, List.rightpad]
  · simp only [List.append_assoc, List.cons_append, List.length_append, List.length_cons]
    congr 5
    omega
  · exact (List.length_take ..).trans_le (Nat.min_le_left ..)

theorem Entry.not_mem_shown (e : Entry) : '\n' ∉ e.shown := by
  refine not_mem_justified ?_
  simp [e.plain.1, e.plain.2]

theorem Entry.not_mem_pid (e : Entry) : '\n' ∉ Nat.toDigits 10 e.pid := fun h =>
  absurd (Numeral.digits_toDigits (by decide) (by decide) _ _ h) (by decide)

theorem Entry.record (e : Entry) : Record 80 e.line := by
  refine ⟨?_, justified 79 (newEntry e.pid e.tag e.cmdline), rfl, ?_⟩
  · rw [line, List.length_append, length_justified]
    rfl
  · refine not_mem_justified fun h => ?_
    have hmem := List.mem_of_mem_take h
    simp [e.plain.1, e.plain.2, e.not_mem_pid] at hmem

theorem Entry.head (e : Entry) : e.line.head? ≠ some '#' := by
  obtain ⟨d, ds, htext, hd⟩ := (Numeral.cNumber_decimal e.pid).head
  rw [e.line_eq, htext]
  intro h
  cases Option.some.inj h
  exact absurd hd (by decide)

theorem Entry.atoi_line (e : Entry) : atoi e.line = (e.pid : Nat) := by
  have hlt := e.pid.isLt
  rw [atoi, e.line_eq, Numeral.strtolDecimal_toDigits (hlt.trans (by decide)) (by
    intro c hc
    cases hc
    decide), CInt.toInt_of_small] <;> omega

/-- A free slot is a line that starts with `#`. -/
def Shows (line : Text) : Option Entry → Prop
  | none => Record 80 line ∧ line.head? = some '#'
  | some e => line = e.line

def Refines (file : Text) (slots : List (Option Entry)) : Prop :=
  ∃ lines, file = lines.flatten ∧ List.Forall₂ Shows lines slots

theorem Shows.record {line : Text} {slot : Option Entry} (h : Shows line slot) :
    Record 80 line := by
  cases slot with
  | none => exact h.1
  | some e => exact h ▸ e.record

theorem records_of_shows {lines : List Text} {slots : List (Option Entry)}
    (h : List.Forall₂ Shows lines slots) : ∀ line ∈ lines, Record 80 line := by
  induction h with
  | nil => exact nofun
  | cons hline _ ih => exact List.forall_mem_cons.mpr ⟨hline.record, ih⟩

theorem reads_of_shows {lines : List Text} {slots : List (Option Entry)}
    (h : List.Forall₂ Shows lines slots) : reads (buflen - 1) lines.flatten = lines :=
  reads_records (by decide) (records_of_shows h)

theorem markFrom_spec (e : Entry) {lines : List Text} {slots : List (Option Entry)}
    (h : List.Forall₂ Shows lines slots) :
    List.Forall₂ Shows
      ((markFrom (newEntry e.pid e.tag e.cmdline) lines).getD (lines ++ [e.line]))
      (enter slots e) := by
  induction h with
  | nil => exact .cons rfl .nil
  | @cons line slot lines slots hline hrest ih =>
    rw [markFrom]
    cases slot with
    | none =>
      rw [if_pos hline.2, hline.1.length]
      exact .cons rfl hrest
    | some y =>
      rw [if_neg (hline ▸ y.head)]
      cases hmark : markFrom (newEntry e.pid e.tag e.cmdline) lines with
      | none =>
        rw [hmark] at ih
        exact .cons hline ih
      | some lines' =>
        rw [hmark] at ih
        exact .cons hline ih

theorem zooMark_refines (e : Entry) {file : Text} {slots : List (Option Entry)}
    (h : Refines file slots) :
    Refines (zooMarkCmdline file e.pid e.tag e.cmdline) (enter slots e) := by
  obtain ⟨lines, rfl, hlines⟩ := h
  have hspec := markFrom_spec e hlines
  rw [zooMarkCmdline, zooMark, reads_of_shows hlines]
  cases hmark : markFrom (newEntry e.pid e.tag e.cmdline) lines with
  | none =>
    rw [hmark] at hspec
    refine ⟨_, ?_, hspec⟩
    simp [Entry.line]
  | some lines' =>
    rw [hmark] at hspec
    exact ⟨lines', rfl, hspec⟩

theorem Entry.cleared (e : Entry) : Shows ('#' :: e.line.tail) none := by
  obtain ⟨d, ds, htext, -⟩ := (Numeral.cNumber_decimal e.pid).head
  have hlength := e.record.length
  have hpid := e.not_mem_pid
  have hshown := e.not_mem_shown
  rw [htext] at hpid
  rw [e.line_eq, htext] at hlength ⊢
  refine ⟨⟨hlength, '#' :: (ds ++ ',' :: e.shown), by simp, ?_⟩, rfl⟩
  simp only [List.mem_cons, List.mem_append, not_or] at hpid ⊢
  exact ⟨by decide, hpid.2, by decide, hshown⟩

theorem clearFrom_spec (p : Pid) {lines : List Text} {slots : List (Option Entry)}
    (h : List.Forall₂ Shows lines slots) :
    clearFrom p lines = none ∧ remove (·.pid = p) slots = none ∨
      ∃ lines' slots', clearFrom p lines = some lines' ∧ remove (·.pid = p) slots = some slots' ∧
        List.Forall₂ Shows lines' slots' := by
  induction h with
  | nil => exact .inl ⟨rfl, rfl⟩
  | @cons line slot lines slots hline hrest ih =>
    have hskip (hclear : clearFrom p (line :: lines) = (clearFrom p lines).map (line :: ·))
        (hremove : remove (·.pid = p) (slot :: slots) =
          (remove (·.pid = p) slots).map (slot :: ·)) :
        clearFrom p (line :: lines) = none ∧ remove (·.pid = p) (slot :: slots) = none ∨
          ∃ lines' slots', clearFrom p (line :: lines) = some lines' ∧
            remove (·.pid = p) (slot :: slots) = some slots' ∧
            List.Forall₂ Shows lines' slots' := by
      rw [hclear, hremove]
      obtain ⟨hnone, hnone'⟩ | ⟨lines', slots', hsome, hsome', hshows⟩ := ih
      · rw [hnone, hnone']
        exact .inl ⟨rfl, rfl⟩
      · rw [hsome, hsome']
        exact .inr ⟨_, _, rfl, rfl, .cons hline hshows⟩
    cases slot with
    | none =>
      refine hskip ?_ rfl
      rw [clearFrom, if_neg fun h => h.1 hline.2]
    | some e =>
      have hatoi : atoi line = (p : Nat) ↔ e.pid = p := by
        rw [show line = e.line from hline, e.atoi_line, Nat.cast_inj, Fin.val_inj]
      by_cases hp : e.pid = p
      · refine .inr ⟨('#' :: line.tail) :: lines, none :: slots, ?_, ?_, .cons ?_ hrest⟩
        · rw [clearFrom, if_pos ⟨hline ▸ e.head, hatoi.mpr hp⟩]
        · rw [remove, if_pos (decide_eq_true hp)]
        · exact hline ▸ e.cleared
      · refine hskip ?_ ?_
        · rw [clearFrom, if_neg fun h => hp (hatoi.mp h.2)]
        · rw [remove, if_neg (by simp [hp])]

theorem zooClear_refines (p : Pid) {file : Text} {slots : List (Option Entry)}
    (h : Refines file slots) :
    Refines (zooClear file p).1 ((remove (·.pid = p) slots).getD slots) ∧
      ((zooClear file p).2 = 0 ↔ p ∈ (entries slots).map Entry.pid) := by
  obtain ⟨lines, rfl, hlines⟩ := h
  have hmem : remove (·.pid = p) slots = none ↔ p ∉ (entries slots).map Entry.pid := by
    simp [remove_eq_none_iff, List.mem_map]
  rw [zooClear, reads_of_shows hlines]
  obtain ⟨hnone, hnone'⟩ | ⟨lines', slots', hsome, hsome', hshows⟩ := clearFrom_spec p hlines
  · rw [hnone, hnone']
    exact ⟨⟨lines, rfl, hlines⟩, iff_of_false nofun (hmem.mp hnone')⟩
  · rw [hsome, hsome']
    refine ⟨⟨lines', rfl, hshows⟩, iff_of_true rfl (not_not.mp fun hnot => ?_)⟩
    exact absurd (hsome'.symm.trans (hmem.mpr hnot)) nofun

/-- The file is one of the kind, and has lines for just these processes. -/
def Registered (file : Text) (pids : List Pid) : Prop :=
  ∃ slots, Refines file slots ∧ ((entries slots).map Entry.pid).Perm pids

theorem Registered.perm {file : Text} {pids pids' : List Pid} (h : Registered file pids)
    (hperm : pids.Perm pids') : Registered file pids' := by
  obtain ⟨slots, hrefines, hpids⟩ := h
  exact ⟨slots, hrefines, hpids.trans hperm⟩

theorem registered_nil : Registered [] [] := ⟨[], ⟨[], rfl, .nil⟩, .refl _⟩

def livePids (file : Text) : List Int :=
  ((reads (buflen - 1) file).filter (·.head? ≠ some '#')).map atoi

theorem Refines.livePids {file : Text} {slots : List (Option Entry)} (h : Refines file slots) :
    livePids file = (entries slots).map fun e => ((e.pid : Nat) : Int) := by
  obtain ⟨lines, rfl, hlines⟩ := h
  rw [Pan.livePids, reads_of_shows hlines]
  induction hlines with
  | nil => rfl
  | @cons line slot lines slots hline _ ih =>
    cases slot with
    | none => rw [List.filter_cons_of_neg (by simp [hline.2]), ih, entries_none]
    | some e =>
      have hhead := e.head
      rw [show line = e.line from hline, List.filter_cons_of_pos (by simp [hhead]),
        List.map_cons, ih, e.atoi_line, entries_some, List.map_cons]

inductive Op
  | mark (e : Entry)
  | clear (p : Pid)

def Op.run (file : Text) : Op → Text
  | .mark e => zooMarkCmdline file e.pid e.tag e.cmdline
  | .clear p => (zooClear file p).1

def Op.apply (slots : List (Option Entry)) : Op → List (Option Entry)
  | .mark e => enter slots e
  | .clear p => (remove (·.pid = p) slots).getD slots

/-- The processes that have been marked and not been cleared since. -/
def Op.track (pids : List Pid) : Op → List Pid
  | .mark e => e.pid :: pids
  | .clear p => pids.erase p

theorem Op.refines {file : Text} {slots : List (Option Entry)} (h : Refines file slots) (op : Op) :
    Refines (op.run file) (op.apply slots) := by
  cases op with
  | mark e => exact zooMark_refines e h
  | clear p => exact (zooClear_refines p h).1

theorem frugal_apply : Frugal Op.apply := by
  intro slots op
  have hle := length_entries_le slots
  cases op with
  | mark e =>
    rw [Op.apply, length_enter, (entries_enter slots e).length_eq]
    rfl
  | clear p =>
    rw [Op.apply]
    cases hremove : remove (·.pid = p) slots with
    | none =>
      rw [Option.getD_none]
      omega
    | some slots' =>
      obtain ⟨hlength, y, -, hperm⟩ := remove_spec hremove
      have hcount := hperm.length_eq
      rw [List.length_cons] at hcount
      rw [Option.getD_some, hlength]
      omega

theorem Op.track_perm {slots : List (Option Entry)} {pids : List Pid}
    (h : ((entries slots).map Entry.pid).Perm pids) (op : Op) :
    ((entries (op.apply slots)).map Entry.pid).Perm (op.track pids) := by
  cases op with
  | mark e => exact ((entries_enter slots e).map _).trans (h.cons e.pid)
  | clear p =>
    rw [Op.apply, Op.track]
    cases hremove : remove (·.pid = p) slots with
    | none =>
      have hnot : p ∉ pids := by
        rw [← h.mem_iff]
        simpa [remove_eq_none_iff] using hremove
      rwa [Option.getD_none, List.erase_of_not_mem hnot]
    | some slots' =>
      obtain ⟨-, y, hy, hperm⟩ := remove_spec hremove
      have hpid : y.pid = p := of_decide_eq_true hy
      have herase := ((hperm.map Entry.pid).symm.trans h).erase p
      rwa [List.map_cons, hpid, List.erase_cons_head] at herase

theorem Registered.op {file : Text} {pids : List Pid} (h : Registered file pids) (op : Op) :
    Registered (op.run file) (op.track pids) := by
  obtain ⟨slots, hrefines, hpids⟩ := h
  exact ⟨_, op.refines hrefines, Op.track_perm hpids op⟩

theorem Registered.mark {file : Text} {pids : List Pid} (h : Registered file pids) (p : Pid)
    {tag cmdline : Text} (hplain : '\n' ∉ tag ∧ '\n' ∉ cmdline) :
    Registered (zooMarkCmdline file p tag cmdline) (p :: pids) :=
  h.op (.mark ⟨p, tag, cmdline, hplain⟩)

theorem Registered.clear {file : Text} {pids : List Pid} (h : Registered file pids) (p : Pid) :
    Registered (zooClear file p).1 (pids.erase p) := h.op (.clear p)

theorem Registered.clear_eq_zero_iff {file : Text} {pids : List Pid} (h : Registered file pids)
    {p : Pid} : (zooClear file p).2 = 0 ↔ p ∈ pids := by
  obtain ⟨slots, hrefines, hpids⟩ := h
  rw [(zooClear_refines p hrefines).2, hpids.mem_iff]

theorem run_refines (ops : List Op) :
    Refines (ops.foldl Op.run []) (ops.foldl Op.apply []) ∧
      ((entries (ops.foldl Op.apply [])).map Entry.pid).Perm (ops.foldl Op.track []) := by
  induction ops using List.reverseRecOn with
  | nil => exact ⟨⟨[], rfl, .nil⟩, .refl _⟩
  | append_singleton ops op ih =>
    simp only [List.foldl_append, List.foldl_cons, List.foldl_nil]
    exact ⟨op.refines ih.1, op.track_perm ih.2⟩

/-- What holds of the file after any sequence of marks and clears. -/
structure Active (file : Text) (pids : List Pid) : Prop where
  records : ∃ lines : List Text, file = lines.flatten ∧ ∀ line ∈ lines, Record 80 line
  live : (livePids file).Perm (pids.map fun p : Pid => ((p : Nat) : Int))
  cleared : ∀ p, (zooClear file p).2 = 0 ↔ p ∈ pids

/-- The file is made of lines of 80 characters, and those that are not available show the
processes that have been marked and not been cleared. -/
theorem zoo_active (ops : List Op) : Active (ops.foldl Op.run []) (ops.foldl Op.track []) := by
  obtain ⟨hrefines, hperm⟩ := run_refines ops
  refine ⟨?_, ?_, fun p => ?_⟩
  · obtain ⟨lines, hfile, hlines⟩ := hrefines
    exact ⟨lines, hfile, records_of_shows hlines⟩
  · rw [hrefines.livePids]
    have hpids := hperm.map fun p : Pid => ((p : Nat) : Int)
    rwa [List.map_map] at hpids
  · rw [(zooClear_refines p hrefines).2, hperm.mem_iff]

theorem Refines.length_reads {file : Text} {slots : List (Option Entry)} (h : Refines file slots) :
    (reads (buflen - 1) file).length = slots.length := by
  obtain ⟨lines, rfl, hlines⟩ := h
  rw [reads_of_shows hlines]
  exact hlines.length_eq

/-- The file is no longer than what has been active at a time. -/
theorem zoo_lines (ops : List Op) (n : Nat) :
    (reads (buflen - 1) (ops.foldl Op.run [])).length ≤ n ↔
      ∀ pre, pre <+: ops → (pre.foldl Op.track []).length ≤ n := by
  rw [(run_refines ops).1.length_reads, frugal_apply.length_le_iff]
  refine ⟨fun h pre hpre => ?_, fun h => ⟨Nat.zero_le _, fun pre hpre => ?_⟩⟩
  · rw [← (run_refines pre).2.length_eq, List.length_map]
    exact h.2 pre hpre
  · rw [← List.length_map (f := Entry.pid), (run_refines pre).2.length_eq]
    exact h pre hpre

theorem tagged_line (e : Entry) {tag : Text} (htag : '\n' ∉ tag) :
    tagged tag e.line = decide (tag <+: e.shown) := by
  have hcomma : ∀ c ∈ Nat.toDigits 10 e.pid, decide (c ≠ ',') = true := fun c hc =>
    decide_eq_true fun h => absurd (Numeral.digits_toDigits (by decide) (by decide) _ c hc)
      (h ▸ by decide)
  have hrest : (e.line.dropWhile (· ≠ ',')).tail = e.shown ++ ['\n'] := by
    rw [e.line_eq, List.dropWhile_append_of_pos hcomma, List.dropWhile_cons_of_neg (by decide)]
    rfl
  have hmem : ',' ∈ e.line := by
    rw [e.line_eq]
    simp
  rw [tagged, hrest]
  refine decide_eq_decide.mpr ⟨fun h => ?_, fun h => ⟨e.head, hmem, ?_⟩⟩
  swap
  · exact h.trans (List.prefix_append ..)
  rcases List.prefix_concat_iff.mp h.2.2 with heq | hprefix
  · exact absurd (heq ▸ List.mem_append_right _ (List.mem_singleton_self _)) htag
  · exact hprefix

theorem zooGetpid_eq (ops : List Op) {tag : Text} (htag : '\n' ∉ tag) :
    zooGetpid (ops.foldl Op.run []) tag =
      ((entries (ops.foldl Op.apply [])).find? fun e => tag <+: e.shown).elim (-1)
        fun e => ((e.pid : Nat) : Int) := by
  obtain ⟨lines, hfile, hlines⟩ := (run_refines ops).1
  rw [zooGetpid, hfile, reads_of_shows hlines]
  clear hfile
  generalize ops.foldl Op.apply [] = slots at hlines
  induction hlines with
  | nil => rfl
  | @cons line slot lines slots hline _ ih =>
    cases slot with
    | none =>
      have hfree : tagged tag line = false := decide_eq_false fun h => h.1 hline.2
      rw [List.find?_cons_of_neg (by simp [hfree]), ih, entries_none]
    | some e =>
      rw [show line = e.line from hline, entries_some, List.find?_cons, List.find?_cons,
        tagged_line e htag]
      split
      · exact e.atoi_line
      · exact ih

theorem Entry.tag_prefix_shown (e : Entry) (h : e.tag.length ≤ 67) : e.tag <+: e.shown := by
  have hpid := length_pid_le e.pid
  rw [shown, justified, List.take_append, List.take_of_length_le (by omega), List.rightpad,
    List.append_assoc]
  exact List.prefix_append ..

/-- The tag of what is live is found, and what is found is live and shows the tag. -/
theorem zooGetpid_live (ops : List Op) {tag : Text} (htag : '\n' ∉ tag ∧ tag.length ≤ 67) :
    (zooGetpid (ops.foldl Op.run []) tag = -1 →
      ∀ e ∈ entries (ops.foldl Op.apply []), e.tag ≠ tag) ∧
    (zooGetpid (ops.foldl Op.run []) tag ≠ -1 →
      ∃ e ∈ entries (ops.foldl Op.apply []), tag <+: e.shown ∧
        zooGetpid (ops.foldl Op.run []) tag = (e.pid : Nat)) := by
  rw [zooGetpid_eq ops htag.1]
  cases hfind : (entries (ops.foldl Op.apply [])).find? fun e => tag <+: e.shown with
  | none =>
    refine ⟨fun _ e he heq => ?_, fun h => absurd rfl h⟩
    have hnot := List.find?_eq_none.mp hfind e he
    refine hnot (decide_eq_true ?_)
    rw [← heq]
    exact e.tag_prefix_shown (heq ▸ htag.2)
  | some e =>
    refine ⟨fun h => ?_, fun _ => ⟨e, List.mem_of_find?_eq_some hfind, ?_, rfl⟩⟩
    · rw [Option.elim_some] at h
      omega
    · have hshown := List.find?_some hfind
      exact of_decide_eq_true hshown

def sampleOps : List Op :=
  [.mark ⟨77, "io".toList, "iogen 8".toList, by decide⟩,
    .mark ⟨78, "mem".toList, "memtoy".toList, by decide⟩, .clear 77]

theorem zooGetpid_live_sample :
    (zooGetpid (sampleOps.foldl Op.run []) "mem".toList = -1 →
      ∀ e ∈ entries (sampleOps.foldl Op.apply []), e.tag ≠ "mem".toList) ∧
    (zooGetpid (sampleOps.foldl Op.run []) "mem".toList ≠ -1 →
      ∃ e ∈ entries (sampleOps.foldl Op.apply []), "mem".toList <+: e.shown ∧
        zooGetpid (sampleOps.foldl Op.run []) "mem".toList = (e.pid : Nat)) :=
  zooGetpid_live sampleOps (by decide)

end MceTest.Pan

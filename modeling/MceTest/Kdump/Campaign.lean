import MceTest.Kdump.Driver
import Mathlib.Data.List.Count
import Mathlib.Data.List.Nodup

/-! The campaign of the kdump driver over its boots: which case is triggered, collected
or given up in which boot. -/

namespace MceTest.Kdump

open MceTest.Library.Restart MceTest.Library.Shell

theorem doneStamp_inj {c d : Word} (h : doneStamp c = doneStamp d) : stampName c = stampName d :=
  List.append_cancel_right h

theorem triggeredStamp_inj {c d : Word} (h : triggeredStamp c = triggeredStamp d) :
    stampName c = stampName d :=
  List.append_cancel_right h

/-- The ends of the names keep the four kinds of stamps apart. -/
theorem stamp_ne_of_reverse {s t : Word} (h : s.reverse.take 3 ≠ t.reverse.take 3) : s ≠ t :=
  fun hst => h (congrArg (fun s => s.reverse.take 3) hst)

theorem doneStamp_reverse (c : Word) : (doneStamp c).reverse.take 3 = ['e', 'n', 'o'] := by
  simp [doneStamp]

theorem triggeredStamp_reverse (c : Word) :
    (triggeredStamp c).reverse.take 3 = ['d', 'e', 'r'] := by
  simp [triggeredStamp]

@[simp] theorem doneStamp_ne_triggeredStamp (c d : Word) : doneStamp c ≠ triggeredStamp d :=
  stamp_ne_of_reverse (by rw [doneStamp_reverse, triggeredStamp_reverse]; decide)

@[simp] theorem triggeredStamp_ne_doneStamp (c d : Word) : triggeredStamp c ≠ doneStamp d :=
  (doneStamp_ne_triggeredStamp d c).symm

@[simp] theorem doneStamp_ne_first (c : Word) : doneStamp c ≠ firstTestChecked :=
  stamp_ne_of_reverse (by rw [doneStamp_reverse]; decide)

@[simp] theorem triggeredStamp_ne_first (c : Word) : triggeredStamp c ≠ firstTestChecked :=
  stamp_ne_of_reverse (by rw [triggeredStamp_reverse]; decide)

@[simp] theorem doneStamp_ne_setupped (c : Word) : doneStamp c ≠ setupped :=
  stamp_ne_of_reverse (by rw [doneStamp_reverse]; decide)

@[simp] theorem triggeredStamp_ne_setupped (c : Word) : triggeredStamp c ≠ setupped :=
  stamp_ne_of_reverse (by rw [triggeredStamp_reverse]; decide)

@[simp] theorem touch_events (s : Shell) (stamp : Word) : (s.touch stamp).events = s.events := rfl

@[simp] theorem log_events (s : Shell) (events : List Event) :
    (s.log events).events = s.events ++ events := rfl

structure Standing (finished todo stamps : List Word) : Prop where
  setupped : setupped ∈ stamps
  finished : ∀ c ∈ finished, doneStamp c ∈ stamps
  unfinished : ∀ c ∈ todo, doneStamp c ∉ stamps
  untriggered : ∀ c ∈ todo, triggeredStamp c ∉ stamps

/-- As `Standing`, but the first unfinished case has been triggered. -/
structure Resumed (finished : List Word) (thisCase : Word) (todo stamps : List Word) : Prop where
  setupped : Kdump.setupped ∈ stamps
  checked : firstTestChecked ∈ stamps
  finished : ∀ c ∈ finished, doneStamp c ∈ stamps
  unfinished : ∀ c ∈ thisCase :: todo, doneStamp c ∉ stamps
  triggered : triggeredStamp thisCase ∈ stamps
  untriggered : ∀ c ∈ todo, triggeredStamp c ∉ stamps

theorem Standing.trigger {finished todo stamps : List Word} {c : Word}
    (h : Standing finished (c :: todo) stamps) (hchecked : firstTestChecked ∈ stamps)
    (hnodup : stampName c ∉ todo.map stampName) :
    Resumed finished c todo (triggeredStamp c :: stamps) where
  setupped := .tail _ h.setupped
  checked := .tail _ hchecked
  finished := fun d hd => .tail _ (h.finished d hd)
  unfinished := fun d hd => by simpa using h.unfinished d hd
  triggered := .head _
  untriggered := fun d hd => by
    rw [List.mem_cons, not_or]
    constructor
    · exact fun heq => hnodup (triggeredStamp_inj heq ▸ List.mem_map_of_mem hd)
    · exact h.untriggered d (.tail _ hd)

theorem Resumed.finish {finished todo stamps : List Word} {c : Word}
    (h : Resumed finished c todo stamps) (hnodup : stampName c ∉ todo.map stampName) :
    Standing (finished ++ [c]) todo (doneStamp c :: stamps) where
  setupped := .tail _ h.setupped
  finished := fun d hd => by
    rcases List.mem_append.mp hd with hd | hd
    · exact .tail _ (h.finished d hd)
    · rw [List.mem_singleton.mp hd]
      exact .head _
  unfinished := fun d hd => by
    rw [List.mem_cons, not_or]
    constructor
    · exact fun heq => hnodup (doneStamp_inj heq ▸ List.mem_map_of_mem hd)
    · exact h.unfinished d (.tail _ hd)
  untriggered := fun d hd => by simpa using h.untriggered d hd

/-- The events of a case whose triggering panics the machine, up to the panic. -/
def broken (c : Word) (started : Fin (window.length + 1)) : List Event :=
  .stamped c :: (window.take started).map (.ran c)

def survived (c : Word) : List Event :=
  .stamped c :: window.map (.ran c) ++ [.notTriggered c]

def Boot.record (r : Shell × Halt) : Boot × Option (List Word) :=
  (⟨r.1.events, r.2⟩, if r.2.restarted then some r.1.stamps else none)

/-- The boots that deal with the cases, with what has happened so far in the first of
them: a case is given up at once or collected at the start of the next boot. -/
def schedule (w : World) : List Event → List Word → List Boot
  | events, [] => [⟨events ++ [.complete], .completed⟩]
  | events, c :: todo =>
    match w.panic c with
    | none => schedule w (events ++ survived c) todo
    | some started => ⟨events ++ broken c started, .panicked c⟩ :: schedule w (collect w c) todo

def Event.thisCase : Event → Option Word
  | .setup | .complete => none
  | .stamped c | .ran c _ | .getResult c | .verifyCase c | .notTriggered c => some c

/-- An outcome is a result with its verdict, or the line on a case that was not triggered. -/
def Event.isOutcome : Event → Bool
  | .getResult _ | .verifyCase _ | .notTriggered _ => true
  | .setup | .stamped _ | .ran _ _ | .complete => false

def allEvents (bs : List Boot) : List Event := bs.flatMap (·.events)

def Event.Triggers (c : Word) (e : Event) : Prop := e = .stamped c ∨ e = .ran c .triggerCase

theorem Event.Triggers.thisCase {c : Word} {e : Event} (h : e.Triggers c) :
    e.thisCase = some c := by
  rcases h with rfl | rfl <;> rfl

/-- The panic, if there is one, leaves `trigger_case` the time to start. -/
def triggerStarted (w : World) (c : Word) : Bool :=
  match w.panic c with
  | none => true
  | some started => Command.triggerCase ∈ window.take started

def outcome (w : World) (c : Word) : List Event :=
  if (w.panic c).isSome then collect w c else [.notTriggered c]

/-- The campaign ends with these boots.  Each case is triggered at most once and gets one
outcome, in the order of the list; it is collected when triggering it panicked the
machine, and then in a later boot. -/
structure Exact (w : World) (bs : List Boot) : Prop where
  ends : ∃ n, ∀ fuel ≥ n, campaign w fuel = some bs
  triggered : ∀ c ∈ w.allCases,
    (allEvents bs).count (.ran c .triggerCase) = if triggerStarted w c then 1 else 0
  outcomes : (allEvents bs).filter Event.isOutcome = w.allCases.flatMap (outcome w)
  panicked : ∀ c ∈ w.allCases,
    (w.panic c).isSome ↔ ∃ b ∈ bs, .stamped c ∈ b.events ∧ b.halt = .panicked c
  later : ∀ c ∈ w.allCases, ∀ (i j : Nat) (b b' : Boot), bs[i]? = some b → bs[j]? = some b' →
    (∃ e ∈ b.events, e.Triggers c) → .getResult c ∈ b'.events → i < j

end MceTest.Kdump

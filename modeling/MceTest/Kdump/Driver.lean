import MceTest.Library.Restart
import MceTest.Library.Shell

/-! The test driver `driver_kdump.sh`: the loop over the cases, the stamps that a panic
leaves behind and the boots that restart it. -/

namespace MceTest.Kdump

open MceTest.Library.Restart MceTest.Library.Shell

/-- The commands from the `_triggered` stamp of a case to the end of `sleep 5`. -/
inductive Command
  | mkdirResult | cleanResult | header | running | triggerCase | setTriggering | sleep
  deriving DecidableEq

def window : List Command :=
  [.mkdirResult, .cleanResult, .header, .running, .triggerCase, .setTriggering, .sleep]

inductive Event
  | setup
  | stamped (thisCase : Word)
  | ran (thisCase : Word) (command : Command)
  | getResult (thisCase : Word)
  | verifyCase (thisCase : Word)
  | notTriggered (thisCase : Word)
  | complete
  deriving DecidableEq

/-- What the driver finds on the machine.  `panic` is the number of commands of the
window that have been started when triggering a case panics the machine. -/
structure World where
  /-- The cases each script in `CASES` enumerates. -/
  cases : List (List Word)
  coredir : Bool := true
  setup : Nat := 0
  mceInject : Bool := true
  crashkernel : Bool := true
  getResult : Word → Nat := fun _ => 0
  panic : Word → Option (Fin (window.length + 1))

def World.allCases (w : World) : List Word := w.cases.flatten

/-- The setup and the check of the boot loader pass. -/
structure World.Ready (w : World) : Prop where
  coredir : w.coredir = true
  setup : w.setup = 0
  mceInject : w.mceInject = true
  crashkernel : w.crashkernel = true

/-- The stamps are files; `triggering` and what has happened belong to one boot. -/
structure Shell where
  stamps : List Word
  triggering : Bool := false
  events : List Event := []

def Shell.touch (s : Shell) (stamp : Word) : Shell := { s with stamps := stamp :: s.stamps }
def Shell.log (s : Shell) (events : List Event) : Shell := { s with events := s.events ++ events }

inductive Halt
  | shutdown
  | died
  | panicked (thisCase : Word)
  | completed
  deriving DecidableEq

/-- `cron` starts the driver at the next boot. -/
def Halt.restarted : Halt → Bool
  | .shutdown | .panicked _ => true
  | .died | .completed => false

def setupped : Word := "setupped".toList
def firstTestChecked : Word := "first_test_checked".toList

def stampName (thisCase : Word) : Word := thisCase.map fun c => if c = '/' then '_' else c
def doneStamp (thisCase : Word) : Word := stampName thisCase ++ "_done".toList
def triggeredStamp (thisCase : Word) : Word := stampName thisCase ++ "_triggered".toList

/-- The subshell `(get_result; verify_case)`: with `-e` it ends when `get_result` fails.
The case scripts end with `exit 0`. -/
def collect (w : World) (thisCase : Word) : List Event :=
  .getResult thisCase :: if w.getResult thisCase = 0 then [.verifyCase thisCase] else []

def firstTest (w : World) (s : Shell) : Option Shell :=
  if firstTestChecked ∈ s.stamps then some s
  else if w.crashkernel then some (s.touch firstTestChecked)
  else none

/-- What the body does after `sleep 5`. -/
def report (w : World) (thisCase : Word) (s : Shell) : Shell :=
  let s := s.log (if s.triggering then [.notTriggered thisCase] else collect w thisCase)
  s.touch (doneStamp thisCase)

def caseBody (w : World) (thisCase : Word) (s : Shell) : Shell × Option Halt :=
  if doneStamp thisCase ∈ s.stamps then (s, none)
  else
    match firstTest w s with
    | none => (s, some .died)
    | some s =>
      if triggeredStamp thisCase ∈ s.stamps then (report w thisCase s, none)
      else
        let s := (s.touch (triggeredStamp thisCase)).log [.stamped thisCase]
        match w.panic thisCase with
        | some started =>
          (s.log ((window.take started).map (.ran thisCase)), some (.panicked thisCase))
        | none =>
          let s := s.log (window.map (.ran thisCase))
          (report w thisCase { s with triggering := true }, none)

def caseLoop (w : World) : List Word → Shell → Shell × Option Halt
  | [], s => (s, none)
  | thisCase :: cases, s =>
    match caseBody w thisCase s with
    | (s, none) => caseLoop w cases s
    | (s, some halt) => (s, some halt)

def scriptLoop (w : World) : List (List Word) → Shell → Shell × Option Halt
  | [], s => (s, none)
  | cases :: scripts, s =>
    match caseLoop w cases s with
    | (s, none) => scriptLoop w scripts s
    | (s, some halt) => (s, some halt)

/-- The driver from the top, with the stamps it finds. -/
def driver (w : World) (stamps : List Word) : Shell × Halt :=
  let s : Shell := { stamps }
  if ¬ w.coredir then (s, .died)
  else if setupped ∉ stamps then
    if w.setup ≠ 0 then (s.log [.setup], .died)
    else ((s.log [.setup]).touch setupped, .shutdown)
  else if ¬ w.mceInject then (s, .died)
  else
    match scriptLoop w w.cases s with
    | (s, none) => (s.log [.complete], .completed)
    | (s, some halt) => (s, halt)

structure Boot where
  events : List Event
  halt : Halt
  deriving DecidableEq

def boot (w : World) (stamps : List Word) : Boot × Option (List Word) :=
  let (s, halt) := driver w stamps
  (⟨s.events, halt⟩, if halt.restarted then some s.stamps else none)

def campaign (w : World) (fuel : Nat) : Option (List Boot) := restarts (boot w) fuel []

end MceTest.Kdump

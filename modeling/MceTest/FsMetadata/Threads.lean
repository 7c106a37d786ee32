import MceTest.Library.Shell
import MceTest.Library.Transition
import MceTest.PageTypes.Show

/-! `fs-metadata.sh` and the `k-thread.sh` scripts it starts, which share a flag and a result
file. -/

namespace MceTest.FsMetadata

open MceTest.Library.Shell MceTest.PageTypes

/-- What `date "+%m-%d %H:%M:%S"` prints. -/
structure Stamp where
  month : Nat
  day : Nat
  hour : Nat
  minute : Nat
  second : Nat
  deriving DecidableEq

def twoDigits (n : Nat) : Word := [Nat.digitChar (n / 10 % 10), Nat.digitChar (n % 10)]

def Stamp.text (date : Stamp) : Word :=
  ['['] ++ twoDigits date.month ++ ['-'] ++ twoDigits date.day ++ [' '] ++ twoDigits date.hour ++
    [':'] ++ twoDigits date.minute ++ [':'] ++ twoDigits date.second ++ [']']

structure Line where
  stamp : Stamp
  text : Word
  deriving DecidableEq

def Line.word (l : Line) : Word := l.stamp.text ++ ' ' :: l.text

/-- `egrep "pass|fail"` -/
def isVerdict (text : Word) : Bool := "pass".toList <:+: text ∨ "fail".toList <:+: text

structure Config where
  /-- `$*` -/
  params : Word
  threads : Nat
  sec : Word
  kResult : Word
  kLog : Word
  /-- No duration that `sleep` takes has such a text in it. -/
  sec_quiet : isVerdict sec = false

def beginText (cfg : Config) : Word :=
  "[begin] fs-stress testing start with parameters: ".toList ++ cfg.params

/-- `sec` is not set before all threads are started. -/
def finishText (sec : Option Word) : Word :=
  "finish ".toList ++ (match sec with
    | none => []
    | some sec => sec ++ [' ']) ++ "secs fs stress testing, clean up the envirnment".toList

def verdictText (dir : Nat) (same : Bool) : Word :=
  "thread ".toList ++ decText dir ++ ": ".toList ++ (if same then "pass" else "fail").toList ++
    " to compare result between dir ".toList ++ decText dir ++ " and ".toList ++ decText dir ++
    "-new".toList

def passText (n : Nat) : Word := "PASS:".toList ++ decText n
def failText (n : Nat) : Word := "FAIL:".toList ++ decText n

def summaryTexts (cfg : Config) (runTime totalNr passNr failNr : Nat) : List Word :=
  ["Finish fs-metadata testing within ".toList ++ decText runTime ++ " secs, ".toList ++
      decText totalNr ++ " metadata".toList,
    "testing finished.".toList, passText passNr, failText failNr,
    "You can refer to result file ".toList ++ cfg.kResult ++ [','],
    "and log file ".toList ++ cfg.kLog ++ " for details.".toList]

/-- Where a call of `k_result` is: before its first test of the flag, before the write under it,
before the second test, before the write under that. -/
inductive Call
  | test (text : Word)
  | write (text : Word)
  | retest (text : Word)
  | rewrite (text : Word)
  deriving DecidableEq

/-- What is left of the call, and the text that is written. -/
def Call.step (flag : Bool) : Call → Option Call × Option Word
  | .test text => (some (if flag then .write text else .retest text), none)
  | .write text => (some (.retest text), some text)
  | .retest text => (if ¬ flag ∧ ¬ isVerdict text then some (.rewrite text) else none, none)
  | .rewrite text => (none, some text)

inductive Pc
  | start | generate | head | work
  | report (call : Call)
  | ended
  deriving DecidableEq

structure Thread where
  pc : Pc
  /-- What the comparisons have found so far, a history that the script does not keep. -/
  rounds : List Bool := []

inductive Parent
  | starting | sleeping
  | finishing (call : Call)
  | unlinking | countingTotal | countingPass | countingFail
  | summing (call : Call) (texts : List Word)
  | listing
  | killing (pids : List Nat)
  | truncating | gone
  deriving DecidableEq

structure State where
  /-- `$K_FLAG` exists. -/
  flag : Bool := true
  result : List Line
  /-- `$K_THREADS_PID`, with the number of a thread for its process. -/
  pids : List Nat := []
  threads : List Thread := []
  parent : Parent := .starting
  alive : Bool := true
  totalNr : Nat := 0
  passNr : Nat := 0
  failNr : Nat := 0

/-- Where the trap has been set; the first line was written without a flag. -/
def started (cfg : Config) (date : Stamp) : State where
  result := if isVerdict (beginText cfg) then [] else [⟨date, beginText cfg⟩]

def State.file (s : State) : TextFile := { lines := s.result.map Line.word }

def State.log (s : State) (date : Stamp) (text : Option Word) : State :=
  { s with result := s.result ++ (text.map (Line.mk date)).toList }

/-- What the thread `i` does next and the text it writes; `same` is what `k_tree_diff` finds. -/
def Thread.step (flag : Bool) (i : Nat) (same : Bool) (t : Thread) :
    Option (Thread × Option Word) :=
  match t.pc with
  | .start => some ({ t with pc := .generate }, none)
  | .generate => some ({ t with pc := .head }, none)
  | .head => some ({ t with pc := if flag then .work else .ended }, none)
  | .work =>
    some ({ pc := .report (.test (verdictText i same)), rounds := t.rounds ++ [same] }, none)
  | .report call =>
    let (rest, text) := call.step flag
    some ({ t with pc := rest.elim .head .report }, text)
  | .ended => none

def threadStep (s : State) (i : Nat) (t : Thread) (same : Bool) (date : Stamp) : Option State :=
  (t.step s.flag i same).map fun (t', text) =>
    { s.log date text with
      threads := s.threads.set i t'
      -- `echo $$ | tee -a $K_THREADS_PID` comes first
      pids := s.pids ++ if t.pc = .start then [i] else [] }

def toReport : List Word → Parent
  | [] => .listing
  | text :: texts => .summing (.test text) texts

def State.kill (s : State) (i : Nat) : State :=
  { s with threads := s.threads.modify i fun t => { t with pc := .ended } }

def parentStep (cfg : Config) (s : State) (runTime : Nat) (date : Stamp) : Option State :=
  match s.parent with
  | .starting =>
    some (if s.threads.length < cfg.threads then
        { s with threads := s.threads ++ [{ pc := .start }] }
      else { s with parent := .sleeping })
  | .sleeping => some { s with parent := .finishing (.test (finishText (some cfg.sec))) }
  | .finishing call =>
    let (rest, text) := call.step s.flag
    some { s.log date text with parent := rest.elim .unlinking .finishing }
  | .unlinking => some { s with flag := false, parent := .countingTotal }
  | .countingTotal =>
    some { s with totalNr := (s.file.all.filter isVerdict).length, parent := .countingPass }
  | .countingPass =>
    some { s with passNr := (grep "pass" s.file).length, parent := .countingFail }
  | .countingFail =>
    let failNr := (grep "fail" s.file).length
    some { s with
      failNr := failNr
      parent := toReport (summaryTexts cfg runTime s.totalNr s.passNr failNr) }
  | .summing call texts =>
    let (rest, text) := call.step s.flag
    some { s.log date text with parent := rest.elim (toReport texts) (.summing · texts) }
  | .listing => some { s with parent := .killing s.pids }
  | .killing [] => some { s with parent := .truncating }
  | .killing (i :: pids) => some { s.kill i with parent := .killing pids }
  | .truncating => some { s with pids := [], parent := .gone }
  | .gone => none

inductive Action
  | parent (runTime : Nat) (date : Stamp)
  | thread (i : Nat) (same : Bool) (date : Stamp)
  /-- A signal makes the parent leave, with the commands of its trap. -/
  | signal
  /-- A process ends at once. -/
  | killParent
  | killThread (i : Nat)

def step (cfg : Config) (s : State) : Action → Option State
  | .parent runTime date => if s.alive then parentStep cfg s runTime date else none
  | .thread i same date => s.threads[i]?.bind fun t => threadStep s i t same date
  | .signal =>
    if ¬ s.alive then none
    else match s.parent with
      | .starting => some { s with parent := .finishing (.test (finishText none)) }
      | .sleeping => some { s with parent := .finishing (.test (finishText (some cfg.sec))) }
      | _ => none
  | .killParent => some { s with alive := false }
  | .killThread i => some (s.kill i)

/-- The processes take their steps in any order, and any of them may be killed. -/
def Any (_ : State) (_ : Action) : Prop := True

instance (s : State) (a : Action) : Decidable (Any s a) := isTrue trivial

end MceTest.FsMetadata

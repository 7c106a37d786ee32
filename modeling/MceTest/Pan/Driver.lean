import MceTest.Library.Slots
import MceTest.Library.Transition
import MceTest.Pan.Collection
import MceTest.Pan.Registered

/-! The main loop of `ltp-pan`, with its children and with the other programs that use the same
active file.  A signal arrives between two parts of the loop, or interrupts a call in which
`run_child` waits. -/

namespace MceTest.Pan

open MceTest.Library

inductive Signal
  | sighup | sigint | sigkill | sigusr1 | sigusr2 | sigalrm | sigterm
  deriving DecidableEq

/-- The variables of the signal handler, where `none` is 0. -/
structure Ratchet where
  recSignal : Option Signal := none
  sendSignal : Option Signal := none
  lastsent : Option Signal := none
  deriving DecidableEq

def waitHandler (r : Ratchet) : Option Signal → Ratchet
  | none => { r with lastsent := none }
  | some sig =>
    if sig = .sigusr2 then { r with recSignal := some sig }
    else
      let sendSignal :=
        if r.lastsent = none then some sig
        else if r.lastsent = some .sigusr1 then some .sigint
        else if r.lastsent = some sig then some .sigterm
        else if r.lastsent = some .sigterm then some .sighup
        else if r.lastsent = some .sighup then some .sigkill
        else r.sendSignal
      ⟨some sig, sendSignal, sendSignal⟩

/-- What `wait` has to say about a child. -/
inductive Ending
  | signaled (sig : Nat) (core : Bool)
  | exited (status : UInt8)
  | stopped (sig : Nat)
  | unknown
  deriving DecidableEq

def Ending.w : Ending → Nat
  | .signaled sig _ | .stopped sig => sig
  | .exited status => status.toNat
  | .unknown => 0

def Ending.status : Ending → Text
  | .signaled _ _ => "signaled".toList
  | .exited _ => "exited".toList
  | .stopped _ => "stopped".toList
  | .unknown => "unknown".toList

def Ending.core : Ending → Bool
  | .signaled _ core => core
  | _ => false

def Ending.final : Ending → Bool
  | .signaled _ _ | .exited _ => true
  | .stopped _ | .unknown => false

def Ending.signaled? : Ending → Bool
  | .signaled _ _ => true
  | _ => false

/-- What is counted in `ret`, before the child is looked up. -/
def Ending.ret : Ending → Int
  | .signaled _ _ => 0
  | .exited status => if status = 0 then 0 else 1
  | .stopped _ | .unknown => 1

/-- What `waitpid` gives for a child that is taken not to have executed its command.  When a signal
interrupts it, the process stays, and the status is what the variable happens to hold. -/
inductive Waited
  | ended (ending : Ending)
  | interrupted (sig : Signal) (cpid : Pid) (status : Ending)
  deriving DecidableEq

def Waited.status : Waited → Ending
  | .ended status | .interrupted _ _ status => status

def Waited.left : Waited → Option Pid
  | .ended _ => none
  | .interrupted _ cpid _ => some cpid

def Waited.sigs : Waited → List Signal
  | .ended _ => []
  | .interrupted sig _ _ => [sig]

/-- What becomes of a command that is to be run.  The child is taken not to have executed it when
`read` finds the length of a message in the pipe, and also when a signal interrupts `read`: then
the length is what the variable happens to hold. -/
inductive Birth
  | unopened
  | unpiped
  | unforked
  | unexecuted (sig : Option Signal) (errlen : Int) (errbuf : Text) (waited : Waited)
  | started (cpid : Pid)
  deriving DecidableEq

/-- The output file of the command is open. -/
def Birth.opened : Birth → Bool
  | .unopened => false
  | _ => true

def Birth.piped : Birth → Bool
  | .unopened | .unpiped => false
  | _ => true

def Birth.forked : Birth → Bool
  | .unexecuted _ _ _ _ | .started _ => true
  | _ => false

/-- What is returned for the command, without a process for -1. -/
def Birth.cpid : Birth → Option Pid
  | .started cpid => some cpid
  | _ => none

/-- The process that stays although -1 is returned. -/
def Birth.left : Birth → Option Pid
  | .unexecuted _ _ _ waited => waited.left
  | _ => none

def Birth.sigs : Birth → List Signal
  | .unexecuted sig _ _ waited => sig.toList ++ waited.sigs
  | _ => []

/-- `errbuf[errlen]` is not in the buffer. -/
def Birth.wild : Birth → Bool
  | .unexecuted _ errlen _ _ => ¬ (0 ≤ errlen ∧ errlen < 1024)
  | _ => false

/-- An element of the array `running` that is in use. -/
structure Running where
  pgrp : Pid
  stopping : Bool
  cmd : CollEntry

structure LogLine where
  tag : Text
  exit : Text
  stat : Nat
  core : Bool

inductive Report
  | testStart (tag cmdline : Text)
  | output (cpid : Pid)
  | testEnd (initStatus termType : Text) (corefile : Bool) (termId : Nat)

structure Options where
  pid : Pid
  panname : Text
  av : List Text
  coll : List CollEntry
  keepActive : Nat
  starts : Int := -1
  timed : Bool := false
  sequential : Bool := false
  hasBrakes : Bool := false
  trackExitStats : Bool := false
  forkInRoad : Bool := false
  fmtPrint : Bool := false
  quietMode : Bool := false
  rts : Bool := true
  testOutDir : Bool := false
  logfile : Bool := false
  failcmdfile : Bool := false
  commands : coll ≠ []
  plain : ∀ colle ∈ coll, '\n' ∉ colle.name ∧ '\n' ∉ colle.cmdline
  args : '\n' ∉ panname ∧ ∀ arg ∈ av, '\n' ∉ arg

/-- The parts of the main loop, and what is behind it.  In `launch` a command is to be run, as the
test of the inner loop has succeeded. -/
inductive Ctl
  | schedule
  | launch
  | govern
  | reap
  | judge (err : Bool)
  | linger
  | exited (status : Nat)
  | aborted
  | undefined
  deriving DecidableEq

/-- The variables of `main`, what it writes and the system calls it makes.  The last four fields
are not its own: what has become of the commands so far, which children have ended how, which
processes `run_child` has left, and what the other programs have in the active file. -/
structure State where
  ctl : Ctl
  running : List (Option Running)
  orphans : List (Option Pid)
  numActive : Int
  starts : Int
  c : Nat
  counter : Nat
  stop : Nat
  goIdle : Nat
  forkInRoad : Bool
  exitStat : Nat
  failcnt : Nat
  ratchet : Ratchet
  zoofile : Text
  log : List LogLine
  totals : Option (Nat × Nat)
  failcmds : List (Text × Text)
  reports : List Report
  execs : List (CollEntry × Option Text)
  kills : List (Pid × Option Signal)
  births : List (CollEntry × Birth)
  ended : List (Running × Ending)
  strays : List Pid
  others : List Pid

/-- The default for `starts`. -/
def Options.firstStarts (o : Options) : Int :=
  if o.timed ∧ o.starts = -1 then -1
  else if o.starts = -1 then if o.sequential then o.coll.length else 1
  else if o.starts = 0 then -1
  else max o.starts o.keepActive

/-- Reports are written: neither `-q` nor `-r none` has been given. -/
def Options.loud (o : Options) : Bool := !o.quietMode && o.rts

/-- With one process at a time there is no buffering. -/
def Options.buffered (o : Options) : Bool := o.testOutDir && o.keepActive ≠ 1

/-- The lines for arguments of any length, which are marked and cleared again. -/
def allocate (o : Options) (file : Text) : Option Text :=
  let file := (List.range o.keepActive).foldl
    (fun file c => zooMarkCmdline file (Fin.ofNat (2 ^ 31) c) o.panname []) file
  (List.range o.keepActive).foldlM
    (fun file c =>
      match zooClear file (Fin.ofNat (2 ^ 31) c) with
      | (file, 0) => some file
      | _ => none) file

def start (o : Options) (file : Text) (others : List Pid) : State :=
  let file := zooMarkArgs file o.pid o.panname o.av
  { ctl := if (allocate o file).isSome then .schedule else .aborted
    running := List.replicate o.keepActive none
    orphans := [none]
    numActive := 0
    starts := o.firstStarts
    c := 0
    counter := 1
    stop := 0
    goIdle := 0
    forkInRoad := o.forkInRoad
    exitStat := 0
    failcnt := 0
    ratchet := {}
    zoofile := (allocate o file).getD file
    log := []
    totals := none
    failcmds := []
    reports := []
    execs := []
    kills := []
    births := []
    ended := []
    strays := []
    others }

def Birth.report : Birth → List Report
  | .unexecuted _ _ errbuf waited =>
    [.testEnd errbuf waited.status.status waited.status.core waited.status.w]
  | _ => []

/-- A command is to be run in the `i`-th slot. -/
def runChild (o : Options) (colle : CollEntry) (i : Nat) (birth : Birth) (s : State) : State :=
  { s with
    births := s.births ++ [(colle, birth)]
    counter := if birth.opened && colle.pcntF then s.counter + 1 else s.counter
    reports := s.reports ++
      (if birth.piped && !o.buffered && o.loud then [.testStart colle.name colle.cmdline]
        else []) ++
      if o.loud then birth.report else []
    execs := s.execs ++
      if birth.forked then [(colle, substPcntF colle o.pid s.counter)] else []
    running :=
      match birth.cpid with
      | some cpid => s.running.set i (some ⟨cpid, false, colle⟩)
      | none => s.running
    zoofile :=
      match birth.cpid with
      | some cpid => zooMarkCmdline s.zoofile cpid colle.name colle.cmdline
      | none => s.zoofile
    ratchet := birth.sigs.foldl (fun r sig => waitHandler r (some sig)) s.ratchet
    strays := s.strays ++ birth.left.toList
    ctl := if birth.wild then .undefined else .schedule }

def State.schedules (o : Options) (s : State) : Bool :=
  s.numActive < o.keepActive ∧ s.starts ≠ 0 ∧
    ¬(s.stop ≠ 0 ∨ s.ratchet.recSignal.isSome ∨ s.goIdle ≠ 0)

/-- The `c`-th command is run in the `i`-th slot, and is counted. -/
def launch (o : Options) (c i : Nat) (colle : CollEntry) (birth : Birth) (s : State) : State :=
  let s := runChild o colle i birth s
  let born := birth.cpid.isSome
  { s with
    numActive := if born then s.numActive + 1 else s.numActive
    starts := if (born || o.sequential) && 0 < s.starts then s.starts - 1 else s.starts
    c := if o.sequential then (if c + 1 ≥ o.coll.length then 0 else c + 1) else c }

/-- One turn of the loop that starts the commands, behind its test. -/
def schedule (o : Options) (rand : Nat) (birth : Birth) (s : State) : Option State :=
  let c := if o.sequential then s.c else rand % o.coll.length
  match Slots.firstEmpty s.running with
  | none =>
    some { s with
      c
      ratchet := waitHandler s.ratchet (some .sigint)
      exitStat := s.exitStat + 1
      ctl := .govern }
  | some i =>
    (o.coll[c]?).map fun colle => launch o c i colle birth s

/-- The orphaned groups without the empty ones, which are cleared. -/
def clearOrphans (gone : Pid → Bool) : List (Option Pid) → Text → List (Option Pid) × Text
  | [], file => ([], file)
  | none :: orphans, file =>
    let (orphans, file) := clearOrphans gone orphans file
    (none :: orphans, file)
  | some pgrp :: orphans, file =>
    let file := if gone pgrp then (zooClear file pgrp).1 else file
    let (orphans, file) := clearOrphans gone orphans file
    ((if gone pgrp then none else some pgrp) :: orphans, file)

def checkOrphans (gone : Pid → Bool) (sig : Option Signal) (s : State) : State :=
  let (orphans, zoofile) := clearOrphans gone s.orphans s.zoofile
  { s with
    orphans, zoofile
    kills := s.kills ++ (Registry.entries s.orphans).map (·, sig) }

/-- The first free node of the list, or else a new one just after the head. -/
def markOrphan (orphans : List (Option Pid)) (cpid : Pid) : List (Option Pid) :=
  match Slots.firstEmpty orphans with
  | some i => orphans.set i (some cpid)
  | none =>
    match orphans with
    | [] => []
    | head :: orphans => head :: some cpid :: orphans

def propagateSignal (gone : Pid → Bool) (s : State) : State :=
  let s := { s with
    kills := s.kills ++ (Registry.entries s.running).map (·.pgrp, s.ratchet.sendSignal)
    running := s.running.map (·.map ({ · with stopping := true })) }
  let s := checkOrphans gone s.ratchet.sendSignal s
  { s with ratchet := ⟨none, none, s.ratchet.lastsent⟩ }

def windDown (s : State) : State :=
  { s with
    goIdle := if s.forkInRoad then s.goIdle + 1 else s.goIdle
    stop := if s.forkInRoad then s.stop else s.stop + 1 }

/-- What is done between starting commands and waiting for one. -/
def govern (stopFile : Bool) (gone : Pid → Bool) (s : State) : State :=
  let ends := s.starts = 0 ∨ s.starts = -1 ∧ stopFile
  let s := { s with stop := if ends then s.stop + 1 else s.stop }
  match s.ratchet.recSignal with
  | none => s
  | some .sigusr2 => { windDown s with ratchet := ⟨none, none, s.ratchet.lastsent⟩ }
  | some sig =>
    windDown (propagateSignal gone
      { s with forkInRoad := if sig = .sigusr1 then false else s.forkInRoad })

def compensated (r : Running) (ending : Ending) : Bool :=
  ending.w = 130 ∧ r.stopping ∧ ending.status = "exited".toList

def finalW (r : Running) (ending : Ending) : Nat := if compensated r ending then 0 else ending.w

def ret (r : Running) (ending : Ending) : Int :=
  let ret := if compensated r ending then ending.ret - 1 else ending.ret
  if ending.signaled? && !r.stopping then ret + 1 else ret

/-- What is written about a child that was waited for. -/
def endReports (o : Options) (r : Running) (ending : Ending) : List Report :=
  let status := if r.stopping then "driver_interrupt".toList else ending.status
  (if o.buffered then
    (if o.loud then [.testStart r.cmd.name r.cmd.cmdline] else []) ++ [.output r.pgrp] else []) ++
  if o.loud then [.testEnd "ok".toList status ending.core (finalW r ending)] else []

/-- What is done about a child that was waited for, and was found in the `i`-th slot. -/
def reaped (o : Options) (i : Nat) (r : Running) (ending : Ending) (left : Bool)
    (s : State) : State :=
  let w := finalW r ending
  let (zoofile, failed) := zooClear s.zoofile r.pgrp
  let orphaned := left && failed = 0
  { s with
    ended := s.ended ++ [(r, ending)]
    log := s.log ++
      if o.logfile then [⟨r.cmd.name, ending.status, w, ending.core⟩] else []
    failcnt := if o.logfile && o.fmtPrint && w ≠ 0 then s.failcnt + 1 else s.failcnt
    failcmds := s.failcmds ++
      if o.failcmdfile && w ≠ 0 then [(r.cmd.name, r.cmd.cmdline)] else []
    reports := s.reports ++ endReports o r ending
    running := s.running.set i none
    zoofile :=
      if orphaned then zooMarkCmdline zoofile r.pgrp "panorphan".toList r.cmd.cmdline
      else zoofile
    orphans := if orphaned then markOrphan s.orphans r.pgrp else s.orphans
    kills := if orphaned then s.kills ++ [(r.pgrp, some .sigterm)] else s.kills
    ctl := if failed = 0 then .judge (ret r ending ≠ 0) else .aborted }

/-- `wait` has been interrupted, or it has got hold of a child, of whose group something may be
left. -/
def checkPids (o : Options) (gone : Pid → Bool) (wait : Option (Pid × Ending)) (left : Bool)
    (s : State) : State :=
  let s := checkOrphans gone none s
  match wait with
  | none => { s with ctl := .judge false }
  | some (cpid, ending) =>
    let s := if ending.final then { s with numActive := s.numActive - 1 } else s
    let i := s.running.findIdx fun slot => slot.any (·.pgrp = cpid)
    match (s.running[i]?).join with
    | none => { s with strays := s.strays.erase cpid, ctl := .judge (ending.ret ≠ 0) }
    | some r => reaped o i r ending left s

/-- What is done about a child that has failed. -/
def note (o : Options) (err : Bool) (s : State) : State :=
  { s with
    goIdle := if err && s.forkInRoad then s.goIdle + 1 else s.goIdle
    exitStat := if err && o.trackExitStats then s.exitStat + 1 else s.exitStat
    ratchet := if err && o.hasBrakes then waitHandler s.ratchet (some .sigint) else s.ratchet }

/-- Whether the loop goes on. -/
def judge (o : Options) (err : Bool) (s : State) : State :=
  let s := note o err s
  if s.stop ≠ 0 ∧ s.numActive = 0 then { s with ctl := .linger }
  else if s.goIdle ≠ 0 ∧ s.numActive = 0 then
    { s with goIdle := 0, ratchet := waitHandler s.ratchet none, ctl := .schedule }
  else { s with ctl := .schedule }

/-- Without a signal an artificial one moves the ratchet. -/
def nudge (s : State) : State :=
  { s with
    ratchet := if s.ratchet.recSignal.isSome then s.ratchet
      else waitHandler s.ratchet (some .sigint) }

/-- A turn of the loop that waits for the orphaned groups, and the end of the program. -/
def linger (o : Options) (gone : Pid → Bool) (s : State) : State :=
  if s.orphans.all Option.isNone then
    let (zoofile, failed) := zooClear s.zoofile o.pid
    let exitStat := if failed = 0 then s.exitStat else s.exitStat + 1
    { s with
      zoofile, exitStat
      totals := if o.logfile ∧ o.fmtPrint then some (o.coll.length, s.failcnt) else none
      ctl := .exited (exitStat % 256) }
  else propagateSignal gone (nudge s)

inductive Action
  | signal (sig : Signal)
  | enter
  | leave
  | launch (rand : Nat) (birth : Birth)
  | govern (stopFile : Bool) (gone : Pid → Bool)
  | reap (gone : Pid → Bool) (wait : Option (Pid × Ending)) (left : Bool)
  | judge
  | linger (gone : Pid → Bool)
  | other (op : Op)

def Ctl.over : Ctl → Bool
  | .exited _ | .aborted | .undefined => true
  | _ => false

def step (o : Options) (s : State) : Action → Option State
  | .signal sig =>
    if s.ctl.over then none else some { s with ratchet := waitHandler s.ratchet (some sig) }
  | .enter => if s.ctl = .schedule ∧ s.schedules o then some { s with ctl := .launch } else none
  | .leave =>
    if s.ctl = .schedule ∧ ¬s.schedules o then some { s with ctl := .govern } else none
  | .launch rand birth => if s.ctl = .launch then schedule o rand birth s else none
  | .govern stopFile gone =>
    if s.ctl = .govern then some { govern stopFile gone s with ctl := .reap } else none
  | .reap gone wait left =>
    if s.ctl = .reap then some (checkPids o gone wait left s) else none
  | .judge =>
    match s.ctl with
    | .judge err => some (judge o err s)
    | _ => none
  | .linger gone => if s.ctl = .linger then some (linger o gone s) else none
  | .other op => some { s with zoofile := op.run s.zoofile, others := op.track s.others }

def State.pids (s : State) : List Pid := (Registry.entries s.running).map Running.pgrp

def State.Fresh (o : Options) (s : State) (cpid : Pid) : Prop :=
  cpid ≠ 0 ∧ cpid ≠ o.pid ∧ cpid ∉ s.pids ∧ cpid ∉ s.strays

instance (o : Options) (s : State) (cpid : Pid) : Decidable (s.Fresh o cpid) :=
  inferInstanceAs (Decidable (_ ∧ _ ∧ _ ∧ _))

/-- What the kernel keeps to in `run_child`: the process of a new child is not in use, and `SIGKILL`
is not handled. -/
def Birth.Ok (o : Options) (s : State) (birth : Birth) : Prop :=
  (birth = .unopened → o.buffered = true) ∧
    (∀ cpid ∈ birth.cpid.toList ++ birth.left.toList, s.Fresh o cpid) ∧ .sigkill ∉ birth.sigs

-- over the processes of the list, and not over all that there could be
instance (o : Options) (s : State) (birth : Birth) : Decidable (birth.Ok o s) :=
  @instDecidableAnd _ _ inferInstance
    (@instDecidableAnd _ _ (List.decidableBAll (s.Fresh o) _) inferInstance)

/-- What the kernel and the other programs keep to: `wait` returns a child, that has ended, and
nobody clears what another one has marked. -/
def Ok (o : Options) (s : State) : Action → Prop
  | .signal sig => sig ≠ .sigkill
  | .launch _ birth => birth.Ok o s
  | .reap _ (some (cpid, ending)) _ => (cpid ∈ s.pids ∨ cpid ∈ s.strays) ∧ ending.final = true
  | .other (.clear p) => p ∈ s.others
  | _ => True

instance (o : Options) (s : State) : (a : Action) → Decidable (Ok o s a)
  | .signal sig => inferInstanceAs (Decidable (sig ≠ .sigkill))
  | .launch _ birth => inferInstanceAs (Decidable (birth.Ok o s))
  | .reap _ (some (cpid, ending)) _ =>
    inferInstanceAs (Decidable ((cpid ∈ s.pids ∨ cpid ∈ s.strays) ∧ ending.final = true))
  | .other (.clear p) => inferInstanceAs (Decidable (p ∈ s.others))
  | .enter | .leave | .govern _ _ | .reap _ none _ | .judge | .linger _ | .other (.mark _) =>
    inferInstanceAs (Decidable True)

/-- No signal interrupts the calls in which `run_child` waits. -/
def Unbroken (o : Options) (s : State) (a : Action) : Prop :=
  Ok o s a ∧ match a with
    | .launch _ birth => birth.sigs = []
    | _ => True

instance (o : Options) (s : State) : (a : Action) → Decidable (Unbroken o s a)
  | .launch rand birth =>
    inferInstanceAs (Decidable (Ok o s (.launch rand birth) ∧ birth.sigs = []))
  | .signal sig => inferInstanceAs (Decidable (Ok o s (.signal sig) ∧ True))
  | .reap gone wait left => inferInstanceAs (Decidable (Ok o s (.reap gone wait left) ∧ True))
  | .other op => inferInstanceAs (Decidable (Ok o s (.other op) ∧ True))
  | .enter | .leave | .govern _ _ | .judge | .linger _ =>
    inferInstanceAs (Decidable (True ∧ True))

end MceTest.Pan

import MceTest.Library.Shell

/-! `bsp-test.sh`: CPUs are taken offline and online again, and those for which that fails are
put on the fail list. -/

namespace MceTest.Bsp

open MceTest.Library.Shell

inductive Mode
  | online | offline
  deriving DecidableEq

/-- A line of `$OUTPUT_LOG` about an operation. -/
structure Entry where
  mode : Mode
  cpu : Word
  failed : Bool
  deriving DecidableEq

/-- The lines of `$FAILST`, and `$OUTPUT_LOG`. -/
structure State where
  failst : List Word := []
  outputLog : List Entry := []
  deriving DecidableEq

/-- Whether the `grep -w` after the `n`-th operation finds its CPU in `/proc/cpuinfo`. -/
abbrev Answers := Nat → Bool

def cpuLine (cpu : Word) : Word := 'C' :: 'P' :: 'U' :: cpu

/-- `grep -w $1`: without a pattern `grep` fails. -/
def State.grepW (s : State) (answers : Answers) (cpu : Word) : Bool :=
  cpu ≠ [] ∧ answers s.outputLog.length

/-- `grep -q -o "CPU$1" $FAILST || echo "CPU$1" >> $FAILST` -/
def State.fail (s : State) (mode : Mode) (cpu : Word) : State where
  failst := if s.failst.any fun line => cpuLine cpu <:+: line then s.failst
    else s.failst ++ [cpuLine cpu]
  outputLog := s.outputLog ++ [⟨mode, cpu, true⟩]

def State.ok (s : State) (mode : Mode) (cpu : Word) : State :=
  { s with outputLog := s.outputLog ++ [⟨mode, cpu, false⟩] }

variable (answers : Answers)

def onlineCpu (cpu : Word) (s : State) : State :=
  if s.grepW answers cpu then s.ok .online cpu else s.fail .online cpu

def offlineCpu (cpu : Word) (s : State) : State :=
  if ¬ s.grepW answers cpu then s.ok .offline cpu else s.fail .offline cpu

/-- `seq $FIRST_CPU $MAX_CPU` -/
def cpus (maxCpu : Nat) : List Word := (List.range (maxCpu + 1)).map (Nat.toDigits 10)

def perCpuTest (maxCpu rounds : Nat) (s : State) : State :=
  (List.range rounds).foldl (fun s _ =>
    (cpus maxCpu).foldl (fun s cpu => onlineCpu answers cpu (offlineCpu answers cpu s)) s) s

/-- `expr $RANDOM % $MAX_CPU + 1`, which fails on a division by zero. -/
def cpuRan (maxCpu : Nat) (random : Fin 32768) : Word :=
  if maxCpu = 0 then [] else Nat.toDigits 10 (random % maxCpu + 1)

/-- `[ $CPU != $cpu_ran ]`, an error for an empty `cpu_ran`. -/
def differs (cpu ran : Word) : Bool := ran ≠ [] ∧ cpu ≠ ran

def groupCpuRound (maxCpu : Nat) (random : Fin 32768) (s : State) : State :=
  let ran := cpuRan maxCpu random
  let s := onlineCpu answers ran s
  let s := (cpus maxCpu).foldl
    (fun s cpu => if differs cpu ran then offlineCpu answers cpu s else s) s
  (cpus maxCpu).foldl (fun s cpu => if differs cpu ran then onlineCpu answers cpu s else s) s

def groupCpuTest (random : Nat → Fin 32768) (maxCpu rounds : Nat) (s : State) : State :=
  (List.range rounds).foldl (fun s j => groupCpuRound answers maxCpu (random j) s) s

def bspTest (random : Nat → Fin 32768) (maxCpu rounds : Nat) : State :=
  groupCpuTest answers random maxCpu rounds (perCpuTest answers maxCpu rounds {})

/-- `grep "CPU" $FAILST |wc -l` -/
def State.numFailCpu (s : State) : Nat :=
  (s.failst.filter fun line => "CPU".toList <:+: line).length

def State.numPassCpu (s : State) (maxCpu : Nat) : Int := (maxCpu + 1 : Nat) - s.numFailCpu

end MceTest.Bsp

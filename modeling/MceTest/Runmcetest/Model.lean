import MceTest.Library.Shell

/-! `run_test` and `execute_test` of `runmcetest`: the cases of a list are run in rounds, and
the summary file tells how many have passed. -/

namespace MceTest.Runmcetest

open MceTest.Library MceTest.Library.Shell

def passSign : Word := "PASS".toList

def failSign : Word := "FAIL".toList

/-- `date +%Y-%m-%d.%H.%M.%S` -/
abbrev Date := { w : Word // w.all fun c => isDigit c || c == '-' || c == '.' }

/-- What an unquoted text expands to while `IFS` is a newline. -/
def expand (sh : Behaviour) (text : List Char) : List Word :=
  ((text.splitOn '\n').filter (· ≠ [])).flatMap sh.glob

/-- `[ ${caseid:0:1} != "#" ]` -/
def isCase (sh : Behaviour) (caseid : Word) : Bool :=
  match expand sh (caseid.take 1) with
  | [] => false
  | [w] => w ≠ ['#']
  | ws => sh.testMany (ws ++ [['!', '='], ['#']])

/-- `cut -d' ' -f1` and `-f2`: a line without a blank is printed whole. -/
def cut₁ (line : Word) : Word := line.takeWhile (· ≠ ' ')

def cut₂ (line : Word) : Word :=
  if ' ' ∉ line then line else ((line.dropWhile (· ≠ ' ')).drop 1).takeWhile (· ≠ ' ')

/-- The lines of `echo $caseid`. -/
def echoCaseid (sh : Behaviour) (caseid : Word) : List Word :=
  ([' '].intercalate (expand sh caseid)).splitOn '\n'

def caseName (sh : Behaviour) (caseid : Word) : Word :=
  substitution ((echoCaseid sh caseid).map cut₁)

def caseScript (sh : Behaviour) (caseid : Word) : Word :=
  substitution ((echoCaseid sh caseid).map cut₂)

def pad (width : Nat) (w : Word) : Word := w ++ List.replicate (width - w.length) ' '

/-- `printf "%-36s%-10s\n"`, which starts again as long as there are arguments. -/
def printf : List Word → List Char
  | [] => []
  | [a] => pad 36 a ++ pad 10 [] ++ ['\n']
  | a :: b :: args => pad 36 a ++ pad 10 b ++ '\n' :: printf args

structure Run where
  script : Word
  passed : Bool
  deriving DecidableEq

structure State where
  sumFile : List Char
  totalCount : Nat := 0
  ran : List Run := []
  deriving DecidableEq

variable (sh : Behaviour) (passed : Nat → Bool)

/-- One case; the `n`-th script that is run exits with 0 if `passed n`. -/
def runCase (s : State) (caseid : Word) : State :=
  let ok := passed s.totalCount
  let row := printf (expand sh (caseName sh caseid) ++ [if ok then passSign else failSign])
  { sumFile := s.sumFile ++ row
    totalCount := s.totalCount + 1
    ran := s.ran ++ [⟨caseScript sh caseid, ok⟩] }

def runTest (caselist : List Char) (s : State) : State :=
  (expand sh caselist).foldl
    (fun s caseid => if isCase sh caseid then runCase sh passed s caseid else s) s

def headerLines (date : Date) : List Word :=
  ["Test Start Time: ".toList ++ date.val, "----------------------------------------------".toList,
    "testcase                            result".toList,
    "-------------------                 ----------".toList]

def header (date : Date) : List Char := ((headerLines date).map (· ++ ['\n'])).flatten

structure Summary where
  totalTests : Nat
  totalPasses : Nat
  totalFailures : Nat
  deriving DecidableEq

/-- The state behind all rounds, and the totals of the summary; with 0 as the number of rounds the
loop has no end. -/
def executeTest (date : Date) (caselist : List Char) (runallTimes : Nat) :
    Option (State × Summary) :=
  if runallTimes = 0 then none
  else
    let s := (List.range runallTimes).foldl (fun s _ => runTest sh passed caselist s)
      ⟨header date, 0, []⟩
    some (s, ⟨s.totalCount, Grep.count passSign s.sumFile, Grep.count failSign s.sumFile⟩)

end MceTest.Runmcetest

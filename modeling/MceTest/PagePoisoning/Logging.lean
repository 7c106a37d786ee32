import MceTest.Library.Effect
import MceTest.Library.Format
import MceTest.Library.Numeral

/-! The log of `page-poisoning.c`: `mylog`, `result` and `err` format into buffers of
`LOG_BUFLEN` bytes and pass their texts on to each other.  A `Char` stands for a byte. -/

namespace MceTest.PagePoisoning.Logging

open MceTest.Library MceTest.Library.Effect MceTest.Library.Format

def logBuflen : Nat := 100

def pathMax : Nat := 4096

abbrev Errno := BitVec 32

def ebusy : Errno := 16
def eexist : Errno := 17
def einval : Errno := 22

/-- What the system answers to `madvise`: SIGBUS with a code and an address is one of
the answers. -/
inductive Madvise
  | ok
  | failed (e : Errno)
  | bus (code : BitVec 32) (addr : BitVec 64)

inductive Access
  | byte (b : BitVec 8)
  | bus (code : BitVec 32) (addr : BitVec 64)

inductive TestFn
  | shmTest | anonClean | dirtyAnonymous | dirtyAnonymousUnmap | mlockedAnonymous
  | fileClean | fileDirty | fileCleanMlocked | fileDirtyMlocked
  deriving DecidableEq

def cases : List (TestFn × List Char) :=
  [(.shmTest, "shared memory test".toList), (.anonClean, "anonymous clean".toList),
   (.dirtyAnonymous, "anonymous dirty".toList),
   (.dirtyAnonymousUnmap, "anonymous dirty unmap".toList),
   (.mlockedAnonymous, "anonymous dirty mlocked".toList), (.fileClean, "file clean".toList),
   (.fileDirty, "file dirty".toList), (.fileCleanMlocked, "file clean mlocked".toList),
   (.fileDirtyMlocked, "file dirty mlocked".toList)]

/-- What a process is told from outside, by the number of the question. -/
structure World where
  strerror : Errno → List Char
  /-- A system call: an error number, or a value. -/
  call : Nat → Except Errno (BitVec 64)
  madvise : Nat → Madvise
  access : Nat → Access
  /-- SIGINT or SIGTERM arrives. -/
  terminated : Nat → Bool
  pid : Nat → BitVec 32
  /-- The shared memory: a flag, and the `id` of a test. -/
  flag : Nat → Bool
  testId : Nat → Fin cases.length

inductive TestCase
  | sharedMem | anonClean | anonDirty | anonDirtyUnmap | anonDirtyMlocked | fileClean
  | fileCleanMlocked | fileDirty | fileDirtyMlocked
  deriving DecidableEq

/-- The calls after which `err` is called when they fail, with what their message
holds. -/
inductive Failure
  | openLog (path : List Char)
  | openResult (path : List Char)
  | mkdir (dir : List Char)
  | openTemp (path : List Char)
  | reopen
  | madvise (tc : TestCase)
  | shmat
  | shmget
  | mmap
  | fork (i : BitVec 32)
  deriving DecidableEq

structure Incident where
  failure : Failure
  errno : Errno
  text : List Char

inductive Stop
  | exit (status : Nat)
  /-- `vsprintf` has written behind its buffer. -/
  | overrun
  /-- A jump into a frame that has returned. -/
  | undefined
  deriving DecidableEq

/-- One process: the static variables of the program, what it has written, and the
failures that it has met. -/
structure Proc where
  world : World
  time : Nat := 0
  errno : Errno := 0
  mypid : BitVec 32 := 0
  logFile : List Char := "page-poisoning.log".toList
  resultFile : List Char := "page-poisoning.result".toList
  tmpDir : List Char := "./tmp".toList
  cleanEnv : Bool := false
  childNum : BitVec 32 := 10000
  shmSize : BitVec 32 := 1
  logFd : Bool := false
  resultFd : Bool := false
  handlers : Bool := false
  inst : Nat := 0
  testid : Nat := 0
  testTypes : Nat := 0
  tShm : Option Nat := none
  gPid : List (BitVec 32) := []
  failed : BitVec 32 := 0
  unexpected : BitVec 32 := 0
  recovercount : BitVec 32 := 0
  expectedAddr : BitVec 64 := 0
  log : List (List Char) := []
  results : List (List Char) := []
  incidents : List Incident := []

abbrev M := Prog Stop Proc

def print (ps : List Piece) : M (List Char) := do
  match vsprintf logBuflen ps with
  | none => Prog.throw .overrun
  | some buf => return buf

/-- `mylog` behind its check of `log_fd`. -/
def writeLog (ps : List Piece) : M Unit := do
  let buf ← print ps
  Prog.modify fun s =>
    { s with log := s.log ++ [format [.lit "[pid ".toList, .d s.mypid, .lit "] ".toList, .s buf]] }

/-- `result` behind its check of `result_fd`. -/
def writeResult (ps : List Piece) : M Unit := do
  let buf ← print ps
  Prog.modify fun s => { s with
    results := s.results ++ [format [.lit "[pid ".toList, .d s.mypid, .lit "] ".toList, .s buf]] }
  let s ← Prog.get
  Prog.when (s.logFd = true) (writeLog [.s buf])

def err {α : Type} (ps : List Piece) : M α := do
  let buf ← print ps
  let s ← Prog.get
  -- without a result file the text goes to `perror`
  Prog.when (s.resultFd = true) <| writeResult [.lit "error: ".toList, .s buf, .lit " :".toList,
    .s (s.world.strerror s.errno), .lit "\n".toList]
  Prog.throw (.exit 1)

def mylog (ps : List Piece) : M Unit := do
  let s ← Prog.get
  Prog.when (s.logFd = false) (err [.lit "no log file there\n".toList])
  writeLog ps

def result (ps : List Piece) : M Unit := do
  let s ← Prog.get
  Prog.when (s.resultFd = false) (err [.lit "no result file there\n".toList])
  writeResult ps

/-- The message of `err` after a failure, with the text of the error number. -/
def Failure.message (text : List Char) : Failure → List Piece
  | .openLog path | .openResult path =>
    [.lit "cannot open log file: ".toList, .s path, .lit "\n".toList]
  | .mkdir dir =>
    [.lit "cannot create tmp dir: ".toList, .s dir, .lit ": ".toList, .s text, .lit "\n".toList]
  | .openTemp path => [.lit "opening temporary file: ".toList, .s path]
  | .reopen => [.lit "reopening temp file".toList]
  | .madvise _ => [.lit "error: madvise: ".toList, .s text]
  | .shmat => [.lit "shmat error\n".toList]
  | .shmget => [.lit "shmget error\n".toList]
  | .mmap => [.lit "mmap".toList]
  | .fork i => [.lit "fork ".toList, .d i, .lit "\n".toList]

def note (f : Failure) : M Unit := Prog.modify fun s =>
  { s with incidents := s.incidents ++ [⟨f, s.errno, s.world.strerror s.errno⟩] }

def failWith {α : Type} (f : Failure) : M α := do
  note f
  let s ← Prog.get
  err (f.message (s.world.strerror s.errno))

end MceTest.PagePoisoning.Logging

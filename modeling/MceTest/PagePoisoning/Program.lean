import MceTest.PagePoisoning.Logging

/-! `page-poisoning.c` from `main` to the test cases, as the run of one process: the
parent, or a child from its `fork` on. -/

namespace MceTest.PagePoisoning.Logging

open MceTest.Library MceTest.Library.Effect MceTest.Library.Format

def tick : M Nat := do
  let s ← Prog.get
  Prog.modify fun s => { s with time := s.time + 1 }
  return s.time

/-- A system call; nothing is left of it but whether it failed, and its value. -/
def syscallRaw : M (Option (BitVec 64)) := do
  let t ← tick
  let s ← Prog.get
  match s.world.call t with
  | .ok v => return some v
  | .error e =>
    Prog.modify fun s => { s with errno := e }
    return none

/-- `free_ipc`, where `call` says whether a signal can come in between. -/
def freeIpc (call : M (Option (BitVec 64))) : M Unit := do
  let _ ← call
  match ← call with
  | none => failWith .shmat
  | some _ =>
    let _ ← call
    let _ ← call

def cleanup : M Unit := freeIpc syscallRaw

def mainSighandler {α : Type} : M α := do
  mylog [.lit "receive signal to get terminated\n".toList]
  cleanup
  Prog.throw (.exit 1)

/-- A point where SIGINT and SIGTERM can come in. -/
def interrupt : M Unit := do
  let t ← tick
  let s ← Prog.get
  Prog.when (s.handlers = true ∧ s.world.terminated t = true) mainSighandler

def syscall : M (Option (BitVec 64)) := do
  interrupt
  syscallRaw

def orErr (f : Failure) : M (BitVec 64) := do
  match ← syscall with
  | some v => return v
  | none => failWith f

def flag : M Bool := do
  let t ← tick
  let s ← Prog.get
  return s.world.flag t

def getpid : M (BitVec 32) := do
  let t ← tick
  let s ← Prog.get
  return s.world.pid t

/-- A `result`, and one `failure` more. -/
def fail (ps : List Piece) : M Unit := do
  result ps
  Prog.modify fun s => { s with failed := s.failed + 1 }

/-- Where `siglongjmp` goes. -/
inductive Jump
  | recover | early

def sighandler (code : BitVec 32) (addr : BitVec 64) : M Jump := do
  mylog [.lit "signal ".toList, .d 7, .lit " code ".toList, .d code, .lit " addr ".toList,
    .p addr, .lit "\n".toList]
  let s ← Prog.get
  Prog.when (addr ≠ s.expectedAddr) <|
    fail [.lit "failed: Unexpected address in signal ".toList, .p addr,
      .lit " (expected ".toList, .p s.expectedAddr, .lit ")\n".toList]
  Prog.modify fun s => { s with recovercount := s.recovercount - 1 }
  let s ← Prog.get
  Prog.when (s.recovercount = 0) do
    result [.lit "failed: I seem to be in a signal loop. bailing out.\n".toList]
    Prog.throw (.exit 1)
  return if code = 4 then .recover else .early

/-- An access to a page that may be poisoned. -/
def access : M (Except Jump (BitVec 8)) := do
  interrupt
  let t ← tick
  let s ← Prog.get
  match s.world.access t with
  | .byte b => return .ok b
  | .bus code addr => return .error (← sighandler code addr)

inductive Rmode
  | mread | mwrite | mreadOk | mwriteOk | mnothing
  deriving DecidableEq

/-- No option sets it. -/
def earlyKill : Bool := false

def expect (page : BitVec 64) : M Unit :=
  Prog.modify fun s => { s with expectedAddr := page, recovercount := 5 }

def reservedPage : List Piece :=
  [.lit ("Kernel can't recover a reserved kernel zeroed page for " ++
    "the anonymous clean test case(expected failure)\n").toList]

/-- The branch of `poison` for an error number. -/
def poisonError (tc : TestCase) (s : Proc) : M Unit :=
  if s.errno = einval then do
    result [.lit "failed: Kernel doesn't support poison injection\n".toList]
    Prog.throw (.exit 0)
  else if s.errno = ebusy ∧ tc = .anonClean then mylog reservedPage
  else err ((Failure.madvise tc).message (s.world.strerror s.errno))

def madviseFailed (tc : TestCase) : M Unit := do
  note (.madvise tc)
  let s ← Prog.get
  poisonError tc s

/-- What `poison` and `recover` do after a jump to them. -/
def afterJump (msg : List Char) (mode : Rmode) : M Unit :=
  if mode = .mreadOk ∨ mode = .mwriteOk then
    fail [.lit "failed: ".toList, .s msg, .lit ": killed\n".toList]
  else mylog [.lit "pass: recovered\n".toList]

def poison (msg : List Char) (page : BitVec 64) (mode : Rmode) (tc : TestCase) : M Unit := do
  expect page
  interrupt
  let t ← tick
  let s ← Prog.get
  match s.world.madvise t with
  | .failed e =>
    Prog.modify fun s => { s with errno := e }
    madviseFailed tc
  | .ok =>
    Prog.when (earlyKill = true ∧ (mode = .mwrite ∨ mode = .mread)) <|
      fail [.lit "failed: ".toList, .s msg, .lit ": process is not early killed\n".toList]
  | .bus code addr =>
    match ← sighandler code addr with
    | .early => Prog.when (earlyKill = true) (afterJump msg mode)
    | .recover => Prog.throw .undefined

/-- The access of `recover`, the byte it read, and whether the test is over then. -/
def recoverAccess (mode : Rmode) : M (Except Jump Bool) := do
  match mode with
  | .mwrite =>
    mylog [.lit "writing 2\n".toList]
    return (← access).map fun _ => false
  | .mwriteOk =>
    mylog [.lit "writing 4\n".toList]
    return (← access).map fun _ => true
  | .mread | .mreadOk =>
    match ← access with
    | .error j => return .error j
    | .ok b =>
      mylog [.lit "reading ".toList, .x b, .lit "\n".toList]
      return .ok (mode = .mreadOk)
  | .mnothing => return .ok true

def recover (msg : List Char) (page : BitVec 64) (mode : Rmode) : M Unit := do
  expect page
  match ← recoverAccess mode with
  | .ok true => return
  | .ok false =>
    fail [.lit "failed: ".toList, .s msg, .lit ": page is not poisoned after injection\n".toList]
  | .error .recover => afterJump msg mode
  | .error .early => Prog.throw .undefined

def testmem (msg : List Char) (page : BitVec 64) (mode : Rmode) (tc : TestCase) : M Unit := do
  mylog [.s msg, .lit " poisoning page ".toList, .p page, .lit "\n".toList]
  poison msg page mode tc
  recover msg page mode

def expectedError (msg : List Char) : M Unit := do
  let s ← Prog.get
  mylog [.lit "pass: expected error ".toList, .d s.errno, .lit " on ".toList, .s msg,
    .lit "\n".toList]

def expecterr (msg : List Char) (failed : Bool) : M Unit :=
  if failed then expectedError msg
  else fail [.lit "failed: unexpected no error on ".toList, .s msg, .lit "\n".toList]

def optionalerr (msg : List Char) (failed : Bool) : M Unit := do
  if failed then expectedError msg
  else
    mylog [.lit "LATER: expected likely incorrect no error on ".toList, .s msg, .lit "\n".toList]
    Prog.modify fun s => { s with unexpected := s.unexpected + 1 }

/-- `snprintf` into a buffer of the given size. -/
def snprintf (size : Nat) (ps : List Piece) : List Char := (format ps).take (size - 1)

def xmalloc : M Unit := do
  match ← syscall with
  | none => Prog.throw (.exit 12)
  | some _ => return

def fails : M Bool := return (← syscall).isNone

def playfile : M (List Char) := do
  let s ← Prog.get
  let buf := snprintf pathMax [.s s.tmpDir, .lit "/dirty".toList, .d s.mypid]
  let _ ← orErr (.openTemp buf)
  xmalloc
  return buf

/-- `shmat` and the store of `testid` with which a test starts. -/
def startTest : M Unit := do
  let _ ← orErr .shmat

def anonymous (msg : String) (mode : Rmode) (tc : TestCase) : M Unit := do
  startTest
  let page ← orErr .mmap
  testmem msg.toList page mode tc

/-- A jump out of an access that is not in `recover`: both frames have returned. -/
def outside (r : Except Jump (BitVec 8)) : M (BitVec 8) :=
  match r with
  | .ok b => return b
  | .error _ => Prog.throw .undefined

def doFileClean (name : List Char) : M Unit := do
  let s ← Prog.get
  let _ ← orErr (.openTemp (snprintf pathMax [.s s.tmpDir, .lit "/clean".toList, .d s.mypid]))
  let page ← orErr .mmap
  testmem name page .mreadOk .fileClean
  let b ← outside (← access)
  mylog [.lit "reading ".toList, .x b, .lit "\n".toList]
  testmem name page .mwriteOk .fileClean

def ndesc (name : List Char) (add : String) : List Char :=
  snprintf 100 [.s name, .lit " ".toList, .s add.toList]

def doFileDirty (name : List Char) : M Unit := do
  let _ ← playfile
  let page ← orErr .mmap
  testmem (ndesc name "initial") page .mread .fileDirty
  expecterr "msync expect error".toList (← fails)
  let _ ← orErr .reopen
  let page ← orErr .mmap
  recover (ndesc name "populated") page .mreadOk
  let _ ← orErr .reopen
  let page ← orErr .mmap
  recover (ndesc name "fault") page .mreadOk
  let _ ← syscall
  optionalerr "explicit read after poison".toList (← fails)
  optionalerr "explicit write after poison".toList (← fails)
  optionalerr "fsync expect error".toList (← fails)

/-- The first child at its turn injects, the others read. -/
def shmPage (done : Bool) (shmptr : BitVec 64) : M Unit :=
  if done then recover "shm dirty".toList shmptr .mread
  else testmem "shm dirty".toList shmptr .mwrite .sharedMem

def shmTest : M Unit := do
  startTest
  let _ ← syscall
  let ready ← flag
  Prog.when (ready = false) do
    let _ ← orErr .shmget
  let shmptr ← orErr .shmat
  let _ ← outside (← access)
  let _ ← syscall
  let _ ← syscall
  let _ ← syscall
  let done ← flag
  shmPage done shmptr
  let _ ← syscall

def TestFn.run : TestFn → M Unit
  | .shmTest => Logging.shmTest
  | .anonClean => anonymous "clean" .mwriteOk .anonClean
  | .dirtyAnonymous => anonymous "dirty" .mwrite .anonDirty
  | .dirtyAnonymousUnmap => anonymous "dirty" .mwrite .anonDirtyUnmap
  | .mlockedAnonymous => anonymous "mlocked" .mwrite .anonDirtyMlocked
  | .fileClean => do startTest; doFileClean "file clean".toList
  | .fileCleanMlocked => do startTest; doFileClean "file clean mlocked".toList
  | .fileDirty => do startTest; doFileDirty "file dirty".toList
  | .fileDirtyMlocked => do startTest; doFileDirty "file dirty mlocked".toList

def mkdirFailed (dir : List Char) : M Unit := do
  note (.mkdir dir)
  let s ← Prog.get
  Prog.when (s.errno ≠ eexist) (err ((Failure.mkdir dir).message (s.world.strerror s.errno)))

def makeTmpDir (dir : List Char) : M Unit := do
  match ← syscall with
  | some _ => return
  | none => mkdirFailed dir

def setupLog : M Unit := do
  let s ← Prog.get
  let _ ← orErr (.openLog s.logFile)
  Prog.modify fun s => { s with logFd := true }
  let _ ← orErr (.openResult s.resultFile)
  Prog.modify fun s => { s with resultFd := true }
  Prog.when (s.tmpDir ≠ []) (makeTmpDir s.tmpDir)

def setupTest : M Unit := Prog.modify fun s => { s with
  tShm := (cases.findIdx? fun t => t.1 = .shmTest)
  testTypes := cases.length }

/-- The number of children with the shared memory test; `test_types` is an `int`. -/
def shmChildNum (s : Proc) : BitVec 32 :=
  match s.tShm with
  | none => 0
  | some t =>
    let types := BitVec.ofNat 32 s.testTypes
    if (BitVec.ofNat 32 t).sle ((s.childNum - 1).srem types) then (s.childNum - 1).sdiv types + 1
    else (s.childNum - 1).sdiv types

def setupIpc : M Unit := do
  let _ ← orErr .shmget
  let _ ← orErr .shmat
  let _ ← syscall
  let _ ← syscall
  let s ← Prog.get
  Prog.when (shmChildNum s ≠ 0) <|
    mylog [.lit "there are ".toList, .d (shmChildNum s), .lit " shm_child\n".toList]

def child (j : Nat) : M Unit := do
  let pid ← getpid
  Prog.modify fun s => { s with mypid := pid, testid := j }
  match cases[j]? with
  | none => Prog.throw .undefined
  | some t =>
    t.1.run
    Prog.throw (.exit 0)

/-- The loop of `run_test` that forks, `n` turns before its end. -/
def spawn : Nat → Nat → M Unit
  | 0, _ => return
  | n + 1, i => do
    let pid := (← orErr (.fork (BitVec.ofNat 32 i))).setWidth 32
    let s ← Prog.get
    if pid = 0 then child (s.inst % s.testTypes)
    else
      Prog.modify fun s => { s with gPid := s.gPid ++ [pid], inst := s.inst + 1 }
      spawn n (i + 1)

/-- A turn of the loop that waits for the children. -/
def collect (i : Nat) : M Unit := do
  interrupt
  let t ← tick
  let s ← Prog.get
  let pid := s.gPid.getD i 0
  mylog [.lit "wait for Pid ".toList, .d pid, .lit "\n".toList]
  let _ ← syscall
  let name := (cases.get (s.world.testId t)).2
  if ← flag then
    result [.lit "Ins ".toList, .d (BitVec.ofNat 32 i), .lit ": Pid ".toList, .d pid,
      .lit ": pass - ".toList, .s name, .lit "\n".toList]
  else
    fail [.lit "Ins ".toList, .d (BitVec.ofNat 32 i), .lit ": Pid ".toList, .d pid,
      .lit ": failed - ".toList, .s name, .lit "\n".toList]

def collectAll : List Nat → M Unit
  | [] => return
  | i :: is => do
    collect i
    collectAll is

def runTest (children : BitVec 32) : M Nat := do
  spawn children.toInt.toNat 0
  let s ← Prog.get
  mylog [.lit "have spawned ".toList, .d (BitVec.ofNat 32 s.inst), .lit " processes\n".toList]
  Prog.when (s.inst ≠ 0) do
    let _ ← orErr .shmat
    collectAll (List.range s.inst)
  let s ← Prog.get
  if s.failed = 0 then
    result [.lit "\t!!! Page Poisoning Test got PASS. !!!\n\n".toList]
    return 0
  else
    result [.lit "\t!!! Page Poisoning Test is FAILED (".toList, .d s.failed,
      .lit " failures found). !!!\n\n".toList]
    return 1

inductive Opt
  | clean | help
  | inst (arg : List Char)
  | log (arg : List Char)
  | result (arg : List Char)
  | shmsize (arg : List Char)
  | tmpdir (arg : List Char)

/-- An option of the command line; the text of `help` ends the run. -/
def applyOpt : Opt → M Unit
  | .clean => Prog.modify fun s => { s with cleanEnv := true }
  | .help => Prog.throw (.exit 0)
  | .inst arg =>
    let n := BitVec.ofInt 32 (Numeral.strtoll arg)
    Prog.modify fun s => { s with childNum := if (10000 : BitVec 32).slt n then 10000 else n }
  | .log arg => Prog.modify fun s => { s with logFile := snprintf pathMax [.s arg] }
  | .result arg => Prog.modify fun s => { s with resultFile := snprintf pathMax [.s arg] }
  | .shmsize arg =>
    let n := BitVec.ofInt 32 (Numeral.strtoll arg)
    Prog.modify fun s => { s with shmSize := if n.slt 1 then 1 else n }
  | .tmpdir arg => Prog.modify fun s => { s with tmpDir := snprintf pathMax [.s arg] }

def applyOpts : List Opt → M Unit
  | [] => return
  | o :: argv => do
    applyOpt o
    applyOpts argv

def main (argv : List Opt) : M Nat := do
  applyOpts argv
  let pid ← getpid
  Prog.modify fun s => { s with mypid := pid }
  setupLog
  setupTest
  let s ← Prog.get
  if s.childNum = 0 then
    mylog [.lit "end without test executed since child_num = 0\n".toList]
    return 0
  else
    mylog [.lit "start page-poisoning test\n".toList]
    setupIpc
    Prog.modify fun s => { s with handlers := true }
    let rc ← runTest s.childNum
    interrupt
    freeIpc syscall
    mylog [.lit "page-poisoning test done!\n".toList]
    return rc

end MceTest.PagePoisoning.Logging

import MceTest.Library.Transition
import MceTest.Library.Shell
import Mathlib.Logic.Function.Basic

/-! The processes of `tinjpage.c`: the main program with its three phases, the children of
the suicide phase and the ones `do_shared` forks, with what the kernel does to them.
System calls other than the injection succeed unless their failure ends the process. -/

namespace MceTest.Tinjpage

open MceTest.Library.Shell

inductive Rmode
  | mread | mwrite | mreadOk | mwriteOk | mnothing
  deriving DecidableEq

/-- The modes that expect the poisoned page to be noticed, and those that expect it not to be. -/
def Rmode.poisoned : Rmode → Bool
  | .mread | .mwrite => true
  | .mreadOk | .mwriteOk | .mnothing => false

def Rmode.survives : Rmode → Bool
  | .mreadOk | .mwriteOk => true
  | .mread | .mwrite | .mnothing => false

inductive SharedMode
  | mmapShared | ipvShared
  deriving DecidableEq

/-- How a failed call ends the process: `err`, or `xmalloc` with `ENOMEM`. -/
inductive Fatal
  | err | nomem
  deriving DecidableEq

def Fatal.status : Fatal → Nat
  | .err => 1
  | .nomem => 12

/-- What a test function does, step by step.  `access` is one outside `recover`. -/
inductive Op
  | call (fatal : Fatal)
  | access
  | poison (mode : Rmode)
  | recover (mode : Rmode)
  | expecterr
  | doShared (mode : SharedMode)
  deriving DecidableEq

def testmem (mode : Rmode) : List Op := [.poison mode, .recover mode]

def checkedMmap : List Op := [.call .err]
def munmapReserve : List Op := [.call .err, .call .err]
def openTemp : List Op := [.call .err]
def playfile : List Op := [.call .err, .call .nomem]

def dirtyAnonymous : List Op := checkedMmap ++ testmem .mwrite
def dirtyAnonymousUnmap : List Op := checkedMmap ++ testmem .mwrite ++ munmapReserve
def mlockedAnonymous : List Op := checkedMmap ++ testmem .mwrite

def doFileClean : List Op :=
  openTemp ++ checkedMmap ++ testmem .mreadOk ++ [.access] ++ testmem .mwriteOk

def doFileDirty : List Op :=
  playfile ++ checkedMmap ++ testmem .mread ++ [.expecterr] ++ munmapReserve ++
    openTemp ++ checkedMmap ++ [.recover .mreadOk] ++ munmapReserve ++
    openTemp ++ checkedMmap ++ [.recover .mreadOk] ++ munmapReserve

def fileHole : List Op := openTemp ++ checkedMmap ++ [.access] ++ testmem .mread

def nonlinear : List Op :=
  openTemp ++ [.call .nomem] ++ checkedMmap ++ [.access] ++ testmem .mread ++ [.expecterr]

/-- The cleanup at the end of `do_shared` is left to its callers here. -/
def mmapShared : List Op := checkedMmap ++ [.doShared .mmapShared] ++ munmapReserve
def ipvShared : List Op := [.call .err, .doShared .ipvShared, .call .err]

/-- The three tests of huge pages, which return at once when there are none. -/
def hugepage (hps : Bool) : List Op := if hps then .access :: testmem .mwrite else []

structure Testcase where
  f : List Op
  name : Word
  survivable : Bool := false

def cases (hps : Bool) : List Testcase :=
  [{ f := dirtyAnonymous, name := "dirty anonymous".toList },
    { f := dirtyAnonymousUnmap, name := "dirty anonymous unmap".toList },
    { f := mlockedAnonymous, name := "mlocked anonymous".toList },
    { f := doFileClean, name := "file clean".toList, survivable := true },
    { f := doFileDirty, name := "file dirty".toList },
    { f := fileHole, name := "file hole".toList },
    { f := doFileClean, name := "file clean mlocked".toList, survivable := true },
    { f := doFileDirty, name := "file dirty mlocked".toList },
    { f := nonlinear, name := "nonlinear".toList },
    { f := mmapShared, name := "mmap shared".toList },
    { f := ipvShared, name := "ipv shared".toList },
    { f := hugepage hps, name := "anonymous hugepage".toList },
    { f := hugepage hps, name := "file backed hugepage".toList },
    { f := hugepage hps, name := "shared memory hugepage".toList }]

def sigbus : Nat := 7
def sigkill : Nat := 9

def cldExited : Nat := 1
def cldKilled : Nat := 2
def cldDumped : Nat := 3
def cldKilldump : Nat := cldKilled ||| cldDumped

inductive Role
  | main
  | suicide (survivable : Bool)
  | shared
  deriving DecidableEq

/-- Where a process is, with the rest of its test function.  `injecting` and `accessing`
are behind the `sigsetjmp` of `poison` and `recover`, `touching` before the `memset` of
`do_shared`, `sleeping` behind its `sigsetjmp`. -/
inductive Ctl
  | ops (rest : List Op)
  | injecting (mode : Rmode) (rest : List Op)
  | accessing (mode : Rmode) (rest : List Op)
  | touching (child : Nat) (rest : List Op)
  | sleeping (child : Nat) (rest : List Op)
  | waiting (child : Nat) (rest : List Op)
  | childTouching
  | getSemaphore
  | starting (rest : List Op)
  | waitSuicide (child : Nat) (survivable : Bool)
  | returned (rc : Nat)
  | exited (status : Nat)
  | killed (signo : Nat) (dumped : Bool)
  | undefined
  deriving DecidableEq

/-- `si_code` and `si_status` as `waitid` gives them. -/
def Ctl.siginfo : Ctl → Option (Nat × Nat)
  | .exited status => some (cldExited, status)
  | .killed signo dumped => some (if dumped then cldDumped else cldKilled, signo)
  | _ => none

def Ctl.over : Ctl → Bool
  | .returned _ | .exited _ | .killed _ _ | .undefined => true
  | _ => false

/-- A process with its variables; `handler` is false where `SIGBUS` has its default, and
`failed` says whether the process itself has executed `failure++`. -/
structure Proc where
  role : Role
  failure : Nat := 0
  failed : Bool := false
  earlyKill : Bool := false
  handler : Bool := true
  recovercount : Int := 0
  ctl : Ctl
  deriving DecidableEq

def Proc.goto (pr : Proc) (ctl : Ctl) : Proc := { pr with ctl }

def Proc.bump (pr : Proc) (n : Nat) : Proc :=
  { pr with failure := pr.failure + n, failed := pr.failed || 0 < n }

/-- What a call does that a step of a process makes; `einval` is an injection that the
kernel does not support. -/
inductive Kernel
  | ok | fails | einval
  deriving DecidableEq

structure Siginfo where
  code : Nat
  /-- The address is the expected one. -/
  addr : Bool
  deriving DecidableEq

/-- How often a step of its own code makes a process execute `failure++`. -/
def Proc.bumps (pr : Proc) (k : Kernel) : Nat :=
  match pr.ctl, k with
  | .ops (.expecterr :: _), .ok => 1
  | .injecting mode _, .ok => if pr.earlyKill ∧ mode.poisoned then 1 else 0
  | .injecting mode _, .fails => 1 + if pr.earlyKill ∧ mode.poisoned then 1 else 0
  | .accessing mode _, .ok => if mode.poisoned then 1 else 0
  | .sleeping _ _, .ok => 1
  | _, _ => 0

/-- The steps of a process that need nothing of the others. -/
def Proc.localStep (pr : Proc) (k : Kernel) : Option Proc :=
  match pr.ctl, k with
  | .ops (.call _ :: rest), .ok => some (pr.goto (.ops rest))
  | .ops (.call fatal :: _), .fails => some (pr.goto (.exited fatal.status))
  | .ops (.access :: rest), .ok => some (pr.goto (.ops rest))
  | .ops (.poison mode :: rest), .ok =>
    some { pr with recovercount := 5, ctl := .injecting mode rest }
  | .ops (.recover mode :: rest), .ok =>
    some { pr with recovercount := 5, ctl := .accessing mode rest }
  | .ops (.expecterr :: rest), .ok => some (pr.goto (.ops rest))
  | .ops (.expecterr :: rest), .fails => some (pr.goto (.ops rest))
  | .injecting _ rest, .ok => some (pr.goto (.ops rest))
  | .injecting _ rest, .fails => some (pr.goto (.ops rest))
  | .injecting _ _, .einval => some (pr.goto (.exited 0))
  | .accessing _ rest, .ok => some (pr.goto (.ops rest))
  | .sleeping _ rest, .ok => some (pr.goto (.ops rest))
  | .childTouching, .ok =>
    some { pr with
      failure := 0
      handler := pr.handler || pr.earlyKill
      ctl := if pr.earlyKill then .getSemaphore else .ops (testmem .mwrite) }
  | .starting rest, .ok => some { pr with handler := false, ctl := .ops rest }
  | _, _ => none

/-- Where `siglongjmp` takes a process: `recover_ctx` for the code 4, `early_recover_ctx`
for the others, with the `failure++` behind it.  There is none when the function that
filled the context has returned. -/
def Proc.jump (pr : Proc) (code : Nat) : Option (Nat × Ctl) :=
  if code = 4 then
    match pr.ctl with
    | .accessing mode rest => some (if mode.survives then 1 else 0, .ops rest)
    | _ => none
  else
    match pr.ctl with
    | .injecting mode rest => some (if pr.earlyKill ∧ mode.survives then 1 else 0, .ops rest)
    | .sleeping child rest => some (0, .waiting child rest)
    | .waiting child rest => if pr.earlyKill then some (0, .waiting child rest) else none
    | _ => none

def Proc.sighandler (pr : Proc) (si : Siginfo) : Proc :=
  let pr := { pr.bump (if si.addr then 0 else 1) with recovercount := pr.recovercount - 1 }
  if pr.recovercount = 0 then pr.goto (.exited 1)
  else
    match pr.jump si.code with
    | some (n, ctl) => (pr.bump n).goto ctl
    | none => pr.goto .undefined

inductive Phase
  | late | suicide | early
  deriving DecidableEq

/-- The processes by their number, 0 being the main program, the semaphore of each child
of `do_shared`, and the cases of the phase still to be tested. -/
structure State where
  proc : Nat → Proc
  count : Nat := 1
  sem : Nat → Bool := fun _ => false
  phase : Phase := .late
  todo : List Testcase

def init (cases : List Testcase) : State where
  proc := fun p => if p = 0 then { role := .main, ctl := .ops [] } else
    { role := .shared, ctl := .exited 0 }
  todo := cases

def State.put (s : State) (p : Nat) (pr : Proc) : State :=
  { s with proc := Function.update s.proc p pr }

/-- `fork`: the child has the variables of its parent. -/
def State.fork (s : State) (p : Nat) (ctl : Ctl) (role : Role) (childCtl : Ctl) : State :=
  let pr := s.proc p
  let child := { pr with role, failed := false, ctl := childCtl }
  { (s.put p (pr.goto ctl)).put s.count child with
    count := s.count + 1
    sem := Function.update s.sem s.count false }

/-- The loops of `main` over the cases. -/
def mainStep (cases : List Testcase) (s : State) (p : Nat) : State :=
  let pr := s.proc p
  match s.phase, s.todo with
  | .late, c :: todo => { s.put p (pr.goto (.ops c.f)) with todo }
  | .late, [] => { s with phase := .suicide, todo := cases }
  | .suicide, c :: todo =>
    { s.fork p (.waitSuicide s.count c.survivable) (.suicide c.survivable) (.starting c.f) with
      todo }
  | .suicide, [] =>
    { s.put p { pr with earlyKill := true, handler := true } with
      phase := .early
      todo := cases }
  | .early, c :: todo => { s.put p (pr.goto (.ops c.f)) with todo }
  | .early, [] => s.put p (pr.goto (.returned (if pr.failure > 0 then 1 else 0)))

/-- The checks of `do_shared` after `waitid`. -/
def childError (pr : Proc) (code : Nat) : Bool :=
  if ¬ pr.earlyKill then
    if ¬ pr.handler then code &&& cldKilldump = 0 else code ≠ cldExited
  else code ≠ cldExited

/-- The checks of the suicide phase after `waitid`. -/
def notAsExpected (survivable : Bool) (code status : Nat) : Bool :=
  if survivable then code ≠ cldExited else code &&& cldKilldump = 0 ∨ status ≠ sigbus

/-- A step of a process in its own code. -/
def ownStep (cases : List Testcase) (s : State) (p : Nat) (k : Kernel) : Option State :=
  let pr := s.proc p
  match pr.ctl, k with
  | .ops [], .ok =>
    match pr.role with
    | .main => some (mainStep cases s p)
    | .suicide survivable => some (s.put p (pr.goto (.exited (if survivable then 2 else 1))))
    | .shared => some (s.put p (pr.goto (.exited (pr.failure % 256))))
  | .ops (.doShared _ :: rest), .ok =>
    some (s.fork p (.touching s.count rest) .shared .childTouching)
  | .touching child rest, .ok =>
    if pr.earlyKill then
      some { s.put p { pr with handler := true, ctl := .sleeping child rest } with
        sem := Function.update s.sem child true }
    else some (s.put p (pr.goto (.waiting child rest)))
  | .waiting child rest, .ok =>
    match (s.proc child).ctl.siginfo with
    | none => none
    | some (code, _) =>
      if childError pr code then some (s.put p ((pr.bump 1).goto (.ops rest)))
      else
        let rest := if pr.earlyKill then rest else .recover .mwrite :: rest
        some (s.put p (pr.goto (.ops rest)))
  | .getSemaphore, .ok =>
    if s.sem p then
      some { s.put p (pr.goto (.ops (testmem .mwrite))) with
        sem := Function.update s.sem p false }
    else none
  | .waitSuicide child survivable, .ok =>
    match (s.proc child).ctl.siginfo with
    | none => none
    | some (code, status) =>
      let n := if notAsExpected survivable code status then 1 else 0
      some (s.put p ((pr.bump n).goto (.ops [])))
  | _, k => (pr.localStep k).map fun pr' => s.put p (pr'.bump (pr.bumps k))

/-- A process goes on, gets a `SIGBUS`, or is killed by the kernel. -/
inductive Action
  | own (p : Nat) (k : Kernel)
  | signal (p : Nat) (si : Siginfo) (dumped : Bool)
  | kill (p : Nat) (dumped : Bool)
  deriving DecidableEq

def signalStep (s : State) (p : Nat) (si : Siginfo) (dumped : Bool) : Option State :=
  let pr := s.proc p
  if pr.ctl.over then none
  else if pr.handler then some (s.put p (pr.sighandler si))
  else some (s.put p (pr.goto (.killed sigbus dumped)))

def killStep (s : State) (p : Nat) (dumped : Bool) : Option State :=
  let pr := s.proc p
  if pr.ctl.over then none else some (s.put p (pr.goto (.killed sigkill dumped)))

theorem signalStep_cases {s s' : State} {p : Nat} {si : Siginfo} {dumped : Bool}
    (h : signalStep s p si dumped = some s') :
    (s.proc p).ctl.over = false ∧
      ((s.proc p).handler = true ∧ s' = s.put p ((s.proc p).sighandler si) ∨
        (s.proc p).handler = false ∧ s' = s.put p ((s.proc p).goto (.killed sigbus dumped))) := by
  unfold signalStep at h
  dsimp only at h
  split at h
  · cases h
  · rename_i halive
    refine ⟨Bool.eq_false_iff.mpr halive, ?_⟩
    split at h
    · rename_i hhandler
      cases h
      exact .inl ⟨hhandler, rfl⟩
    · rename_i hdefault
      cases h
      exact .inr ⟨Bool.eq_false_iff.mpr hdefault, rfl⟩

theorem killStep_cases {s s' : State} {p : Nat} {dumped : Bool}
    (h : killStep s p dumped = some s') :
    (s.proc p).ctl.over = false ∧ s' = s.put p ((s.proc p).goto (.killed sigkill dumped)) := by
  unfold killStep at h
  dsimp only at h
  split at h
  · cases h
  · rename_i halive
    cases h
    exact ⟨Bool.eq_false_iff.mpr halive, rfl⟩

def step (cases : List Testcase) (s : State) : Action → Option State
  | .own p k => ownStep cases s p k
  | .signal p si dumped => signalStep s p si dumped
  | .kill p dumped => killStep s p dumped

end MceTest.Tinjpage

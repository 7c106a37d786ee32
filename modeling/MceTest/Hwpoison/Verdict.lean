import MceTest.Library.Shell
import MceTest.PageTypes.Show

/-! The verdict of `hwpoison.sh`: what runs after the `EXIT` trap is set, the checker,
the result checks and the exit status. -/

namespace MceTest.Hwpoison

open MceTest.Library MceTest.Library.Shell MceTest.PageTypes

structure Config where
  gFstype : Word
  gDev : Word
  gTestdir : Word
  gLogdir : Word
  gPagetool : Word := "page-types".toList
  gMadvise : Bool := false
  gRunltp : Bool := false
  gNetfs : Bool := false
  gTest : Bool := false

/-- The calls of `err` after the trap is set; `invalid` is only called before. -/
inductive Abort
  | mkdirTestdir | noMkfs | mkfsCancelled | mkfs | mount
  | fsMetadataDir | fsMetadataLaunch | pagePoisoningDir | pagetype
  deriving DecidableEq

def mkfsName (fstype : Word) : Word :=
  if fstype = "reiserfs".toList then "mkreiserfs".toList else "mkfs.".toList ++ fstype

def mkfsOpts (fstype : Word) : Word :=
  let opts := if fstype = "ocfs2".toList then "-q -M local".toList else "-q".toList
  if fstype = "vfat".toList ∨ fstype = "msdos".toList ∨ fstype = "btrfs".toList then []
  else if fstype = "xfs".toList then "-f".toList else opts

def Abort.message (cfg : Config) : Abort → Word
  | .mkdirTestdir => "cannot mkdir ".toList ++ cfg.gTestdir
  | .noMkfs => "mkfs: unsupported fstype: ".toList ++ cfg.gFstype
  | .mkfsCancelled => mkfsName cfg.gFstype ++ " on ".toList ++ cfg.gDev ++ " is cancelled".toList
  | .mkfs =>
    "cannot ".toList ++ mkfsName cfg.gFstype ++ " ".toList ++ mkfsOpts cfg.gFstype ++
      " on ".toList ++ cfg.gDev
  | .mount =>
    "cannot mount ".toList ++ cfg.gFstype ++ " fs: ".toList ++ cfg.gDev ++ " to ".toList ++
      cfg.gTestdir
  | .fsMetadataDir => "cannot create dir: ".toList ++ cfg.gTestdir ++ "/fs_metadata".toList
  | .fsMetadataLaunch =>
    "failed to launch fs_metadata workload, it might be due to insufficient disk space, ".toList ++
      "pls read ".toList ++ cfg.gLogdir ++ "/fs_metadata/fs_metadata.log for details!".toList
  | .pagePoisoningDir => "cannot create dir: ".toList ++ cfg.gTestdir ++ "/page_poisoning".toList
  | .pagetype =>
    "unsupported pagetype, pls. refer to command: ".toList ++ cfg.gPagetool ++ " -h".toList

/-- The outcomes of the commands, and the result files when they are looked at. -/
structure Env where
  abort : Option Abort := none
  which : Nat := 0
  /-- The status of `df | grep` after `umount -f`, and of the `umount` that follows. -/
  df : Nat := 1
  umount : Nat := 0
  fsck : Nat := 0
  mount : Nat := 0
  fsMetadata : Option TextFile := none
  pagePoisoning : Option TextFile := none
  ltpFailed : Option TextFile := none
  ltpLog : Option TextFile := none

def fsckName (fstype : Word) : Word :=
  let fsck := "fsck.".toList ++ fstype
  let fsck := if fstype = "btrfs".toList then "btrfsck".toList else fsck
  let fsck := if fstype = "xfs".toList then "xfs_repair".toList else fsck
  if fstype = "reiserfs".toList then "reiserfsck".toList else fsck

def fsckErr (msg : Word) : TextFile := { lines := ["FAILED: ".toList ++ msg] }
def fsckPass (msg : Word) : TextFile := { lines := ["PASS: ".toList ++ msg] }

def checkError (cfg : Config) (env : Env) : TextFile :=
  fsckErr ("err #".toList ++ decText env.fsck ++ " while ".toList ++ fsckName cfg.gFstype ++
    " on ".toList ++ cfg.gDev)

def passMessage (cfg : Config) : Word := fsckName cfg.gFstype ++ " got pass on ".toList ++ cfg.gDev

/-- What `run_fsck` leaves in `fsck.result`; each write replaces the file. -/
def runFsck (cfg : Config) (env : Env) : TextFile :=
  let result : TextFile := { lines := [] }
  if env.which ≠ 0 then fsckErr ("fsck: unsupported fstype: ".toList ++ cfg.gFstype)
  else if env.df = 0 ∧ env.umount ≠ 0 then
    fsckErr ("cannot umount ".toList ++ cfg.gDev ++ " to do ".toList ++ fsckName cfg.gFstype)
  else
    -- a failed check is recorded, but the function goes on
    let _result := if env.fsck ≠ 0 then checkError cfg env else result
    if env.mount ≠ 0 then
      fsckErr ("cannot mount ".toList ++ cfg.gTestdir ++ " back after fsck_check".toList)
    else fsckPass (passMessage cfg)

/-- `g_failed` and the lines of the result file. -/
structure Report where
  gFailed : Nat := 0
  lines : List Word := []

def Report.failure (r : Report) (line detail : Word) : Report where
  gFailed := r.gFailed + 1
  lines := r.lines ++ [line, "\t    ".toList ++ detail]

def Report.result (r : Report) (line : Word) : Report := { r with lines := r.lines ++ [line] }

def countsText (failNum passNum : Word) : Word :=
  failNum ++ " tests failed, ".toList ++ passNum ++ " tests pass.".toList

def pagePoisoningResult (cfg : Config) (env : Env) (r : Report) : Report :=
  let dir := cfg.gLogdir ++ "/page_poisoning".toList
  let log := "details: ".toList ++ dir ++ "/page_poisoning.log".toList
  match env.pagePoisoning with
  | none => r.failure "\tpage_poisoning -- error: no result file there".toList log
  | some result =>
    let failNum := (grep "FAILED" result).length
    let passNum := (grep "PASS" result).length
    if failNum ≠ 0 then
      r.failure ("\tpage_poisoning -- ".toList ++ countsText (decText failNum) (decText passNum))
        ("details: ".toList ++ dir ++ "/page_poisoning.result".toList)
    else if passNum = 0 then r.failure "\tpage_poisoning -- no case finished".toList log
    else r.result ("\tpage_poisoning -- all ".toList ++ decText passNum ++ " tests got pass".toList)

/-- The variables `fail_num` and `pass_num` of `fs_metadata_result`. -/
def metadataNums (result : TextFile) : List Char × List Char :=
  let failNum := substitution ((grep "FAIL" result).map lastField)
  let passNum := substitution ((grep "PASS" result).map lastField)
  if failNum = [] then (['0'], ['0']) else (failNum, passNum)

def fsMetadataResult (sh : Behaviour) (cfg : Config) (env : Env) (r : Report) : Report :=
  let dir := cfg.gLogdir ++ "/fs_metadata".toList
  let log := "details: ".toList ++ dir ++ "/fs_metadata.log".toList
  match env.fsMetadata with
  | none => r.failure "\tfs_metadata -- error: no result there".toList log
  | some result =>
    let (failNum, passNum) := metadataNums result
    if testZero sh .ne failNum then
      r.failure ("\tfs_metadata -- ".toList ++
          countsText (failNum) (passNum))
        ("details: ".toList ++ dir ++ "/fs_metadata.result".toList)
    else if testZero sh .eq passNum then r.failure "\tfs_metadata -- no test finished".toList log
    else r.result ("\tfs_metadata -- all ".toList ++ passNum ++ " tests got pass".toList)

def ltpResult (cfg : Config) (env : Env) (r : Report) : Report :=
  let log := "log: ".toList ++ cfg.gLogdir ++ "/ltp/ltp_output".toList
  match env.ltpFailed with
  | none => r.failure "\tltp -- error: no ltp result there".toList log
  | some ltpFailed =>
    if ltpFailed.wc ≠ 0 then
      r.failure ("\tltp -- ".toList ++ decText ltpFailed.wc ++ " case(s) failed".toList) log
    else r.result "\tltp -- all tests pass".toList

def fsckResult (cfg : Config) (fsck : Option TextFile) (r : Report) : Report :=
  let log := cfg.gLogdir ++ "/fsck/fsck.log".toList
  let name := "\tfsck.".toList ++ cfg.gFstype
  match fsck with
  | none => r.failure (name ++ " -- no result found".toList) ("details: ".toList ++ log)
  | some result =>
    if (grep "FAILED" result).length ≠ 0 then
      r.failure (name ++ " -- failed".toList) ("log: ".toList ++ log)
    else if (grep "PASS" result).length = 0 then
      r.failure (name ++ " -- not executed".toList) ("log: ".toList ++ log)
    else r.result (name ++ " -- fsck on ".toList ++ cfg.gDev ++ " got pass".toList)

def rule : Word := "#############################################".toList

def resultCheck (sh : Behaviour) (cfg : Config) (env : Env) (fsck : Option TextFile)
    (r : Report) : Report :=
  let r := (r.result rule).result "result summary:".toList
  let r :=
    if cfg.gMadvise then pagePoisoningResult cfg env r
    else
      let r := fsMetadataResult sh cfg env r
      if cfg.gRunltp then ltpResult cfg env r else r
  let r := if ¬ cfg.gNetfs ∧ ¬ cfg.gTest then fsckResult cfg fsck r else r
  let r := r.result []
  (r.result ("totally ".toList ++ decText r.gFailed ++
    " task-groups report failures".toList)).result rule

/-- The handler of the `EXIT` trap, which ends the script. -/
def cleanup (sh : Behaviour) (cfg : Config) (env : Env) (fsck : Option TextFile)
    (r : Report) : Nat × Report :=
  let r := resultCheck sh cfg env fsck r
  if r.gFailed ≠ 0 then (1, r) else (0, r)

/-- The lines `err` adds to the result file. -/
def errReport (msg : Word) : Report :=
  { lines := [[], "Test aborted by unexpected error!".toList,
      "[error] !!! ".toList ++ msg ++ " !!!".toList] }

/-- The script from the trap on.  `err` ends it before `run_fsck`, and the trap takes
over the status. -/
def run (sh : Behaviour) (cfg : Config) (env : Env) : Nat × Report :=
  match env.abort with
  | some abort => cleanup sh cfg env none (errReport (abort.message cfg))
  | none =>
    if ¬ cfg.gNetfs ∧ ¬ cfg.gTest then cleanup sh cfg env (some (runFsck cfg env)) {}
    else cleanup sh cfg env none {}

def zeroField (field : Word) : Bool :=
  match splitWords field with
  | [w] => intWord? w = some 0
  | _ => false

/-- A `PASS` line counts unless its number is zero, and so does a `FAIL` line. -/
def MetadataPassed (f : TextFile) : Prop :=
  (∃ line ∈ grep "PASS" f, zeroField (lastField line) = false) ∧
    ∀ line ∈ grep "FAIL" f, zeroField (lastField line) = true

def PoisoningPassed (f : TextFile) : Prop := grep "PASS" f ≠ [] ∧ grep "FAILED" f = []

/-- No failed case is listed, and the log shows a passed one. -/
def LtpPassed (env : Env) : Prop :=
  (∃ f, env.ltpFailed = some f ∧ f.all = []) ∧ ∃ f, env.ltpLog = some f ∧ grep "PASS" f ≠ []

/-- Every enabled workload reports a pass and no failure. -/
def WorkloadsPassed (cfg : Config) (env : Env) : Prop :=
  if cfg.gMadvise then ∃ f, env.pagePoisoning = some f ∧ PoisoningPassed f
  else (∃ f, env.fsMetadata = some f ∧ MetadataPassed f) ∧ (cfg.gRunltp = true → LtpPassed env)

def CheckerRan (env : Env) : Prop := env.which = 0 ∧ ¬ (env.df = 0 ∧ env.umount ≠ 0)

/-- What the exit status 0 is to promise. -/
def Sound (cfg : Config) (env : Env) : Prop :=
  env.abort = none ∧ CheckerRan env ∧ env.fsck = 0 ∧ WorkloadsPassed cfg env

/-- The files that the tests of the driver let pass. -/
def MetadataAccepted (sh : Behaviour) (f : TextFile) : Prop :=
  testZero sh .ne (metadataNums f).1 = false ∧ testZero sh .eq (metadataNums f).2 = false

def WorkloadsAccepted (sh : Behaviour) (cfg : Config) (env : Env) : Prop :=
  if cfg.gMadvise then ∃ f, env.pagePoisoning = some f ∧ PoisoningPassed f
  else (∃ f, env.fsMetadata = some f ∧ MetadataAccepted sh f) ∧
    (cfg.gRunltp = true → ∃ f, env.ltpFailed = some f ∧ f.wc = 0)

theorem pagePoisoningResult_iff (cfg : Config) (env : Env) (r : Report) :
    (pagePoisoningResult cfg env r).gFailed = 0 ↔
      r.gFailed = 0 ∧ ∃ f, env.pagePoisoning = some f ∧ PoisoningPassed f := by
  unfold pagePoisoningResult
  cases env.pagePoisoning with
  | none => simp [Report.failure]
  | some f =>
    dsimp only
    split
    · rename_i hfail
      have hno : grep "FAILED" f ≠ [] := fun h => hfail (by simp [h])
      simp [Report.failure, PoisoningPassed, hno]
    · rename_i hfail
      have hnone : grep "FAILED" f = [] := by simpa using hfail
      split
      · rename_i hpass
        have hempty : grep "PASS" f = [] := by simpa using hpass
        simp [Report.failure, PoisoningPassed, hempty]
      · rename_i hpass
        have hsome : grep "PASS" f ≠ [] := by simpa using hpass
        simp [Report.result, PoisoningPassed, hnone, hsome]

theorem fsMetadataResult_iff (sh : Behaviour) (cfg : Config) (env : Env) (r : Report) :
    (fsMetadataResult sh cfg env r).gFailed = 0 ↔
      r.gFailed = 0 ∧ ∃ f, env.fsMetadata = some f ∧ MetadataAccepted sh f := by
  unfold fsMetadataResult
  cases env.fsMetadata with
  | none => simp [Report.failure]
  | some f =>
    dsimp only
    split
    · rename_i hne
      simp [Report.failure, MetadataAccepted, hne]
    · rename_i hne
      split
      · rename_i heq
        simp [Report.failure, MetadataAccepted, heq]
      · rename_i heq
        simp [Report.result, MetadataAccepted, hne, heq]

theorem ltpResult_iff (cfg : Config) (env : Env) (r : Report) :
    (ltpResult cfg env r).gFailed = 0 ↔
      r.gFailed = 0 ∧ ∃ f, env.ltpFailed = some f ∧ f.wc = 0 := by
  unfold ltpResult
  cases env.ltpFailed with
  | none => simp [Report.failure]
  | some f =>
    dsimp only
    split
    · rename_i hne
      simp [Report.failure, hne]
    · rename_i hne
      simp [Report.result, not_not.mp hne]

theorem fsckResult_iff (cfg : Config) (fsck : Option TextFile) (r : Report) :
    (fsckResult cfg fsck r).gFailed = 0 ↔
      r.gFailed = 0 ∧ ∃ f, fsck = some f ∧ grep "FAILED" f = [] ∧ grep "PASS" f ≠ [] := by
  unfold fsckResult
  cases fsck with
  | none => simp [Report.failure]
  | some f =>
    dsimp only
    split
    · rename_i hfail
      have hno : grep "FAILED" f ≠ [] := fun h => hfail (by simp [h])
      simp [Report.failure, hno]
    · rename_i hfail
      have hnone : grep "FAILED" f = [] := by simpa using hfail
      split
      · rename_i hpass
        have hempty : grep "PASS" f = [] := by simpa using hpass
        simp [Report.failure, hempty]
      · rename_i hpass
        have hsome : grep "PASS" f ≠ [] := by simpa using hpass
        simp [Report.result, hnone, hsome]

theorem cleanup_iff (sh : Behaviour) {cfg : Config} (env : Env) (fsck : Option TextFile)
    (r : Report) (hlocal : cfg.gNetfs = false ∧ cfg.gTest = false) :
    (cleanup sh cfg env fsck r).1 = 0 ↔ r.gFailed = 0 ∧ WorkloadsAccepted sh cfg env ∧
      ∃ f, fsck = some f ∧ grep "FAILED" f = [] ∧ grep "PASS" f ≠ [] := by
  have hstatus : (cleanup sh cfg env fsck r).1 = 0 ↔
      (resultCheck sh cfg env fsck r).gFailed = 0 := by
    unfold cleanup
    dsimp only
    split
    · rename_i h
      exact iff_of_false (by simp) h
    · rename_i h
      exact iff_of_true rfl (not_not.mp h)
  rw [hstatus, WorkloadsAccepted]
  simp only [resultCheck, hlocal, Bool.false_eq_true, not_false_eq_true, and_self, ↓reduceIte]
  change (fsckResult cfg fsck _).gFailed = 0 ↔ _
  rw [fsckResult_iff]
  split
  · rw [pagePoisoningResult_iff]
    exact and_assoc
  · split
    · rename_i hltp
      rw [ltpResult_iff, fsMetadataResult_iff]
      simp only [hltp, forall_const]
      exact ⟨fun h => ⟨h.1.1.1, ⟨h.1.1.2, h.1.2⟩, h.2⟩, fun h => ⟨⟨⟨h.1, h.2.1.1⟩, h.2.1.2⟩, h.2.2⟩⟩
    · rename_i hltp
      rw [fsMetadataResult_iff]
      simp only [hltp, Bool.false_eq_true, false_implies, and_true]
      exact and_assoc

theorem grep_fsckErr (msg : Word) : grep "FAILED" (fsckErr msg) ≠ [] := by
  have hin : "FAILED".toList <:+: ("FAILED: ".toList ++ msg) :=
    ⟨[], ": ".toList ++ msg, rfl⟩
  intro hnone
  exact grep_eq_nil_iff.mp hnone _ (List.mem_append_left _ (List.mem_singleton_self _)) hin

theorem grep_fsckPass (msg : Word) : grep "PASS" (fsckPass msg) ≠ [] := by
  have hin : "PASS".toList <:+: ("PASS: ".toList ++ msg) :=
    ⟨[], ": ".toList ++ msg, rfl⟩
  intro hnone
  exact grep_eq_nil_iff.mp hnone _ (List.mem_append_left _ (List.mem_singleton_self _)) hin

/-- The names in the line of a passed check do not make it look like a failed one. -/
def NamesHarmless (cfg : Config) : Prop :=
  ¬ "FAILED".toList <:+: "PASS: ".toList ++ passMessage cfg

theorem grep_passMessage (cfg : Config) :
    grep "FAILED" (fsckPass (passMessage cfg)) = [] ↔ NamesHarmless cfg := by
  have hall : (fsckPass (passMessage cfg)).all = ["PASS: ".toList ++ passMessage cfg] := rfl
  rw [grep_eq_nil_iff, hall, List.forall_mem_singleton]
  rfl

theorem runFsck_iff (cfg : Config) (env : Env) :
    (grep "FAILED" (runFsck cfg env) = [] ∧ grep "PASS" (runFsck cfg env) ≠ []) ↔
      CheckerRan env ∧ env.mount = 0 ∧ NamesHarmless cfg := by
  unfold runFsck
  dsimp only
  split
  · rename_i hwhich
    exact iff_of_false (fun h => grep_fsckErr _ h.1) fun h => hwhich h.1.1
  · rename_i hwhich
    split
    · rename_i hbusy
      exact iff_of_false (fun h => grep_fsckErr _ h.1) fun h => h.1.2 hbusy
    · rename_i hbusy
      split
      · rename_i hmount
        exact iff_of_false (fun h => grep_fsckErr _ h.1) fun h => hmount h.2.1
      · rename_i hmount
        rw [grep_passMessage]
        exact ⟨fun h => ⟨⟨not_not.mp hwhich, hbusy⟩, not_not.mp hmount, h.1⟩,
          fun h => ⟨h.2.2, grep_fsckPass _⟩⟩

theorem run_exit_iff (sh : Behaviour) {cfg : Config} (env : Env)
    (hlocal : cfg.gNetfs = false ∧ cfg.gTest = false) :
    (run sh cfg env).1 = 0 ↔ env.abort = none ∧ CheckerRan env ∧ env.mount = 0 ∧
      NamesHarmless cfg ∧ WorkloadsAccepted sh cfg env := by
  unfold run
  cases env.abort with
  | some abort =>
    rw [cleanup_iff sh env _ _ hlocal]
    simp
  | none =>
    simp only [hlocal, Bool.false_eq_true, not_false_eq_true, and_self, ↓reduceIte]
    rw [cleanup_iff sh env _ _ hlocal]
    simp only [Option.some.injEq, exists_eq_left', runFsck_iff]
    tauto

/-- A check that failed, or a result file that the tests of the driver misread. -/
def Overlooked (sh : Behaviour) (cfg : Config) (env : Env) : Prop :=
  env.fsck ≠ 0 ∨ (cfg.gMadvise = false ∧
    ((∃ f, env.fsMetadata = some f ∧ MetadataAccepted sh f ∧ ¬ MetadataPassed f) ∨
      (cfg.gRunltp = true ∧ ∃ f, env.ltpFailed = some f ∧ f.wc = 0 ∧
        (f.rest ≠ [] ∨ ∀ log, env.ltpLog = some log → grep "PASS" log = []))))

theorem overlooked_iff {sh : Behaviour} {cfg : Config} {env : Env}
    (haccepted : WorkloadsAccepted sh cfg env) :
    Overlooked sh cfg env ↔ ¬ (env.fsck = 0 ∧ WorkloadsPassed cfg env) := by
  rw [not_and_or, Overlooked]
  apply or_congr Iff.rfl
  rw [WorkloadsAccepted] at haccepted
  rw [WorkloadsPassed]
  cases hmode : cfg.gMadvise with
  | true =>
    rw [hmode] at haccepted
    simpa using haccepted
  | false =>
    rw [hmode] at haccepted
    obtain ⟨⟨f, hf, hmeta⟩, hltp⟩ := haccepted
    have hmetadata : (∃ f, env.fsMetadata = some f ∧ MetadataAccepted sh f ∧
        ¬ MetadataPassed f) ↔ ¬ ∃ f, env.fsMetadata = some f ∧ MetadataPassed f := by
      simp [hf, hmeta]
    have hltp' : (cfg.gRunltp = true ∧ ∃ f, env.ltpFailed = some f ∧ f.wc = 0 ∧
        (f.rest ≠ [] ∨ ∀ log, env.ltpLog = some log → grep "PASS" log = [])) ↔
          ¬ (cfg.gRunltp = true → LtpPassed env) := by
      rw [Classical.not_imp]
      apply and_congr_right
      intro hrun
      obtain ⟨g, hg, hwc⟩ := hltp hrun
      have hall : g.all = [] ↔ g.rest = [] := by
        rw [TextFile.all, List.eq_nil_of_length_eq_zero hwc]
        simp
      rw [LtpPassed, hg]
      simp only [Option.some.injEq, exists_eq_left', hwc, true_and, hall, not_and_or, not_exists]
      apply or_congr Iff.rfl
      exact forall_congr' fun log => by rw [ne_eq, not_not]; exact imp_iff_not_or
    rw [hmetadata, hltp']
    simp only [true_and, Bool.false_eq_true, ↓reduceIte]
    exact not_and_or.symm

/-- The exit status 0 of a run on a local block device keeps its promise unless nothing
stops the run from reporting success while a failure is overlooked. -/
theorem run_verdict_iff (sh : Behaviour) {cfg : Config} (env : Env)
    (hlocal : cfg.gNetfs = false ∧ cfg.gTest = false) :
    ((run sh cfg env).1 = 0 → Sound cfg env) ↔
      ¬ (env.abort = none ∧ CheckerRan env ∧ env.mount = 0 ∧ NamesHarmless cfg ∧
        WorkloadsAccepted sh cfg env ∧ Overlooked sh cfg env) := by
  rw [run_exit_iff sh env hlocal]
  constructor
  · rintro h ⟨habort, hran, hmount, hnames, haccepted, hover⟩
    obtain ⟨-, -, hsound⟩ := h ⟨habort, hran, hmount, hnames, haccepted⟩
    exact (overlooked_iff haccepted).mp hover hsound
  · rintro h ⟨habort, hran, hmount, hnames, haccepted⟩
    refine ⟨habort, hran, ?_⟩
    by_contra hno
    exact h ⟨habort, hran, hmount, hnames, haccepted, (overlooked_iff haccepted).mpr hno⟩

def localDisk : Config :=
  { gFstype := "ext3".toList, gDev := "/dev/sdb1".toList, gTestdir := "/t/hwpoison".toList,
    gLogdir := "/t/log".toList }

/-- What `fs-metadata.sh` writes at its end after a run without failures. -/
def metadataSummary : TextFile :=
  { lines := ["[01-02 03:04:05] PASS:7".toList, "[01-02 03:04:05] FAIL:0".toList] }

theorem localDisk_names : NamesHarmless localDisk := by
  unfold NamesHarmless
  decide +kernel

theorem metadataSummary_accepted : MetadataAccepted strict metadataSummary := by
  unfold MetadataAccepted
  decide +kernel

theorem metadataSummary_passed : MetadataPassed metadataSummary := by
  unfold MetadataPassed
  decide +kernel

theorem run_verdict_passed :
    (localDisk.gNetfs = false ∧ localDisk.gTest = false) ∧
      ((run strict localDisk { fsMetadata := some metadataSummary }).1 = 0 →
        Sound localDisk { fsMetadata := some metadataSummary }) := by
  refine ⟨⟨rfl, rfl⟩, (run_verdict_iff strict _ ⟨rfl, rfl⟩).mpr ?_⟩
  rintro ⟨-, -, -, -, -, hfsck | ⟨-, ⟨f, hf, -, hno⟩ | ⟨hltp, -⟩⟩⟩
  · exact hfsck rfl
  · cases hf
    exact hno metadataSummary_passed
  · cases hltp

/-- The checker ends with status 4, the disk can be mounted back, and the run with 0. -/
theorem run_verdict_lost :
    (run strict localDisk { fsck := 4, fsMetadata := some metadataSummary }).1 = 0 ∧
      ¬ Sound localDisk { fsck := 4, fsMetadata := some metadataSummary } := by
  constructor
  · rw [run_exit_iff strict _ ⟨rfl, rfl⟩]
    refine ⟨rfl, ⟨rfl, by simp⟩, rfl, localDisk_names, ?_⟩
    exact ⟨⟨metadataSummary, rfl, metadataSummary_accepted⟩, fun hltp => by cases hltp⟩
  · rintro ⟨-, -, hfsck, -⟩
    cases hfsck

end MceTest.Hwpoison

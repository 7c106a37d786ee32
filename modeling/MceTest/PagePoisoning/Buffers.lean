import MceTest.PagePoisoning.Program
import Mathlib.Tactic.Common

/-! Which failures make a message run over its buffer, and that nothing else does. -/

namespace MceTest.PagePoisoning.Logging

open MceTest.Library MceTest.Library.Effect MceTest.Library.Format

/-- The message of a failure fits: `err` puts it between `error: ` and the text of the
error number, `mkdir` and `madvise` have that text in it already. -/
def Failure.Short (e : Errno) (text : List Char) : Failure → Prop
  | .openLog path | .openResult path => path.length ≤ 76
  | .mkdir dir => e = eexist ∨ dir.length + 2 * text.length ≤ 63
  | .openTemp path => path.length + text.length ≤ 65
  | .reopen => text.length ≤ 70
  | .madvise tc => e = einval ∨ ¬ (e = ebusy ∧ tc = .anonClean) ∧ 2 * text.length ≤ 73
  | .shmat => text.length ≤ 77
  | .shmget => text.length ≤ 76
  | .mmap => text.length ≤ 85
  | .fork i => (intText i).length + text.length ≤ 83

def Incident.Short (x : Incident) : Prop := x.failure.Short x.errno x.text

def Quiet (s : Proc) : Prop := ∀ x ∈ s.incidents, x.Short

/-- An end of the run: `vsprintf` has gone wrong exactly when a failure was not short. -/
def Ended (e : Stop) (s : Proc) : Prop := e = .overrun ↔ ¬ Quiet s

structure Open (s : Proc) : Prop where
  quiet : Quiet s
  logFd : s.logFd = true
  resultFd : s.resultFd = true

theorem print_ok {ps : List Piece} (h : (format ps).length + 1 ≤ logBuflen) (s : Proc) :
    (print ps).run s = (.ok (format ps), s) := by
  rw [print, vsprintf, if_pos h]
  rfl

theorem print_overrun {ps : List Piece} (h : ¬ (format ps).length + 1 ≤ logBuflen) (s : Proc) :
    (print ps).run s = (.error .overrun, s) := by
  rw [print, vsprintf, if_neg h]
  rfl

theorem writeLog_ok {ps : List Piece} (h : (format ps).length + 1 ≤ logBuflen) (s : Proc) :
    ∃ log, (writeLog ps).run s = (.ok (), { s with log }) := by
  rw [writeLog, Prog.run_bind_ok (print_ok h s)]
  exact ⟨_, rfl⟩

theorem writeResult_ok {ps : List Piece} (h : (format ps).length + 1 ≤ logBuflen) (s : Proc) :
    ∃ log results, (writeResult ps).run s = (.ok (), { s with log, results }) := by
  have hagain : (format [.s (format ps)]).length + 1 ≤ logBuflen := by
    simpa [format, Piece.text] using h
  rw [writeResult, Prog.run_bind_ok (print_ok h s), Prog.run_modify_bind, Prog.run_get_bind]
  by_cases hlog : s.logFd = true
  · rw [Prog.when_pos hlog]
    obtain ⟨log, hwrite⟩ := writeLog_ok hagain { s with
      results := s.results ++
        [format [.lit "[pid ".toList, .d s.mypid, .lit "] ".toList, .s (format ps)]] }
    exact ⟨log, _, hwrite⟩
  · rw [Prog.when_neg hlog]
    exact ⟨s.log, _, rfl⟩

theorem err_perror (α : Type) (ps : List Piece) {s : Proc} (h : s.resultFd = false) :
    ∃ e, (err ps : M α).run s = (.error e, s) ∧
      (e = .overrun ↔ ¬ (format ps).length + 1 ≤ logBuflen) := by
  by_cases hfits : (format ps).length + 1 ≤ logBuflen
  · rw [err, Prog.run_bind_ok (print_ok hfits s), Prog.run_get_bind, Prog.when_neg (by simp [h])]
    exact ⟨.exit 1, rfl, by simp [hfits]⟩
  · rw [err, Prog.run_bind_error (print_overrun hfits s)]
    exact ⟨.overrun, rfl, by simp [hfits]⟩

/-- With a result file a message has to fit twice. -/
theorem err_nested (α : Type) (ps : List Piece) {s : Proc} (h : s.resultFd = true) :
    ∃ e s', (err ps : M α).run s = (.error e, s') ∧ s'.incidents = s.incidents ∧
      (e = .overrun ↔
        ¬ (format ps).length + (s.world.strerror s.errno).length + 11 ≤ logBuflen) := by
  have hlen : (format [.lit "error: ".toList, .s (format ps), .lit " :".toList,
      .s (s.world.strerror s.errno), .lit "\n".toList]).length + 1 =
      (format ps).length + (s.world.strerror s.errno).length + 11 := by
    simp [format, Piece.text]
    omega
  by_cases hfits : (format ps).length + 1 ≤ logBuflen
  · rw [err, Prog.run_bind_ok (print_ok hfits s), Prog.run_get_bind, Prog.when_pos h]
    by_cases hnested : (format ps).length + (s.world.strerror s.errno).length + 11 ≤ logBuflen
    · obtain ⟨log, results, hwrite⟩ := writeResult_ok (hlen ▸ hnested) s
      rw [Prog.run_bind_ok hwrite]
      exact ⟨.exit 1, _, rfl, rfl, by simp [hnested]⟩
    · have hwrite : (writeResult [.lit "error: ".toList, .s (format ps), .lit " :".toList,
          .s (s.world.strerror s.errno), .lit "\n".toList]).run s = (.error .overrun, s) := by
        rw [writeResult, Prog.run_bind_error (print_overrun (hlen ▸ hnested) s)]
      rw [Prog.run_bind_error hwrite]
      exact ⟨.overrun, _, rfl, rfl, by simp [hnested]⟩
  · rw [err, Prog.run_bind_error (print_overrun hfits s)]
    refine ⟨.overrun, s, rfl, rfl, ?_⟩
    simp only [true_iff]
    omega

def Proc.noted (s : Proc) (f : Failure) : Proc :=
  { s with incidents := s.incidents ++ [⟨f, s.errno, s.world.strerror s.errno⟩] }

theorem quiet_noted {s : Proc} (h : Quiet s) (f : Failure) :
    Quiet (s.noted f) ↔ f.Short s.errno (s.world.strerror s.errno) := by
  constructor
  · intro hq
    exact hq ⟨f, s.errno, s.world.strerror s.errno⟩ (by simp [Proc.noted])
  · intro hshort x hx
    rcases List.mem_append.mp hx with hx | hx
    · exact h x hx
    · obtain rfl := List.mem_singleton.mp hx
      exact hshort

theorem Quiet.of_incidents {s s' : Proc} (h : s'.incidents = s.incidents) :
    Quiet s' ↔ Quiet s := by
  rw [Quiet, h]
  rfl

/-- The failures that call `err` whatever the error number is. -/
def Failure.Always : Failure → Prop
  | .mkdir _ | .madvise _ | .openLog _ | .openResult _ => False
  | _ => True

theorem Failure.fits_iff {f : Failure} (hf : f.Always) (e : Errno) (text : List Char) :
    (format (f.message text)).length + text.length + 11 ≤ logBuflen ↔ f.Short e text := by
  cases f with
  | openLog | openResult | mkdir | madvise => exact absurd hf id
  | _ =>
    simp [message, Short, format, Piece.text, logBuflen]
    omega

theorem failWith_run {α : Type} (f : Failure) (s : Proc) :
    (failWith f : M α).run s = (err (f.message (s.world.strerror s.errno))).run (s.noted f) := by
  rw [failWith, note, Prog.run_modify_bind, Prog.run_get_bind]
  rfl

theorem ended_of_err {s : Proc} {f : Failure} (h : Quiet s) {e : Stop} {s' : Proc} {fits : Prop}
    (hincidents : s'.incidents = (s.noted f).incidents) (he : e = .overrun ↔ ¬ fits)
    (hfits : fits ↔ f.Short s.errno (s.world.strerror s.errno)) : Ended e s' := by
  rw [Ended, he, hfits, Quiet.of_incidents hincidents, quiet_noted h]

theorem ended_of_quiet {s : Proc} (h : Quiet s) {e : Stop} (he : e ≠ .overrun) : Ended e s := by
  constructor
  · exact fun heq => absurd heq he
  · exact fun hnot => absurd h hnot

theorem Leads.exit {α : Type} {J : Proc → Prop} (n : Nat) :
    Leads Open J Ended (Prog.throw (.exit n) : M α) :=
  Leads.throw fun _ hs => ended_of_quiet hs.quiet nofun

theorem Leads.undefined {α : Type} {J : Proc → Prop} :
    Leads Open J Ended (Prog.throw .undefined : M α) :=
  Leads.throw fun _ hs => ended_of_quiet hs.quiet nofun

theorem failWith_leads {α : Type} {J : Proc → Prop} {f : Failure} (hf : f.Always) :
    Leads Open J Ended (failWith f : M α) := by
  refine Leads.of_error fun s hs => ?_
  obtain ⟨e, s', herr, hincidents, he⟩ :=
    err_nested α (f.message (s.world.strerror s.errno)) (s := s.noted f) hs.resultFd
  refine ⟨e, s', ?_, ended_of_err hs.quiet hincidents he (f.fits_iff hf _ _)⟩
  rw [failWith_run, herr]

/-- A text that its directives cannot make too long. -/
abbrev Fits (ps : List Piece) : Prop := (ps.map Piece.width).sum + 1 ≤ logBuflen

theorem Fits.length {ps : List Piece} (h : Fits ps) : (format ps).length + 1 ≤ logBuflen :=
  (Nat.succ_le_succ (length_format_le ps)).trans h

theorem mylog_keeps {ps : List Piece} (h : Fits ps) : Keeps Open Ended (mylog ps) := by
  refine Leads.of_ok fun s hs => ?_
  obtain ⟨log, hwrite⟩ := writeLog_ok h.length s
  refine ⟨(), { s with log }, ?_, ⟨hs.quiet, hs.logFd, hs.resultFd⟩⟩
  rw [mylog, Prog.run_get_bind, Prog.when_neg (by simp [hs.logFd]), Prog.run_bind_ok rfl]
  exact hwrite

theorem result_keeps {ps : List Piece} (h : Fits ps) : Keeps Open Ended (result ps) := by
  refine Leads.of_ok fun s hs => ?_
  obtain ⟨log, results, hwrite⟩ := writeResult_ok h.length s
  refine ⟨(), { s with log, results }, ?_, ⟨hs.quiet, hs.logFd, hs.resultFd⟩⟩
  rw [result, Prog.run_get_bind, Prog.when_neg (by simp [hs.resultFd]), Prog.run_bind_ok rfl]
  exact hwrite

theorem fail_keeps {ps : List Piece} (h : Fits ps) : Keeps Open Ended (fail ps) :=
  (result_keeps h).bind fun _ => Leads.modify fun _ hs => ⟨hs.quiet, hs.logFd, hs.resultFd⟩

/-- The time and the error number are nothing to `I`. -/
def Timeless (I : Proc → Prop) : Prop := ∀ s time errno, I s → I { s with time, errno }

theorem Open.timeless : Timeless Open := fun _ _ _ hs => ⟨hs.quiet, hs.logFd, hs.resultFd⟩

section

variable {I : Proc → Prop} (hI : Timeless I)

include hI

theorem tick_keeps : Keeps I Ended tick :=
  Leads.get.bind fun _ => (Leads.modify fun s hs => hI s _ _ hs).bind fun _ => Leads.pure _

theorem getpid_keeps : Keeps I Ended getpid :=
  (tick_keeps hI).bind fun _ => Leads.get.bind fun _ => Leads.pure _

theorem syscallRaw_keeps : Keeps I Ended syscallRaw := by
  refine (tick_keeps hI).bind fun t => Leads.get.bind fun s => ?_
  cases s.world.call t with
  | ok v => exact Leads.pure _
  | error e => exact (Leads.modify fun s hs => hI s _ _ hs).bind fun _ => Leads.pure _

theorem syscall_keeps (hinterrupt : Keeps I Ended interrupt) : Keeps I Ended syscall :=
  hinterrupt.bind fun _ => syscallRaw_keeps hI

end

theorem freeIpc_keeps {call : M (Option (BitVec 64))} (h : Keeps Open Ended call) :
    Keeps Open Ended (freeIpc call) := by
  refine h.bind fun _ => h.bind fun r => ?_
  cases r with
  | none => exact failWith_leads trivial
  | some v => exact h.bind fun _ => h.bind fun _ => Leads.pure _

theorem mainSighandler_leads {α : Type} {J : Proc → Prop} :
    Leads Open J Ended (mainSighandler : M α) := by
  refine (mylog_keeps ?_).bind fun _ =>
    (freeIpc_keeps (syscallRaw_keeps Open.timeless)).bind fun _ => Leads.exit 1
  simp [Piece.width, logBuflen]

theorem interrupt_keeps : Keeps Open Ended interrupt :=
  (tick_keeps Open.timeless).bind fun _ => Leads.get.bind fun _ =>
    Leads.when fun _ => mainSighandler_leads

theorem call_keeps : Keeps Open Ended syscall := syscall_keeps Open.timeless interrupt_keeps

theorem orErr_keeps (f : Failure) (hf : f.Always) : Keeps Open Ended (orErr f) := by
  refine call_keeps.bind fun r => ?_
  cases r with
  | none => exact failWith_leads hf
  | some v => exact Leads.pure v

theorem flag_keeps : Keeps Open Ended flag :=
  (tick_keeps Open.timeless).bind fun _ => Leads.get.bind fun _ => Leads.pure _

theorem fails_keeps : Keeps Open Ended fails := call_keeps.bind fun _ => Leads.pure _

theorem sighandler_keeps (code : BitVec 32) (addr : BitVec 64) :
    Keeps Open Ended (sighandler code addr) := by
  refine (mylog_keeps ?_).bind fun _ => Leads.get.bind fun s =>
    (Leads.when fun _ => fail_keeps ?_).bind fun _ =>
    (Leads.modify fun s hs => ⟨hs.quiet, hs.logFd, hs.resultFd⟩).bind fun _ =>
    Leads.get.bind fun s =>
    (Leads.when fun _ => (result_keeps ?_).bind fun _ => Leads.exit 1).bind fun _ => Leads.pure _
  all_goals simp [Piece.width, logBuflen]

theorem access_keeps : Keeps Open Ended access := by
  refine interrupt_keeps.bind fun _ => (tick_keeps Open.timeless).bind fun t =>
    Leads.get.bind fun s => ?_
  cases s.world.access t with
  | byte b => exact Leads.pure _
  | bus code addr => exact (sighandler_keeps code addr).bind fun _ => Leads.pure _

theorem expect_keeps (page : BitVec 64) : Keeps Open Ended (expect page) :=
  Leads.modify fun _ hs => ⟨hs.quiet, hs.logFd, hs.resultFd⟩

theorem afterJump_keeps {msg : List Char} (hmsg : msg.length ≤ 28) (mode : Rmode) :
    Keeps Open Ended (afterJump msg mode) := by
  refine Leads.ite (fun _ => fail_keeps ?_) fun _ => mylog_keeps ?_
  all_goals
    simp [Piece.width, logBuflen]
  omega

/-- The text for a page that the kernel does not give up is too long in itself. -/
theorem reservedPage_overruns {s : Proc} (h : s.logFd = true) :
    (mylog reservedPage).run s = (.error .overrun, s) := by
  have hlong : ¬ (format reservedPage).length + 1 ≤ logBuflen := by decide +kernel
  rw [mylog, Prog.run_get_bind, Prog.when_neg (by simp [h]), Prog.run_bind_ok rfl, writeLog,
    Prog.run_bind_error (print_overrun hlong s)]

theorem poisonError_inval {s : Proc} (h : s.errno = einval) (tc : TestCase) :
    poisonError tc s = (do
      result [.lit "failed: Kernel doesn't support poison injection\n".toList]
      Prog.throw (.exit 0)) := if_pos h

theorem poisonError_busy {s : Proc} (h : s.errno = ebusy) :
    poisonError .anonClean s = mylog reservedPage := by
  rw [poisonError, if_neg (by rw [h]; decide), if_pos ⟨h, rfl⟩]

theorem poisonError_other {s : Proc} {tc : TestCase} (h : s.errno ≠ einval)
    (htc : ¬ (s.errno = ebusy ∧ tc = .anonClean)) :
    poisonError tc s = err ((Failure.madvise tc).message (s.world.strerror s.errno)) := by
  rw [poisonError, if_neg h, if_neg htc]

theorem madviseFailed_run (tc : TestCase) (s : Proc) : (madviseFailed tc).run s =
    (poisonError tc (s.noted (.madvise tc))).run (s.noted (.madvise tc)) := by
  rw [madviseFailed, note, Prog.run_modify_bind, Prog.run_get_bind]
  rfl

theorem unsupported_keeps : Keeps Open Ended (do
    result [.lit "failed: Kernel doesn't support poison injection\n".toList]
    Prog.throw (.exit 0) : M Unit) := by
  refine (result_keeps ?_).bind fun _ => Leads.exit 0
  simp [Piece.width, logBuflen]

theorem madviseFailed_keeps (tc : TestCase) : Keeps Open Ended (madviseFailed tc) := by
  refine Leads.at_state fun s hs => ?_
  have hnoted := quiet_noted hs.quiet (.madvise tc)
  by_cases hinval : s.errno = einval
  · have hopen : Open (s.noted (.madvise tc)) :=
      ⟨hnoted.mpr (Or.inl hinval), hs.logFd, hs.resultFd⟩
    refine Leads.of_run ?_ unsupported_keeps
    rintro _ rfl
    refine ⟨_, ?_, hopen⟩
    rw [madviseFailed_run, poisonError_inval (s := s.noted (.madvise tc)) hinval]
  · refine Leads.of_error ?_
    rintro _ rfl
    rw [madviseFailed_run]
    by_cases hbusy : s.errno = ebusy ∧ tc = .anonClean
    · obtain ⟨hbusy, rfl⟩ := hbusy
      rw [poisonError_busy (s := s.noted (.madvise .anonClean)) hbusy]
      refine ⟨.overrun, _, reservedPage_overruns hs.logFd, ?_⟩
      have hne : ebusy ≠ einval := by decide
      rw [Ended, hnoted]
      simp [Failure.Short, hbusy, hne]
    · rw [poisonError_other (s := s.noted (.madvise tc)) hinval hbusy]
      obtain ⟨e, s', herr, hincidents, he⟩ := err_nested Unit
        ((Failure.madvise tc).message (s.world.strerror s.errno)) (s := s.noted (.madvise tc))
        hs.resultFd
      refine ⟨e, s', herr, ended_of_err hs.quiet hincidents he ?_⟩
      simp [Failure.message, Failure.Short, format, Piece.text, logBuflen, hinval, hbusy,
        Proc.noted]
      omega

theorem poison_keeps {msg : List Char} (hmsg : msg.length ≤ 28) (page : BitVec 64) (mode : Rmode)
    (tc : TestCase) : Keeps Open Ended (poison msg page mode tc) := by
  refine (expect_keeps page).bind fun _ => interrupt_keeps.bind fun _ =>
    (tick_keeps Open.timeless).bind fun t => Leads.get.bind fun s => ?_
  cases s.world.madvise t with
  | ok =>
    refine Leads.when fun _ => fail_keeps ?_
    simp [Piece.width, logBuflen]
    omega
  | failed e =>
    exact (Leads.modify fun _ hs => ⟨hs.quiet, hs.logFd, hs.resultFd⟩).bind fun _ =>
      madviseFailed_keeps tc
  | bus code addr =>
    refine (sighandler_keeps code addr).bind fun j => ?_
    cases j with
    | recover => exact Leads.undefined
    | early => exact Leads.when fun _ => afterJump_keeps hmsg mode

theorem reading_keeps (b : BitVec 8) :
    Keeps Open Ended (mylog [.lit "reading ".toList, .x b, .lit "\n".toList]) := by
  refine mylog_keeps ?_
  simp [Piece.width, logBuflen]

theorem recoverAccess_keeps (mode : Rmode) : Keeps Open Ended (recoverAccess mode) := by
  cases mode with
  | mread | mreadOk =>
    refine access_keeps.bind fun r => ?_
    cases r with
    | error j => exact Leads.pure _
    | ok b => exact (reading_keeps b).bind fun _ => Leads.pure _
  | mwrite | mwriteOk =>
    refine (mylog_keeps ?_).bind fun _ => access_keeps.bind fun _ => Leads.pure _
    simp [Piece.width, logBuflen]
  | mnothing => exact Leads.pure _

theorem recover_keeps {msg : List Char} (hmsg : msg.length ≤ 28) (page : BitVec 64)
    (mode : Rmode) : Keeps Open Ended (recover msg page mode) := by
  refine (expect_keeps page).bind fun _ => (recoverAccess_keeps mode).bind fun r => ?_
  match r with
  | .ok true => exact Leads.pure _
  | .ok false =>
    refine fail_keeps ?_
    simp [Piece.width, logBuflen]
    omega
  | .error .recover => exact afterJump_keeps hmsg mode
  | .error .early => exact Leads.undefined

theorem testmem_keeps {msg : List Char} (hmsg : msg.length ≤ 28) (page : BitVec 64) (mode : Rmode)
    (tc : TestCase) : Keeps Open Ended (testmem msg page mode tc) := by
  refine (mylog_keeps ?_).bind fun _ => (poison_keeps hmsg page mode tc).bind fun _ =>
    recover_keeps hmsg page mode
  simp [Piece.width, logBuflen]
  omega

theorem expectedError_keeps {msg : List Char} (hmsg : msg.length ≤ 28) :
    Keeps Open Ended (expectedError msg) := by
  refine Leads.get.bind fun s => mylog_keeps ?_
  simp [Piece.width, logBuflen]
  omega

theorem expecterr_keeps {msg : List Char} (hmsg : msg.length ≤ 28) (failed : Bool) :
    Keeps Open Ended (expecterr msg failed) := by
  refine Leads.ite (fun _ => expectedError_keeps hmsg) fun _ => fail_keeps ?_
  simp [Piece.width, logBuflen]
  omega

theorem optionalerr_keeps {msg : List Char} (hmsg : msg.length ≤ 28) (failed : Bool) :
    Keeps Open Ended (optionalerr msg failed) := by
  refine Leads.ite (fun _ => expectedError_keeps hmsg) fun _ => (mylog_keeps ?_).bind fun _ =>
    Leads.modify fun _ hs => ⟨hs.quiet, hs.logFd, hs.resultFd⟩
  simp [Piece.width, logBuflen]
  omega

theorem xmalloc_keeps : Keeps Open Ended xmalloc := by
  refine call_keeps.bind fun r => ?_
  cases r with
  | none => exact Leads.exit 12
  | some v => exact Leads.pure _

theorem playfile_keeps : Keeps Open Ended playfile :=
  Leads.get.bind fun _ => (orErr_keeps (.openTemp _) trivial).bind fun _ =>
    xmalloc_keeps.bind fun _ => Leads.pure _

theorem startTest_keeps : Keeps Open Ended startTest :=
  (orErr_keeps .shmat trivial).bind fun _ => Leads.pure _

theorem anonymous_keeps {msg : String} (hmsg : msg.toList.length ≤ 28) (mode : Rmode)
    (tc : TestCase) : Keeps Open Ended (anonymous msg mode tc) :=
  startTest_keeps.bind fun _ => (orErr_keeps .mmap trivial).bind fun page =>
    testmem_keeps hmsg page mode tc

theorem outside_keeps (r : Except Jump (BitVec 8)) : Keeps Open Ended (outside r) := by
  cases r with
  | ok b => exact Leads.pure b
  | error j => exact Leads.undefined

theorem doFileClean_keeps {name : List Char} (hname : name.length ≤ 28) :
    Keeps Open Ended (doFileClean name) :=
  Leads.get.bind fun _ => (orErr_keeps (.openTemp _) trivial).bind fun _ =>
    (orErr_keeps .mmap trivial).bind fun page =>
    (testmem_keeps hname page _ _).bind fun _ => access_keeps.bind fun r =>
    (outside_keeps r).bind fun b => (reading_keeps b).bind fun _ => testmem_keeps hname page _ _

theorem doFileDirty_keeps {name : List Char} (hinitial : (ndesc name "initial").length ≤ 28)
    (hpopulated : (ndesc name "populated").length ≤ 28)
    (hfault : (ndesc name "fault").length ≤ 28) : Keeps Open Ended (doFileDirty name) := by
  refine playfile_keeps.bind fun _ => (orErr_keeps .mmap trivial).bind fun page =>
    (testmem_keeps hinitial page _ _).bind fun _ => fails_keeps.bind fun failed =>
    (expecterr_keeps (by decide +kernel) failed).bind fun _ =>
    (orErr_keeps .reopen trivial).bind fun _ =>
    (orErr_keeps .mmap trivial).bind fun page => (recover_keeps hpopulated page _).bind fun _ =>
    (orErr_keeps .reopen trivial).bind fun _ => (orErr_keeps .mmap trivial).bind fun page =>
    (recover_keeps hfault page _).bind fun _ => call_keeps.bind fun _ => ?_
  refine fails_keeps.bind fun failed => (optionalerr_keeps (by decide +kernel) failed).bind fun _ =>
    fails_keeps.bind fun failed => (optionalerr_keeps (by decide +kernel) failed).bind fun _ =>
    fails_keeps.bind fun failed => optionalerr_keeps (by decide +kernel) failed

theorem shmTest_keeps : Keeps Open Ended shmTest := by
  have hmsg : "shm dirty".toList.length ≤ 28 := by decide +kernel
  refine startTest_keeps.bind fun _ => call_keeps.bind fun _ => flag_keeps.bind fun ready =>
    (Leads.when fun _ => (orErr_keeps .shmget trivial).bind fun _ => Leads.pure _).bind fun _ =>
    (orErr_keeps .shmat trivial).bind fun shmptr => access_keeps.bind fun r =>
    (outside_keeps r).bind fun _ => call_keeps.bind fun _ => call_keeps.bind fun _ =>
    call_keeps.bind fun _ => flag_keeps.bind fun done => ?_
  refine Leads.bind ?_ fun _ => call_keeps.bind fun _ => Leads.pure _
  exact Leads.ite (fun _ => recover_keeps hmsg shmptr _) fun _ => testmem_keeps hmsg shmptr _ _

theorem TestFn.run_keeps (f : TestFn) : Keeps Open Ended f.run := by
  cases f with
  | shmTest => exact shmTest_keeps
  | anonClean | dirtyAnonymous | dirtyAnonymousUnmap | mlockedAnonymous =>
    exact anonymous_keeps (by decide +kernel) _ _
  | fileClean | fileCleanMlocked =>
    exact startTest_keeps.bind fun _ => doFileClean_keeps (by decide +kernel)
  | fileDirty | fileDirtyMlocked =>
    exact startTest_keeps.bind fun _ => doFileDirty_keeps (by decide +kernel) (by decide +kernel)
      (by decide +kernel)

theorem child_keeps (j : Nat) : Keeps Open Ended (child j) := by
  refine (getpid_keeps Open.timeless).bind fun pid =>
    Leads.bind (J := Open) (Leads.modify fun _ hs => ⟨hs.quiet, hs.logFd, hs.resultFd⟩) fun _ => ?_
  cases cases[j]? with
  | none => exact Leads.undefined
  | some t => exact t.1.run_keeps.bind fun _ => Leads.exit 0

theorem spawn_keeps (n i : Nat) : Keeps Open Ended (spawn n i) := by
  induction n generalizing i with
  | zero => exact Leads.pure _
  | succ n ih =>
    refine (orErr_keeps (.fork _) trivial).bind fun v => Leads.get.bind fun s => ?_
    refine Leads.ite (fun _ => child_keeps _) fun _ => ?_
    exact (Leads.modify fun _ hs => ⟨hs.quiet, hs.logFd, hs.resultFd⟩).bind fun _ => ih (i + 1)

theorem cases_name_length (t : Fin cases.length) : (cases.get t).2.length ≤ 28 := by
  revert t
  decide +kernel

theorem collect_keeps (i : Nat) : Keeps Open Ended (collect i) := by
  refine interrupt_keeps.bind fun _ => (tick_keeps Open.timeless).bind fun t =>
    Leads.get.bind fun s => (mylog_keeps ?_).bind fun _ => call_keeps.bind fun _ =>
    flag_keeps.bind fun pass => Leads.ite (fun _ => result_keeps ?_) fun _ => fail_keeps ?_
  · simp [Piece.width, logBuflen]
  all_goals
    have hname := cases_name_length (s.world.testId t)
    simp [Piece.width, logBuflen] at hname ⊢
    omega

theorem collectAll_keeps (is : List Nat) : Keeps Open Ended (collectAll is) := by
  induction is with
  | nil => exact Leads.pure _
  | cons i is ih => exact (collect_keeps i).bind fun _ => ih

theorem runTest_keeps (children : BitVec 32) : Keeps Open Ended (runTest children) := by
  refine (spawn_keeps _ 0).bind fun _ => Leads.get.bind fun s => (mylog_keeps ?_).bind fun _ =>
    (Leads.when fun _ => (orErr_keeps .shmat trivial).bind fun _ => collectAll_keeps _).bind
      fun _ => Leads.get.bind fun s => Leads.ite (fun _ => (result_keeps ?_).bind fun _ =>
        Leads.pure _) fun _ => (result_keeps ?_).bind fun _ => Leads.pure _
  all_goals simp [Piece.width, logBuflen]

theorem setupIpc_keeps : Keeps Open Ended setupIpc := by
  refine (orErr_keeps .shmget trivial).bind fun _ => (orErr_keeps .shmat trivial).bind fun _ =>
    call_keeps.bind fun _ => call_keeps.bind fun _ => Leads.get.bind fun s =>
    Leads.when fun _ => mylog_keeps ?_
  simp [Piece.width, logBuflen]

structure Early (logFd : Bool) (s : Proc) : Prop where
  quiet : Quiet s
  logFd : s.logFd = logFd
  resultFd : s.resultFd = false
  handlers : s.handlers = false

theorem Early.timeless (l : Bool) : Timeless (Early l) := fun _ _ _ hs =>
  ⟨hs.quiet, hs.logFd, hs.resultFd, hs.handlers⟩

theorem Early.call_keeps (l : Bool) : Keeps (Early l) Ended syscall := by
  refine syscall_keeps (Early.timeless l) ((tick_keeps (Early.timeless l)).bind fun t =>
    Leads.get_bind fun s hs => ?_)
  rw [Prog.when_neg (by simp [hs.handlers])]
  exact (Leads.pure ()).weaken fun _ ht => ht ▸ hs

theorem Early.orErr_keeps (l : Bool) {f : Failure}
    (hf : ∀ e text, (format (f.message text)).length + 1 ≤ logBuflen ↔ f.Short e text) :
    Keeps (Early l) Ended (orErr f) := by
  refine (Early.call_keeps l).bind fun r => ?_
  cases r with
  | none =>
    refine Leads.of_error fun s hs => ?_
    obtain ⟨e, herr, he⟩ := err_perror (BitVec 64) (f.message (s.world.strerror s.errno))
      (s := s.noted f) hs.resultFd
    refine ⟨e, _, ?_, ended_of_err hs.quiet rfl he (hf _ _)⟩
    exact (failWith_run f s).trans herr
  | some v => exact Leads.pure v

theorem mkdirFailed_keeps (dir : List Char) : Keeps Open Ended (mkdirFailed dir) := by
  refine Leads.at_state fun s hs => ?_
  have hnoted := quiet_noted hs.quiet (.mkdir dir)
  have hrun : (mkdirFailed dir).run s = (Prog.when (s.errno ≠ eexist)
      (err ((Failure.mkdir dir).message (s.world.strerror s.errno)))).run
        (s.noted (.mkdir dir)) := by
    rw [mkdirFailed, note, Prog.run_modify_bind, Prog.run_get_bind]
    rfl
  by_cases hexist : s.errno = eexist
  · refine Leads.of_ok ?_
    rintro _ rfl
    rw [hrun, Prog.when_neg (not_not.mpr hexist)]
    exact ⟨(), _, rfl, hnoted.mpr (Or.inl hexist), hs.logFd, hs.resultFd⟩
  · refine Leads.of_error ?_
    rintro _ rfl
    obtain ⟨e, s', herr, hincidents, he⟩ := err_nested Unit
      ((Failure.mkdir dir).message (s.world.strerror s.errno)) (s := s.noted (.mkdir dir))
      hs.resultFd
    rw [hrun, Prog.when_pos hexist]
    refine ⟨e, s', herr, ended_of_err hs.quiet hincidents he ?_⟩
    simp [Failure.message, Failure.Short, format, Piece.text, logBuflen, hexist, Proc.noted]
    omega

theorem makeTmpDir_keeps (dir : List Char) : Keeps Open Ended (makeTmpDir dir) := by
  refine call_keeps.bind fun r => ?_
  cases r with
  | none => exact mkdirFailed_keeps dir
  | some v => exact Leads.pure _

theorem setupLog_leads : Leads (Early false) Open Ended setupLog := by
  have hopen (path : List Char) (e : Errno) (text : List Char) :
      (format ((Failure.openLog path).message text)).length + 1 ≤ logBuflen ↔
        (Failure.openLog path).Short e text := by
    have hlit : "cannot open log file: ".toList.length = 22 := by decide +kernel
    have hnewline : "\n".toList.length = 1 := by decide +kernel
    simp only [Failure.message, Failure.Short, format, List.flatMap_cons, List.flatMap_nil,
      Piece.text, List.length_append, List.length_nil, hlit, hnewline, logBuflen]
    omega
  refine Leads.get.bind fun s => (Early.orErr_keeps false (hopen _)).bind fun _ =>
    Leads.bind (J := Early true)
      (Leads.modify fun _ hs => ⟨hs.quiet, rfl, hs.resultFd, hs.handlers⟩) fun _ =>
    (Early.orErr_keeps true (f := .openResult _) (hopen s.resultFile)).bind fun _ =>
    (Leads.modify fun _ hs => ⟨hs.quiet, hs.logFd, rfl⟩).bind fun _ =>
    Leads.when fun _ => makeTmpDir_keeps _

theorem applyOpt_keeps (o : Opt) : Keeps (Early false) Ended (applyOpt o) := by
  cases o with
  | help => exact Leads.throw fun _ hs => ended_of_quiet hs.quiet nofun
  | _ => exact Leads.modify fun _ hs => ⟨hs.quiet, hs.logFd, hs.resultFd, hs.handlers⟩

theorem applyOpts_keeps (argv : List Opt) : Keeps (Early false) Ended (applyOpts argv) := by
  induction argv with
  | nil => exact Leads.pure _
  | cons o argv ih => exact (applyOpt_keeps o).bind fun _ => ih

theorem main_leads (argv : List Opt) : Leads (Early false) Open Ended (main argv) := by
  refine (applyOpts_keeps argv).bind fun _ => (getpid_keeps (Early.timeless false)).bind
    fun pid => Leads.bind
      (Leads.modify fun _ hs => ⟨hs.quiet, hs.logFd, hs.resultFd, hs.handlers⟩) fun _ =>
    setupLog_leads.bind fun _ => Leads.bind
      (Leads.modify fun _ hs => ⟨hs.quiet, hs.logFd, hs.resultFd⟩) fun _ =>
    Leads.get.bind fun s => Leads.ite
      (fun _ => (mylog_keeps ?_).bind fun _ => Leads.pure _) fun _ =>
        (mylog_keeps ?_).bind fun _ => setupIpc_keeps.bind fun _ =>
        (Leads.modify fun _ hs => ⟨hs.quiet, hs.logFd, hs.resultFd⟩).bind fun _ =>
        (runTest_keeps _).bind fun rc => interrupt_keeps.bind fun _ =>
        (freeIpc_keeps call_keeps).bind fun _ => (mylog_keeps ?_).bind fun _ => Leads.pure _
  all_goals simp [Piece.width, logBuflen]

/-- A run writes behind a buffer exactly when one of its failures was not short. -/
theorem main_overrun_iff (world : World) (argv : List Opt) :
    ((main argv).run { world }).1 = .error .overrun ↔
      ∃ x ∈ ((main argv).run { world }).2.incidents, ¬ x.Short := by
  have hmain := main_leads argv
  have hstart : Early false { world } := ⟨fun _ hx => absurd hx List.not_mem_nil, rfl, rfl, rfl⟩
  have hquiet (s : Proc) : (∃ x ∈ s.incidents, ¬ x.Short) ↔ ¬ Quiet s := by
    rw [Quiet]
    push Not
    rfl
  rw [hquiet]
  cases hrun : (main argv).run { world } with
  | mk r s =>
    cases r with
    | ok rc =>
      have hopen := hmain.ok hstart hrun
      simp [hopen.quiet]
    | error e =>
      have hended := hmain.error hstart hrun
      constructor
      · rintro ⟨⟩
        exact hended.mp rfl
      · intro h
        rw [hended.mpr h]


/-- Every call succeeds, apart from one and from `madvise`; one `fork` is the child's. -/
def plainWorld (failing : Option Nat) (child : Nat) (madvise : Madvise) : World where
  strerror := fun _ => "Device or resource busy".toList
  call := fun t => if failing = some t then .error ebusy else .ok (if t = child then 0 else 200)
  madvise := fun _ => madvise
  access := fun _ => .byte 0
  terminated := fun _ => false
  pid := fun _ => 100
  flag := fun _ => false
  testId := fun _ => ⟨0, by decide⟩

/-- A log file of 77 characters that cannot be opened, and a page of the anonymous clean
test that the kernel keeps. -/
theorem main_overruns :
    ((main [.log (List.replicate 77 'a')]).run { world := plainWorld (some 2) 0 .ok }).1 =
        .error .overrun ∧
      ((main [.inst ['2']]).run { world := plainWorld none 18 (.failed ebusy) }).1 =
        .error .overrun := by
  decide +kernel

end MceTest.PagePoisoning.Logging

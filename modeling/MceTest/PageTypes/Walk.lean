import MceTest.PageTypes.Args
import MceTest.PageTypes.Histogram

/-! The walks over page frames and over the memory of a process, and `main` without a
file to walk. -/

namespace MceTest.PageTypes

/-- What `pread` gave: an error, or words and the bytes of an incomplete one. -/
inductive Pread
  | failed
  | bytes (words : List (BitVec 64)) (rest : Nat)

/-- A file of 64-bit words: the answer to a call, by its number, word index and count. -/
structure WordFile where
  name : String
  pread : Nat → Nat → Nat → Pread
  bounded : ∀ call index count words rest,
    pread call index count = .bytes words rest → words.length ≤ count

def doU64Read (file : WordFile) (call index count : Nat) : Except Fatal (List (BitVec 64)) :=
  if index > ulongMax / 8 then .error (.indexOverflow index)
  else match file.pread call index count with
    | .failed => .error (.perror file.name)
    | .bytes words rest =>
      if rest % 8 ≠ 0 then .error (.partialRead (8 * words.length + rest)) else .ok words

structure Env where
  kpageflags : WordFile
  pagemap : WordFile
  maps : Nat → List MapsLine
  pageSize : Nat

def kpageflagsBatch : Nat := 64 <<< 10
def pagemapBatch : Nat := 64 <<< 10

/-- The calls of `add_page` for one batch. -/
def batchPages (voffset index : Nat) (pme : BitVec 64) (words : List Flags) : List PageArgs :=
  words.zipIdx.map fun w => ⟨ulong (voffset + w.2), ulong (index + w.2), w.1, pme⟩

def walkPfn (env : Env) (voffset index count : Nat) (pme : BitVec 64) (s : State) : Run :=
  if count = 0 then .ok s
  else
    let batch := min count kpageflagsBatch
    match doU64Read env.kpageflags s.reads index batch with
    | .error e => .error (e, s)
    | .ok words =>
      let s := { s with reads := s.reads + 1 }
      if words.length = 0 then .ok s
      else match addPages s (batchPages voffset index pme words) with
        | .error r => .error r
        -- `voffset` stays where it was for the whole call
        | .ok s =>
          walkPfn env voffset (ulong (index + words.length)) (count - words.length) pme s
termination_by count

def pmPresent : BitVec 64 := 1#64 <<< 63
def pmPframe (val : BitVec 64) : Nat := (val &&& (1#64 <<< 55) - 1).toNat

def pagemapPfn (val : BitVec 64) : Nat := if val &&& pmPresent ≠ 0 then pmPframe val else 0

def walkVmaPages (env : Env) (index : Nat) (words : List (BitVec 64)) (s : State) : Run :=
  words.zipIdx.foldlM (fun s w =>
    if pagemapPfn w.1 ≠ 0 then walkPfn env (ulong (index + w.2)) (pagemapPfn w.1) 1 w.1 s
    else .ok s) s

def walkVma (env : Env) (index count : Nat) (s : State) : Run :=
  if count = 0 then .ok s
  else
    let batch := min count pagemapBatch
    match doU64Read env.pagemap s.pagemapReads index batch with
    | .error e => .error (e, s)
    | .ok words =>
      let s := { s with pagemapReads := s.pagemapReads + 1 }
      if words.length = 0 then .ok s
      else match walkVmaPages env index words s with
        | .error r => .error r
        | .ok s => walkVma env (ulong (index + words.length)) (count - words.length) s
termination_by count

def walkRange (env : Env) (s : State) (range : Nat × Nat) : Run :=
  if s.opts.optPid = 0 then walkPfn env range.1 range.1 range.2 0 s
  else (walkTask s.vmas range.1 range.2).pieces.foldlM (fun s p => walkVma env p.1 p.2 s) s

def walkAddrRanges (env : Env) (s : State) : Run :=
  if s.opts.optAddrRanges = [] then
    match addAddrRange s.opts 0 ulongMax with
    | .error e => .error (e, s)
    | .ok opts => opts.optAddrRanges.foldlM (walkRange env) { s with opts }
  else s.opts.optAddrRanges.foldlM (walkRange env) s

def pages2mb (env : Env) (pages : Nat) : Nat := ulong (pages * env.pageSize) >>> 20

/-- One round of the loop of `show_summary`. -/
def showSlot (env : Env) (s : State) (i : Nat) : Run :=
  if s.nrPages i = 0 then .ok s
  else match pageFlagName (s.pageFlags i) with
    | .error e => .error (e, s)
    | .ok name =>
      let nr := (s.nrPages i).toNat
      .ok { s with stdout := s.stdout ++ [.summary (s.pageFlags i) nr (pages2mb env nr) name
        (pageFlagLongname (s.pageFlags i))] }

def summaryTitle : Line := .heading
  "             flags\tpage-count       MB  symbolic-flags\t\t\tlong-symbolic-flags\n"

def showSummary (env : Env) (s : State) : Run :=
  match (List.range hashSize).foldlM (showSlot env)
    { s with stdout := s.stdout ++ [summaryTitle] } with
  | .error r => .error r
  | .ok s =>
    let nr := s.totalPages.toNat
    .ok { s with stdout := s.stdout ++ [.total nr (pages2mb env nr)] }

/-- The options of a run that neither walks a file nor only prints a text. -/
inductive Opt
  | raw | list | listEach | noSummary | hwpoison | unpoison
  | pid (str : List Char)
  | addr (str : List Char)
  | bits (str : List Char)
  deriving DecidableEq

def liftOpts (s : State) : Except Fatal Options → Run
  | .error e => .error (e, s)
  | .ok opts => .ok { s with opts }

/-- One round of the option loop of `main`; `debugfs` is mounted and its files open. -/
def applyOpt (env : Env) (s : State) : Opt → Run
  | .raw => .ok { s with opts := { s.opts with optRaw := true } }
  | .list => .ok { s with opts := { s.opts with optList := .ranges } }
  | .listEach => .ok { s with opts := { s.opts with optList := .each } }
  | .noSummary => .ok { s with opts := { s.opts with optNoSummary := true } }
  | .hwpoison => .ok { s with opts := { s.opts with optHwpoison := true } }
  | .unpoison => .ok { s with opts := { s.opts with optUnpoison := true } }
  | .pid str => match parseNumber str with
    | .error e => .error (e, s)
    | .ok n =>
      let r := parsePid env.pageSize s.vmas (env.maps (n % 2 ^ 32))
      .ok { s with
        opts := { s.opts with optPid := n % 2 ^ 32 }
        vmas := r.1
        warnings := s.warnings ++ r.2 }
  | .addr str => liftOpts s (parseAddrRange s.opts str)
  | .bits str => liftOpts s (parseBitsMask s.opts str)

def applyOpts (env : Env) (s : State) (argv : List Opt) : Run := argv.foldlM (applyOpt env) s

def headings (opts : Options) : List Line :=
  (if opts.optList ≠ .off ∧ opts.optPid ≠ 0 then [.heading "voffset\t"] else []) ++
    match opts.optList with
    | .off => []
    | .ranges => [.heading "offset\tlen\tflags\n"]
    | .each => [.heading "offset\tflags\n"]

def flushPages (s : State) : Run :=
  if s.opts.optList = .ranges then
    match flushPageRange s.pending with
    | .error e => .error (e, s)
    | .ok (pending, lines) => .ok { s with pending, stdout := s.stdout ++ lines }
  else .ok s

def finish (env : Env) (s : State) : Run :=
  if s.opts.optNoSummary then .ok s
  else if s.opts.optList ≠ .off then
    showSummary env { s with stdout := s.stdout ++ [.heading "\n\n"] }
  else showSummary env s

def main (env : Env) (argv : List Opt) : Run := do
  let s ← applyOpts env {} argv
  let s ← walkAddrRanges env { s with stdout := s.stdout ++ headings s.opts }
  let s ← flushPages s
  finish env s

end MceTest.PageTypes

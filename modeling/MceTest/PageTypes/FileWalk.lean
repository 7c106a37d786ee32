import MceTest.Library.While
import MceTest.PageTypes.Listing

/-! `walk_file`: a file is mapped batch by batch, its cached pages are touched so that
they have page table entries, and the frames behind them go to `add_page`. -/

namespace MceTest.PageTypes

open MceTest.Library

inductive Advice
  | random | sequential

/-- One regular file and what the system answers while it is walked.  Batches are told
apart by the file offset they start at, reads of `kpageflags` by the page they are for. -/
structure FileEnv where
  name : String
  size : Nat
  pageSize : Nat
  /-- What `show_file` prints. -/
  about : List Line
  opened : Bool
  mmap : Nat → Option Nat
  mincore : Nat → Option (Nat → BitVec 8)
  madvise : Nat → Advice → Bool
  /-- The address of the SIGBUS that touching page `i` of a mapping raises. -/
  touch : Nat → Nat → Option Nat
  pagemap : WordFile
  kpageflags : WordFile

inductive FileExit
  /-- A value left the range of `off_t`. -/
  | undefined
  | openFailed | mmapFailed | mincoreFailed | madviseFailed | cannotReadPagemap
  | fatal (e : Fatal)
  deriving DecidableEq

/-- A SIGBUS: the batch, the address, and the end of the walk that is set then. -/
structure Interrupt where
  off : Nat
  ptr : Nat
  addr : Nat
  «end» : Nat
  deriving DecidableEq

structure Harvest where
  s : State
  first : Bool

structure FileWalk where
  off : Nat
  «end» : Nat
  interrupts : List Interrupt
  harvest : Harvest

/-- The body of the last loop, for a frame with readable flags. -/
def passPage (env : FileEnv) (h : Harvest) (p : PageArgs) : Except (FileExit × State) Harvest :=
  let shown : Except (Fatal × State) Harvest :=
    if h.first = true ∧ h.s.opts.optList ≠ .off then
      match flushRange h.s with
      | .error r => .error r
      | .ok s => .ok { s := { s with stdout := s.stdout ++ env.about }, first := false }
    else .ok h
  match shown with
  | .error (e, s) => .error (.fatal e, s)
  | .ok h => match addPage h.s p with
    | .error (e, s) => .error (.fatal e, s)
    | .ok s => .ok { h with s }

def harvestPages (env : FileEnv) (off : Nat) :
    Nat → List (BitVec 64) → Harvest → Except (FileExit × State) Harvest
  | _, [], h => .ok h
  | i, pme :: words, h =>
    let voffset := off / env.pageSize + i
    let pfn := pagemapPfn pme
    if pfn = 0 then harvestPages env off (i + 1) words h
    else match doU64Read env.kpageflags voffset pfn 1 with
      | .error e => .error (.fatal e, h.s)
      | .ok [] => harvestPages env off (i + 1) words h
      | .ok (flags :: _) => match passPage env h ⟨voffset, pfn, flags, pme⟩ with
        | .error r => .error r
        | .ok h => harvestPages env off (i + 1) words h

/-- `off + sigbus_addr ? sigbus_addr - ptr : 0`, where the sum is the condition; the
address is one of the mapping. -/
def sigbusEnd (off ptr addr : Nat) : Nat := if off + addr ≠ 0 then addr - ptr else 0

def FileWalk.interrupt (w : FileWalk) (ptr addr : Nat) : FileWalk :=
  let «end» := sigbusEnd w.off ptr addr
  { w with «end», interrupts := w.interrupts ++ [⟨w.off, ptr, addr, «end»⟩] }

/-- The end of a walk: how far it got, and the exit it took if there is one. -/
abbrev FileResult := FileWalk × Option FileExit

/-- What is behind the pages of a file, by their index in it. -/
structure FileContent (pageSize : Nat) where
  /-- Where the batch that starts with a page is mapped. -/
  ptr : Nat → Nat
  vec : Nat → BitVec 8
  fault : Nat → Option (Fin pageSize)
  pme : Nat → BitVec 64
  flags : Nat → Nat → Option Flags

variable {env : FileEnv}

/-- No call fails, and the answers are those of the content. -/
structure Holds (env : FileEnv) (c : FileContent env.pageSize) : Prop where
  size_off : env.size < 2 ^ 63
  pageSize_pos : 0 < env.pageSize
  pageSize_int : env.pageSize < 2 ^ 31
  opened : env.opened = true
  mmap : ∀ k, env.mmap (k * env.pageSize) = some (c.ptr k)
  user : ∀ k, c.ptr k / env.pageSize ≤ ulongMax / 8
  mincore : ∀ k, env.mincore (k * env.pageSize) = some fun i => c.vec (k + i)
  madvise : ∀ off advice, env.madvise off advice = true
  touch : ∀ k i, env.touch (k * env.pageSize) i =
    (c.fault (k + i)).map fun d : Fin env.pageSize => c.ptr k + i * env.pageSize + d.val
  pagemap : ∀ k index count, env.pagemap.pread (k * env.pageSize) index count =
    .bytes ((List.range' k count).map c.pme) 0
  kpageflags : ∀ j pfn, env.kpageflags.pread j pfn 1 = .bytes (c.flags j pfn).toList 0

/-- The call of `add_page` for a page of the file, if it has a frame and readable flags. -/
def FileContent.page {pageSize : Nat} (c : FileContent pageSize) (j : Nat) : Option PageArgs :=
  if pagemapPfn (c.pme j) = 0 then none
  else (c.flags j (pagemapPfn (c.pme j))).map fun flags =>
    ⟨j, pagemapPfn (c.pme j), flags, c.pme j⟩

def filePagesNumber (env : FileEnv) : Nat := (env.size + env.pageSize - 1) / env.pageSize

def Faulty (env : FileEnv) (c : FileContent env.pageSize) (j : Nat) : Prop :=
  j < filePagesNumber env ∧ c.vec j &&& 1 ≠ 0 ∧ (c.fault j).isSome

def FileResult.pages (r : FileResult) : Except (FileExit × State) Harvest :=
  match r.2 with
  | none => .ok r.1.harvest
  | some e => .error (e, r.1.harvest.s)

end MceTest.PageTypes

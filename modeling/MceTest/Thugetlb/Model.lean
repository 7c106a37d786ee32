import MceTest.Thugetlb.Hugepage

/-! `main` of `thugetlb.c`, the child of `-F` apart: it stores the bytes that are already there. -/

namespace MceTest.Thugetlb

open MceTest.Library.CInt

def pageSize : Nat := 4096

def hpageSize : Nat := 2 * 1024 * 1024

inductive Mapping
  | shm | anonymous | file
  deriving DecidableEq

/-- The options; `memory` and `offset` are what `strtol` makes of the arguments of `-m` and
`-o`, or 1 and -1. -/
structure Options where
  memory : Int
  offset : Int
  inject : Bool
  offline : Bool
  mapping : Mapping
  avoidTouch : Bool
  fork : Bool
  deriving DecidableEq

def Options.fileSize (o : Options) : Int := toInt o.memory

def Options.corruptPage (o : Options) : Int := toInt o.offset

/-- The advice of `madvise`: `MADV_SOFT_OFFLINE` or `MADV_HWPOISON`. -/
def Options.madviseCode (o : Options) : Nat := if o.offline then 101 else 100

/-- What the system does in a run. The calls of a group stand in a row; a signal is one that
ends the process before the injection or after it. -/
structure System where
  access : Bool
  grants : Mapping → Nat → Bool
  contents : Nat → UInt8
  semaphore : Bool
  waitForCow : Bool
  madvise : Nat → Int → Bool
  advised : (Nat → UInt8) → Nat → UInt8
  putSemaphore : Bool
  wait : Bool
  removeSemaphore : Bool
  free : Mapping → Bool
  signalBefore : Option Nat
  signalAfter : Option Nat

inductive Status
  | exited (code : Nat)
  | killed (signal : Nat)
  deriving DecidableEq

/-- What `write_hugepage` has left, and what `read_hugepage` has found just after it. -/
structure Accesses where
  written : Memory
  reading : Reading

/-- What a run has done: the bytes the allocator was asked for, the place of the injection, the
memory before and after it, the accesses after it. -/
structure Run where
  asked : Nat
  poisoned : Option Int
  injection : Option ((Nat → UInt8) × (Nat → UInt8))
  last : Option Accesses
  status : Status

/-- `corrupt_page * PS > file_size * HPAGE_SIZE`, of which the left side is an `int` and the
comparison one of `unsigned long`s. -/
def outOfRange (fileSize corruptPage : Int) : Option Bool :=
  (intMul corruptPage pageSize).map fun p =>
    decide (toULong p > toULong (fileSize * hpageSize))

/-- The allocators take the size as an `int`, the calls they make as a `size_t`. -/
def asked (fileSize : Int) : Nat := toULong (toInt (toULong (fileSize * hpageSize)))

def Options.expectedAddr (o : Options) : Option Int :=
  if o.corruptPage ≠ -1 ∧ o.avoidTouch then some (o.corruptPage.tdiv 512 * hpageSize) else none

/-- `exit(1)`, in `errmsg`, in `err` and after `usage`. -/
def Run.failed : Run where
  asked := 0
  poisoned := none
  injection := none
  last := none
  status := .exited 1

/-- The end of `main` behind `cleanout`. -/
def cleanout (o : Options) (sys : System) : Status :=
  if sys.free o.mapping then .exited 0 else .exited 2

/-- The two calls that stand in a row, each with the addresses that it accesses itself. -/
def writeRead (nr : Nat) (avoid : Option Int) (bytes : Nat → UInt8) : Option Accesses :=
  (writeHugepage hpageSize nr avoid { bytes, touched := [] }).bind fun written =>
    (readHugepage hpageSize nr avoid { written with touched := [] }).map fun reading =>
      { written, reading }

/-- `main` from the accesses after the injection on. -/
def afterInjection (o : Options) (sys : System) (r : Run) (bytes : Nat → UInt8) : Option Run :=
  match sys.signalAfter with
  | some signal => some { r with status := .killed signal }
  | none =>
    -- the `if` on `madvise_code` ends in a semicolon, so the pages are written in any case
    (writeRead o.fileSize.toNat o.expectedAddr bytes).map fun accesses =>
      let status :=
        if o.fork ∧ ¬ (sys.wait ∧ sys.removeSemaphore) then .exited 1 else cleanout o sys
      { r with last := some accesses, status }

def inject (o : Options) (sys : System) (r : Run) (bytes : Nat → UInt8) : Option Run :=
  if o.inject ∧ o.corruptPage ≠ -1 then
    (intMul o.corruptPage pageSize).bind fun p =>
      let after := sys.advised bytes
      let r := { r with poisoned := some p, injection := some (bytes, after) }
      if ¬ sys.madvise o.madviseCode p then some r
      else if o.fork ∧ ¬ sys.putSemaphore then some r
      else afterInjection o sys r after
  else if o.fork ∧ ¬ sys.putSemaphore then some r
  else afterInjection o sys r bytes

/-- `main` with the mapping in place. -/
def mapped (o : Options) (sys : System) (size : Nat) : Option Run :=
  let r := { Run.failed with asked := size, status := cleanout o sys }
  if o.fork ∧ ¬ sys.semaphore then some r
  else
    (writeRead o.fileSize.toNat none sys.contents).bind fun accesses =>
      match sys.signalBefore with
      | some signal => some { r with status := .killed signal }
      | none =>
        if o.fork ∧ ¬ sys.waitForCow then some r
        else inject o sys r accesses.reading.memory.bytes

/-- A run of `main`; none if its behaviour is undefined. -/
def main (o : Options) (sys : System) : Option Run :=
  match if o.inject then outOfRange o.fileSize o.corruptPage else some false with
  | none => none
  | some true => some .failed
  | some false =>
    if o.avoidTouch ∧ o.corruptPage = -1 then some .failed
    else if ¬ sys.access then some .failed
    else
      let size := asked o.fileSize
      if ¬ sys.grants o.mapping size then some .failed else mapped o sys size

end MceTest.Thugetlb

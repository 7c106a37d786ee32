import MceTest.Library.CInt
import MceTest.Library.Numeral
import Mathlib.Data.BitVec

/-! `ttranshuge.c`: the options, the search for a transparent huge page in the mapping, the
accesses to the memory and the page that is poisoned. -/

namespace MceTest.Ttranshuge

open MceTest.Library

abbrev Addr := BitVec 64

def defaultPs : Nat := 4096

def defaultThpSize : Nat := 0x200000

def reqMemSize : Nat := 8 * 1024 * 1024

structure Options where
  corruptPage : Int := -1
  avoidTouch : Bool := false
  earlyKill : Bool := false
  deriving DecidableEq

inductive Opt
  | offset (arg : List Char)
  | avoidTouch | earlyKill | help
  | unknown

/-- The loop of `get_options_or_die`; an exit leaves its status. -/
def getOptions : List Opt → Options → Except Nat Options
  | [], o => .ok o
  | .offset arg :: argv, o =>
    getOptions argv { o with corruptPage := CInt.toInt (Numeral.strtolDecimal arg) }
  | .avoidTouch :: argv, o => getOptions argv { o with avoidTouch := true }
  | .earlyKill :: argv, o => getOptions argv { o with earlyKill := true }
  | .help :: _, _ => .error 0
  | .unknown :: _, _ => .error 1

def getOptionsOrDie (argv : List Opt) : Except Nat Options := do
  let o ← getOptions argv {}
  if o.avoidTouch ∧ o.corruptPage = -1 then .error 1 else .ok o

abbrev Memory := Addr → BitVec 8

def letter (i : Nat) : BitVec 8 := BitVec.ofNat 8 ('a'.toNat + i % 26)

/-- The page that is left out. -/
def Avoided (corruptPageAddr a : Addr) : Prop :=
  corruptPageAddr ≤ a ∧ a < corruptPageAddr + BitVec.ofNat 64 defaultPs

instance (corruptPageAddr a : Addr) : Decidable (Avoided corruptPageAddr a) :=
  inferInstanceAs (Decidable (_ ∧ _))

/-- The loop of `read_mem` from `i` on, `n` bytes before its end: 0 or -1. -/
def readMemLoop (m : Memory) (corruptPageAddr addr : Addr) (avoid : Bool) : Nat → Nat → Int
  | 0, _ => 0
  | n + 1, i =>
    let a := addr + BitVec.ofNat 64 i
    if avoid ∧ Avoided corruptPageAddr a then readMemLoop m corruptPageAddr addr avoid n (i + 1)
    else if m a ≠ letter i then -1
    else readMemLoop m corruptPageAddr addr avoid n (i + 1)

def readMem (m : Memory) (corruptPageAddr addr : Addr) (size : Nat) (avoid : Bool) : Int :=
  readMemLoop m corruptPageAddr addr avoid size 0

/-- The memory after the first bytes have been written. -/
def writeMem (m : Memory) (addr : Addr) : Nat → Memory
  | 0 => m
  | i + 1 => fun a =>
    if a = addr + BitVec.ofNat 64 i then letter i else writeMem m addr i a

def findThpAddr (start size : Addr) : Addr :=
  let thpAlignAddr := (start + BitVec.ofNat 64 (defaultThpSize - 1)) &&&
    ~~~BitVec.ofNat 64 (defaultThpSize - 1)
  if start ≤ thpAlignAddr ∧ thpAlignAddr + BitVec.ofNat 64 defaultThpSize < start + size then
    thpAlignAddr
  else 0

structure Child where
  memory : Memory
  memAddr : Addr
  corruptPage : Int
  thpAddr : Addr
  corruptPageAddr : Addr

/-- The child as `fork` makes it. -/
def fork (o : Options) (memory : Memory) : Child :=
  { memory, memAddr := 0, corruptPage := o.corruptPage, thpAddr := 0, corruptPageAddr := 0 }

/-- `prep_memory_map`, with what `mmap` returns. -/
def prepMemoryMap (memAddr : Addr) (c : Child) : Option Child :=
  if memAddr = 0 then none else some { c with memAddr }

/-- The advice that the memory be mapped as huge pages; `madvise` says whether it is taken. -/
def requestThpWithMadvise (madvise : Addr → Nat → Bool) (start : Addr) : Bool :=
  let madviseAddr := start &&& ~~~BitVec.ofNat 64 (defaultPs - 1)
  let madviseSize := reqMemSize - start.toNat % defaultPs
  madvise madviseAddr madviseSize

def prepInjection (madvise : Addr → Nat → Bool) (c : Child) : Option Child :=
  if requestThpWithMadvise madvise c.memAddr = false then none
  else
    let memory := writeMem c.memory c.memAddr reqMemSize
    if readMem memory c.corruptPageAddr c.memAddr reqMemSize false < 0 then none
    else
      let thpAddr := findThpAddr c.memAddr (BitVec.ofNat 64 reqMemSize)
      if thpAddr = 0 then none
      else
        let corruptPage := if c.corruptPage < 0 then 0 else c.corruptPage
        let corruptPageAddr := thpAddr +
          BitVec.ofNat 64 (CInt.toULong corruptPage) * BitVec.ofNat 64 defaultPs
        some { c with memory, thpAddr, corruptPage, corruptPageAddr }

/-- The groundwork of the child, up to the injection. -/
def groundwork (madvise : Addr → Nat → Bool) (o : Options) (memory : Memory) (memAddr : Addr) :
    Option Child := do
  let c ← prepMemoryMap memAddr (fork o memory)
  prepInjection madvise c

end MceTest.Ttranshuge

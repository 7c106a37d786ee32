import MceTest.Library.Numeral
import MceTest.Library.Transition
import Mathlib.Data.List.Infix

/-! `random_offline`: pages are soft-offlined at random, kept in a file and handed back to the
kernel from there. -/

namespace MceTest.RandomOffline

open MceTest.Library.Numeral

abbrev Page := Nat

abbrev Line := List Char

/-- `-m`, `-t` and `end_of_memory`. -/
structure Config where
  thresh : Nat
  runtime : Option Nat
  e : Nat
  e_pos : 0 < e

def address (page : Page) : Line :=
  '0' :: 'x' :: (Nat.toDigits 16 (page * 4096)).map Char.toUpper

/-- `sed 's/000$//'` -/
def stripZeros (line : Line) : Line :=
  if "000".toList <:+ line then line.take (line.length - 3) else line

/-- The frame the kernel reads when `unpoison` writes a line of the file. -/
def pfnOf (line : Line) : Page := (strtoll (stripZeros line)).toNat

/-- What the kernel is told: a page has been soft-offlined, or handed back. -/
inductive Event
  | softOffline (page : Page)
  | unpoison (page : Page)
  deriving DecidableEq

/-- Where the script is.  `record` is behind a soft-offline that has succeeded, `replay` in
the loop of `unpoison` with the lines it has still to read. -/
inductive Ctl
  | attempt
  | record (line : Line)
  | count
  | replay (rest : List Line)
  | reset
  | clock
  | ended
  deriving DecidableEq

structure State where
  offlined : Option (List Line) := none
  unpoisonFailed : List Line := []
  k : Nat := 0
  total : Nat := 0
  success : Nat := 0
  failed : Nat := 0
  utotal : Nat := 0
  usuccess : Nat := 0
  trap : Bool := true
  events : List Event := []
  ctl : Ctl := .attempt
  deriving DecidableEq

/-- A step of the shell, with what the kernel answers: whether a write succeeds, the seconds
since the start, or an `EXIT` with the answers to the writes of the trap. -/
inductive Action
  | attempt (random : Fin 32768) (ok : Bool)
  | go
  | write (ok : Bool)
  | clock (diff : Nat)
  | exit (oks : List Bool)

def State.lines (s : State) : List Line := s.offlined.getD []

/-- One turn of the loop of `unpoison`. -/
def State.unpoison (s : State) (line : Line) (ok : Bool) : State :=
  let s := { s with events := s.events ++ [Event.unpoison (pfnOf line)], utotal := s.utotal + 1 }
  if ok then { s with usuccess := s.usuccess + 1 }
  else { s with unpoisonFailed := s.unpoisonFailed ++ [line] }

/-- The whole loop; a missing answer counts as a failure. -/
def State.unpoisonAll (s : State) : List Line → List Bool → State
  | [], _ => s
  | line :: rest, oks => (s.unpoison line (oks.headD false)).unpoisonAll rest oks.tail

def step (cfg : Config) (s : State) : Action → Option State
  | .attempt random ok =>
    match s.ctl with
    | .attempt =>
      let page : Page := random.val % cfg.e
      let s := { s with total := s.total + 1 }
      if ok then
        some { s with
          events := s.events ++ [Event.softOffline page], ctl := .record (address page) }
      else some { s with failed := s.failed + 1, ctl := .count }
    | _ => none
  | .go =>
    match s.ctl with
    | .record line =>
      some { s with
        offlined := some (s.lines ++ [line]), success := s.success + 1, ctl := .count }
    | .count =>
      let k := s.k + 1
      if cfg.thresh < k then some { s with k, ctl := .replay s.lines }
      else some { s with k, ctl := .clock }
    | .replay [] => some { s with ctl := .reset }
    | .reset => some { s with k := 0, offlined := none, ctl := .clock }
    | _ => none
  | .write ok =>
    match s.ctl with
    | .replay (line :: rest) => some { s.unpoison line ok with ctl := .replay rest }
    | _ => none
  | .clock diff =>
    match s.ctl with
    | .clock =>
      if cfg.runtime.any (· < diff) then some { s with trap := false, ctl := .ended }
      else some { s with ctl := .attempt }
    | _ => none
  | .exit oks =>
    match s.ctl with
    | .ended => none
    | _ =>
      if s.trap then some { s.unpoisonAll s.lines oks with ctl := .ended }
      else some { s with ctl := .ended }

def init : State := {}

end MceTest.RandomOffline

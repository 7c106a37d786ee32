import MceTest.Library.CInt
import MceTest.Library.Fgets
import MceTest.Library.Numeral
import MceTest.Library.Registry

/-! The active file of `zoolib.c`: a line for everything that runs at the moment, 80 characters
each, where a line that starts with `#` is available. -/

namespace MceTest.Pan

open MceTest.Library MceTest.Library.Fgets MceTest.Library.Registry

/-- A process or a process group. -/
abbrev Pid := Fin (2 ^ 31)

instance pidCount : NeZero (2 ^ 31 : Nat) := ⟨by decide⟩

abbrev Text := List Char

def buflen : Nat := 81

def atoi (s : Text) : Int := CInt.toInt (Numeral.strtolDecimal s)

/-- `"%-*.*s"`: left justified, and cut off or filled up to the width. -/
def justified (width : Nat) (entry : Text) : Text := (entry.take width).rightpad width ' '

/-- The first available line is written over, with as many characters. -/
def markFrom (entry : Text) : List Text → Option (List Text)
  | [] => none
  | buf :: bufs =>
    if buf.head? = some '#' then
      some ((justified (buf.length - 1) entry ++ ['\n']) :: bufs)
    else (markFrom entry bufs).map (buf :: ·)

def zooMark (file entry : Text) : Text :=
  match markFrom entry (reads (buflen - 1) file) with
  | some bufs => bufs.flatten
  | none => file ++ (justified 79 entry ++ ['\n'])

/-- `snprintf(new_entry, 80, "%d,%s,%s", p, tag, cmdline)` -/
def newEntry (p : Pid) (tag cmdline : Text) : Text :=
  (Nat.toDigits 10 p ++ ',' :: (tag ++ ',' :: cmdline)).take 79

def zooMarkCmdline (file : Text) (p : Pid) (tag cmdline : Text) : Text :=
  zooMark file (newEntry p tag cmdline)

def catArgs (av : List Text) : Text := [' '].intercalate av

def zooMarkArgs (file : Text) (p : Pid) (tag : Text) (av : List Text) : Text :=
  zooMarkCmdline file p tag (catArgs av)

/-- The `#` goes over the first character of the first line for the process. -/
def clearFrom (p : Pid) : List Text → Option (List Text)
  | [] => none
  | buf :: bufs =>
    if buf.head? ≠ some '#' ∧ atoi buf = (p : Nat) then some (('#' :: buf.tail) :: bufs)
    else (clearFrom p bufs).map (buf :: ·)

/-- The file afterwards, and 1 for a process that was not found. -/
def zooClear (file : Text) (p : Pid) : Text × Int :=
  match clearFrom p (reads (buflen - 1) file) with
  | some bufs => (bufs.flatten, 0)
  | none => (file, 1)

def tagged (tag buf : Text) : Bool :=
  buf.head? ≠ some '#' ∧ ',' ∈ buf ∧ tag <+: (buf.dropWhile (· ≠ ',')).tail

def zooGetpid (file tag : Text) : Int :=
  ((reads (buflen - 1) file).find? (tagged tag)).elim (-1) atoi

end MceTest.Pan

import MceTest.Library.CInt
import MceTest.Library.Shell

/-! `inject_lot_ce` of `edac.sh`: the addresses in each range of `/proc/iomem` into which errors
are injected. -/

namespace MceTest.Edac

open MceTest.Library MceTest.Library.Numeral MceTest.Library.Shell

def pagesize : Nat := 4096

def numTestaddr : Nat := 100

def rangeSizeThr : Nat := 500

def arith (word : Word) : Int := CInt.toLong (signedPart word)

/-- `printf "0x%lx"` -/
def hexWord (v : Int) : Word := '0' :: 'x' :: Nat.toDigits 16 (CInt.toULong v)

/-- `cat /proc/iomem | grep "System RAM" | cut -d ':' -f1` -/
def iomemTmp (iomem : List Word) : List Word :=
  (iomem.filter fun line => "System RAM".toList <:+: line).map fun line =>
    line.takeWhile (· ≠ ':')

/-- `awk -F '-' '{print "0x"$1}'` and its like for `$2`. -/
def startAddr (line : Word) : Word := '0' :: 'x' :: (echo line).takeWhile (· ≠ '-')

def endAddr (line : Word) : Word :=
  '0' :: 'x' :: (((echo line).dropWhile (· ≠ '-')).drop 1).takeWhile (· ≠ '-')

def randAddr (urandom : BitVec 32) (startAddr endAddr : Int) : Int :=
  let range := CInt.toLong (endAddr - startAddr)
  let addr := CInt.toLong (startAddr + (urandom.toNat : Int).tmod range)
  if CInt.toLong (addr + numTestaddr * pagesize) > endAddr then arith (hexWord startAddr) else addr

def testAddr (randAddr : Int) (i : Nat) : Word :=
  let testPfn := CInt.toLong (randAddr.tdiv pagesize + i)
  hexWord testPfn ++ "000".toList

/-- What is written to `param1` for a line: until an address is behind the end. -/
def injectLine (urandom : BitVec 32) (line : Word) : List Word :=
  let first := arith (startAddr line)
  let last := arith (endAddr line)
  if first < 0x100000 then []
  else if CInt.toLong (last - first) < CInt.toLong (rangeSizeThr * 0x100000) then []
  else
    let addr := randAddr urandom first last
    ((List.range numTestaddr).map fun i => testAddr addr (i + 1)).takeWhile fun word =>
      ¬ arith word > last

/-- The addresses are read by the kernel as 64-bit numbers. -/
def injectLotCe (urandom : BitVec 32) (iomem : List Word) : List Nat :=
  ((iomemTmp iomem).flatMap (injectLine urandom)).map strtoull

end MceTest.Edac

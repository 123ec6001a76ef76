import SqlAnalysis.Number.Digits

/-!
Decimal numbers of any size: a whole coefficient and a power of ten. The pair is kept as written,
since the number of places after the point decides the type of a numeric literal; comparisons look
only at the value.
-/

namespace SqlAnalysis

structure Decimal where
  coefficient : Int
  exponent : Int
deriving Repr, DecidableEq, Inhabited

namespace Decimal

open Number

def ofInt (n : Int) : Decimal := ⟨n, 0⟩

/-- Powers of ten that a decimal may carry. -/
def exponentBits : Nat := 32

def isExponentMark (c : Char) : Bool := c = 'e' || c = 'E'

/-- Reads `[sign]digits[.digits][e[sign]digits]`, where either digit run of the first part may be
empty, but not both. A power of ten out of range is refused. -/
def parse? (cs : List Char) : Option Decimal := do
  let number := cs.takeWhile (!isExponentMark ·)
  let power ← match cs.dropWhile (!isExponentMark ·) with
    | [] => some 0
    | _ :: p => (readInt? p).filter (fits exponentBits)
  let whole := number.takeWhile (· ≠ '.')
  let places := (number.dropWhile (· ≠ '.')).drop 1
  if places.contains '.' then none
  let coefficient ← readInt? (whole ++ places)
  let exponent := power - places.length
  if fits exponentBits exponent then some ⟨coefficient, exponent⟩ else none

variable (d : Decimal)

def neg : Decimal := ⟨-d.coefficient, d.exponent⟩

def scaledTo (e : Int) (d : Decimal) : Int :=
  d.coefficient * (Nat.pow 10 (d.exponent - e).toNat : Nat)

def le (a b : Decimal) : Bool :=
  let e := min a.exponent b.exponent
  a.scaledTo e ≤ b.scaledTo e

def lt (a b : Decimal) : Bool := !b.le a

def sameValue (a b : Decimal) : Bool := a.le b && b.le a

def truncate : Int :=
  if d.exponent ≥ 0 then d.coefficient * (Nat.pow 10 d.exponent.toNat : Nat)
  else d.coefficient.tdiv (Nat.pow 10 (-d.exponent).toNat : Nat)

def isInteger : Bool :=
  d.exponent ≥ 0 || d.coefficient % (Nat.pow 10 (-d.exponent).toNat : Nat) == 0

def isNegative : Bool := d.coefficient < 0

def coefficientDigits : Nat := digitCount d.coefficient.natAbs

def toText : String :=
  if d.exponent ≥ 0 then intText d.truncate
  else
    let places := (-d.exponent).toNat
    let ds := digits d.coefficient.natAbs
    let ds := List.replicate (places + 1 - ds.length) '0' ++ ds
    let whole := ds.take (ds.length - places)
    let fraction := ((ds.drop (ds.length - places)).reverse.dropWhile (· = '0')).reverse
    let sign := if d.coefficient < 0 then ['-'] else []
    let tail := if fraction = [] then [] else '.' :: fraction
    String.ofList (sign ++ whole ++ tail)

end Decimal

end SqlAnalysis

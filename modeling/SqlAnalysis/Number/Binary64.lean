import SqlAnalysis.Number.Decimal

/-!
Binary numbers of 53 bits and their shortest decimal text. A decimal is rounded to the nearest such
number, a tie going to the even mantissa, and then written with the fewest digits that are read back
as the same number; of several such texts the one nearest to the number is chosen, and the even one
of two that are equally near.
-/

namespace SqlAnalysis

/-- The number `mantissa * 2 ^ exponent`, or one too large for the format. -/
inductive Binary64 where
  | finite (mantissa : Nat) (exponent : Int)
  | infinite
deriving Repr, DecidableEq, Inhabited

namespace Binary64

open Number

def mantissaBits : Nat := 53
def leastExponent : Int := -1074
def greatestExponent : Int := 971

/-- The quotient nearest to `num / den`, a tie going to the even one. -/
def roundedQuotient (num den : Nat) : Nat :=
  let q := num / den
  let twice := 2 * (num % den)
  if twice > den || (twice == den && q % 2 == 1) then q + 1 else q

def scaled (base : Nat) (e : Int) (num den : Nat) : Nat × Nat :=
  if e ≥ 0 then (num * Nat.pow base e.toNat, den) else (num, den * Nat.pow base (-e).toNat)

def nearest (num den : Nat) : Binary64 :=
  if num = 0 then .finite 0 0
  else
    let guess : Int := (Nat.log2 num : Int) - (Nat.log2 den : Int) - mantissaBits
    let (n, d) := scaled 2 (-guess) num den
    let e := max (if n / d ≥ Nat.pow 2 mantissaBits then guess + 1 else guess) leastExponent
    let (n, d) := scaled 2 (-e) num den
    let m := roundedQuotient n d
    let (m, e) := if m = Nat.pow 2 mantissaBits then (m / 2, e + 1) else (m, e)
    if e > greatestExponent then .infinite else .finite m e

def ofDecimal (d : Decimal) : Binary64 :=
  let (n, d) := scaled 10 d.exponent d.coefficient.natAbs 1
  nearest n d

/-- The integer `p` with `10 ^ p ≤ num / den < 10 ^ (p + 1)`. -/
def decimalMagnitude (num den : Nat) : Int :=
  let p : Int := (digitCount num : Int) - (digitCount den : Int)
  let (n, d) := scaled 10 (-p) num den
  if n ≥ d then p else p - 1

/-- Decimals near a number: the number itself is `num / den`, and texts between `low / den` and
`high / den` are read back as it, the ends themselves only when `closed`. -/
structure Neighbourhood where
  num : Nat
  low : Nat
  high : Nat
  den : Nat
  closed : Bool

def neighbourhood (mantissa : Nat) (exponent : Int) : Neighbourhood :=
  let (scale, den) := scaled 2 (exponent - 2) 1 1
  let below := if mantissa = Nat.pow 2 (mantissaBits - 1) && exponent > leastExponent then 1 else 2
  { num := 4 * mantissa * scale, low := (4 * mantissa - below) * scale
    high := (4 * mantissa + 2) * scale, den := den, closed := mantissa % 2 == 0 }

def Neighbourhood.holds (b : Neighbourhood) (n : Nat) (e : Int) : Bool :=
  let (x, d) := scaled 10 e n 1
  let (x, low, high) := (x * b.den, b.low * d, b.high * d)
  if b.closed then low ≤ x && x ≤ high else low < x && x < high

/-- The decimal with `count` digits, as whole number and power of ten, that lies in the
neighbourhood nearest to its centre; a tie goes to the even one. -/
def Neighbourhood.withDigits? (b : Neighbourhood) (magnitude : Int) (count : Nat) :
    Option (Nat × Int) :=
  let e := magnitude + 1 - count
  let (n, d) := scaled 10 (-e) b.num b.den
  let below := n / d
  let above := below + 1
  match b.holds below e, b.holds above e with
  | true, true => some (roundedQuotient n d, e)
  | true, false => some (below, e)
  | false, true => some (above, e)
  | false, false => none

def Neighbourhood.shortest (b : Neighbourhood) (magnitude : Int) : List Nat → Nat × Int
  | [] => (0, 0)
  | count :: more => (b.withDigits? magnitude count).getD (b.shortest magnitude more)

def shortestDigits (mantissa : Nat) (exponent : Int) : List Char × Int :=
  let b := neighbourhood mantissa exponent
  let (n, e) := b.shortest (decimalMagnitude b.num b.den) ((List.range 17).map (· + 1))
  let ds := digits n
  let trimmed := (ds.reverse.dropWhile (· = '0')).reverse
  (trimmed, e + ds.length - 1)

def scientific (ds : List Char) (power : Int) : String :=
  let tail := match ds.drop 1 with
    | [] => []
    | fraction => '.' :: fraction
  let sign := if power < 0 then "-" else "+"
  String.ofList (ds.take 1 ++ tail) ++ "E" ++ sign ++ padded 2 power.natAbs

def toText (negative : Bool) : Binary64 → String
  | .infinite => if negative then "-Inf" else "+Inf"
  | .finite 0 _ => if negative then "-0E+00" else "0E+00"
  | .finite m e =>
    let (ds, power) := shortestDigits m e
    (if negative then "-" else "") ++ scientific ds power

end Binary64

/-- The shortest scientific notation that is read back as the binary number nearest to `d`. A value
that vanishes keeps its sign. -/
def Decimal.approximateText (d : Decimal) : String :=
  Binary64.toText d.isNegative (Binary64.ofDecimal d)

end SqlAnalysis

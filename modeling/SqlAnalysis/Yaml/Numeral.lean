import SqlAnalysis.Number.Binary64

/-!
Numbers in documents: whole numbers in four bases, and numbers with a point or a power of ten.
-/

namespace SqlAnalysis.Yaml

def digitValue? (base : Nat) (c : Char) : Option Nat :=
  let v :=
    if Number.isDigit c then c.toNat - 48
    else if 'a' ≤ c ∧ c ≤ 'f' then c.toNat - 87
    else if 'A' ≤ c ∧ c ≤ 'F' then c.toNat - 55
    else base
  if v < base then some v else none

def readBase? (base : Nat) (cs : List Char) : Option Nat :=
  if cs.isEmpty then none
  else cs.foldlM (fun n c => (digitValue? base c).map fun d => base * n + d) 0

/-- A whole number without sign; a leading zero selects base eight, and `0x`, `0o`, `0b` their
bases. -/
def readWhole? : List Char → Option Nat
  | ['0'] => some 0
  | '0' :: c :: cs =>
    if c = 'x' ∨ c = 'X' then readBase? 16 cs
    else if c = 'o' ∨ c = 'O' then readBase? 8 cs
    else if c = 'b' ∨ c = 'B' then readBase? 2 cs
    else readBase? 8 (c :: cs)
  | cs => readBase? 10 cs

def signed? (read : List Char → Option Nat) : List Char → Option Int
  | '-' :: cs => (read cs).map fun n => -(n : Int)
  | '+' :: cs => (read cs).map fun n => (n : Int)
  | cs => (read cs).map fun n => (n : Int)

/-- A number of base two or eight whose sign stands after the mark of the base. -/
def signedInBase? : List Char → Option Int
  | '0' :: 'b' :: cs => signed? (readBase? 2) cs
  | '0' :: 'o' :: cs => signed? (readBase? 8) cs
  | _ => none

inductive Numeral where
  | whole (n : Int)
  | fraction (negative : Bool) (value : Binary64)
  | notANumber
deriving Repr, DecidableEq

/-- Digits with a point before, among or after them. -/
def readMantissa? (cs : List Char) : Option (Nat × Nat) :=
  let whole := cs.takeWhile Number.isDigit
  let places := match cs.drop whole.length with
    | [] => some []
    | '.' :: ds => if ds.all Number.isDigit then some ds else none
    | _ => none
  match places with
  | none => none
  | some ds =>
    if whole.isEmpty && ds.isEmpty then none else some (Number.ofDigits (whole ++ ds), ds.length)

/-- Numbers from this power of ten on are out of range, and those below its inverse vanish. -/
def powerLimit : Int := 400

def fraction? (mantissa : Nat) (power : Int) : Option Binary64 :=
  let magnitude := power + Number.digitCount mantissa
  if mantissa = 0 || magnitude < -powerLimit then some (.finite 0 0)
  else if magnitude > powerLimit then none
  else match Binary64.ofDecimal ⟨mantissa, power⟩ with
    | .infinite => none
    | value => some value

def readFraction? (cs : List Char) : Option Numeral :=
  let (negative, ds) := match cs with
    | '-' :: ds => (true, ds)
    | '+' :: ds => (false, ds)
    | ds => (false, ds)
  let number := ds.takeWhile (!Decimal.isExponentMark ·)
  let power := match ds.drop number.length with
    | [] => some 0
    | _ :: p => Number.readInt? p
  match readMantissa? number, power with
  | some (mantissa, places), some power =>
    (fraction? mantissa (power - places)).map (.fraction negative)
  | _, _ => none

/-- The number that a text starting with a digit or a sign is spelled like. Numbers from half the
range of 64 bits on are whole numbers when they have no sign. -/
def readSigned? (cs : List Char) : Option Numeral :=
  match (signed? readWhole? cs).filter (Number.fits 64),
    (readWhole? cs).filter (Number.fits 65 ·) with
  | some n, _ => some (.whole n)
  | none, some n => some (.whole n)
  | none, none =>
    match readFraction? cs with
    | some n => some n
    | none => ((signedInBase? cs).filter (Number.fits 65)).map .whole

/-- The number that a plain scalar is spelled like; underscores may stand between its digits. -/
def numeral? (text : String) : Option Numeral :=
  if [".nan", ".NaN", ".NAN"].contains text then some .notANumber
  else if [".inf", ".Inf", ".INF", "+.inf", "+.Inf", "+.INF"].contains text then
    some (.fraction false .infinite)
  else if ["-.inf", "-.Inf", "-.INF"].contains text then some (.fraction true .infinite)
  else match text.toList with
    | '.' :: cs => readFraction? ('.' :: cs)
    | c :: cs =>
      if Number.isDigit c || c = '-' || c = '+' then
        readSigned? ((c :: cs).filter (· ≠ '_')) else none
    | [] => none

def wholePart : Binary64 → Option Nat
  | .finite m e => some (if e ≥ 0 then m * Nat.pow 2 e.toNat else m / Nat.pow 2 (-e).toNat)
  | .infinite => none

/-- The 64-bit number that a numeral is cut to. A fraction below the range, or right above it,
becomes the least number. -/
def Numeral.toInt? : Numeral → Option Int
  | .whole n => if Number.fits 64 n then some n else none
  | .notANumber => none
  | .fraction negative value =>
    let least : Int := -(Nat.pow 2 63 : Int)
    match wholePart value with
    | some n =>
      let n : Int := if negative then -(n : Int) else n
      if Number.fits 64 n then some n else if n ≤ -least then some least else none
    | none => if negative then some least else none

end SqlAnalysis.Yaml

import SqlAnalysis.Text.Blank
import SqlAnalysis.Text.Case

/-!
Names of types. A scalar name is the whole of what distinguishes a type without parts, its
precision, scale and collation aside; the other names stand for the forms of type that have parts,
for the type of the null value, and for a type that is not known.
-/

namespace SqlAnalysis

inductive ScalarName where
  | boolean | tinyint | smallint | integer | bigint | decimal | float | real | double
  | date | time | timestamp
  | char | varchar | binary | varbinary
  | any | symbol | cursor
deriving Repr, DecidableEq, Inhabited

namespace ScalarName

def noPrecision : Int := -1

def maxNumericPrecision : Int := 19

def maxCharPrecision : Int := 65536

def all : List ScalarName := (List.range (cursor.ctorIdx + 1)).map ofNat

def toText : ScalarName → String
  | .boolean => "BOOLEAN"
  | .tinyint => "TINYINT"
  | .smallint => "SMALLINT"
  | .integer => "INTEGER"
  | .bigint => "BIGINT"
  | .decimal => "DECIMAL"
  | .float => "FLOAT"
  | .real => "REAL"
  | .double => "DOUBLE"
  | .date => "DATE"
  | .time => "TIME"
  | .timestamp => "TIMESTAMP"
  | .char => "CHAR"
  | .varchar => "VARCHAR"
  | .binary => "BINARY"
  | .varbinary => "VARBINARY"
  | .any => "ANY"
  | .symbol => "SYMBOL"
  | .cursor => "CURSOR"

def allowsPrecision : ScalarName → Bool
  | .decimal | .char | .varchar | .binary | .varbinary | .time | .timestamp | .float => true
  | _ => false

variable (n : ScalarName)

def allowsScale : Bool := n == .decimal

def defaultPrecision : ScalarName → Int
  | .char | .binary => 1
  | .varchar | .varbinary => maxCharPrecision
  | .decimal => maxNumericPrecision
  | .time | .timestamp => 0
  | _ => noPrecision

/-- The numeric names from narrowest to widest. -/
def numericRank? : ScalarName → Option Nat
  | .tinyint => some 0
  | .smallint => some 1
  | .integer => some 2
  | .bigint => some 3
  | .decimal => some 4
  | .real => some 5
  | .float => some 6
  | .double => some 7
  | _ => none

def isNumeric : Bool := n.numericRank?.isSome

/-- The numeric names up to `DECIMAL`, whose values are exact. -/
def isExactNumeric : Bool :=
  match n.numericRank? with
  | some r => r ≤ 4
  | none => false

def isChar : Bool := n == .char || n == .varchar

def isBinary : Bool := n == .binary || n == .varbinary

def isDatetime : Bool := n == .date || n == .time || n == .timestamp

def integerDigits : ScalarName → Int
  | .tinyint => 3
  | .smallint => 5
  | .integer => 10
  | .bigint => 19
  | _ => 0

end ScalarName

inductive TypeName where
  | scalar (n : ScalarName)
  | intervalYearMonth
  | intervalDayTime
  | null
  | row
  | multiset
  | unknown
deriving Repr, DecidableEq, Inhabited

namespace TypeName

def toText : TypeName → String
  | .scalar n => n.toText
  | .intervalYearMonth => "INTERVAL_YEAR_MONTH"
  | .intervalDayTime => "INTERVAL_DAY_TIME"
  | .null => "NULL"
  | .row => "ROW"
  | .multiset => "MULTISET"
  | .unknown => "UNKNOWN"

def spelled : List TypeName :=
  ScalarName.all.map .scalar ++ [.intervalYearMonth, .intervalDayTime, .null, .row, .multiset]

def aliases : List (String × ScalarName) := [
  ("INT", .integer), ("DEC", .decimal), ("NUMERIC", .decimal), ("CHARACTER", .char),
  ("CHARACTER VARYING", .varchar), ("CHAR VARYING", .varchar), ("DOUBLE PRECISION", .double),
  ("BINARY VARYING", .varbinary)]

def ofText? (s : String) : Option TypeName :=
  let key := Text.upper (Text.trim s)
  match aliases.lookup key with
  | some n => some (.scalar n)
  | none => spelled.find? (fun n => n.toText == key)

def allowsPrecision : TypeName → Bool
  | .scalar n => n.allowsPrecision
  | _ => false

def allowsScale : TypeName → Bool
  | .scalar n => n.allowsScale
  | _ => false

def defaultPrecision : TypeName → Int
  | .scalar n => n.defaultPrecision
  | _ => ScalarName.noPrecision

end TypeName

end SqlAnalysis

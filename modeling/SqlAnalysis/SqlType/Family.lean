import SqlAnalysis.SqlType.Basic

/-!
Families: the sets of types that operators accept for an operand.
-/

namespace SqlAnalysis

inductive Family where
  | any | boolean | numeric | exactNumeric | approximateNumeric | character | binary | string
  | date | time | timestamp | datetime | intervalYearMonth | intervalDayTime | interval
  | null | multiset | row | symbol
deriving Repr, DecidableEq, Inhabited

namespace Family

def all : List Family := (List.range (symbol.ctorIdx + 1)).map ofNat

def toText : Family → String
  | .any => "ANY"
  | .boolean => "BOOLEAN"
  | .numeric => "NUMERIC"
  | .exactNumeric => "EXACT_NUMERIC"
  | .approximateNumeric => "APPROXIMATE_NUMERIC"
  | .character => "CHARACTER"
  | .binary => "BINARY"
  | .string => "STRING"
  | .date => "DATE"
  | .time => "TIME"
  | .timestamp => "TIMESTAMP"
  | .datetime => "DATETIME"
  | .intervalYearMonth => "INTERVAL_YEAR_MONTH"
  | .intervalDayTime => "INTERVAL_DAY_TIME"
  | .interval => "INTERVAL"
  | .null => "NULL"
  | .multiset => "MULTISET"
  | .row => "ROW"
  | .symbol => "SYMBOL"

def ofText? (s : String) : Option Family := all.find? (fun f => f.toText == s)

def holds (f : Family) (t : SqlType) : Bool :=
  match f with
  | .any => true
  | .boolean => t.isBoolean
  | .numeric => t.isNumeric
  | .exactNumeric => t.isExactNumeric
  | .approximateNumeric => t.isNumeric && !t.isExactNumeric
  | .character => t.isChar
  | .binary => t.isBinary
  | .string => t.isChar || t.isBinary
  | .date => t.isNamed .date
  | .time => t.isNamed .time
  | .timestamp => t.isNamed .timestamp
  | .datetime => t.isDatetime
  | .intervalYearMonth => t.name == .intervalYearMonth
  | .intervalDayTime => t.name == .intervalDayTime
  | .interval => t.isInterval
  | .null => false
  | .multiset => t.isMultiset
  | .row => t.isRow
  | .symbol => t.isNamed .symbol

/-- Whether a value of type `t` belongs to the family. `NULL` and `ANY` belong to every family. -/
def contains (f : Family) (t : SqlType) : Bool := t.isNull || t.isAny || f.holds t

end Family

end SqlAnalysis

import SqlAnalysis.Calendar
import SqlAnalysis.Collation
import SqlAnalysis.Number.Decimal
import SqlAnalysis.SqlType.Interval

/-!
Constants as a statement writes them.
-/

namespace SqlAnalysis

inductive Truth where
  | false | true | unknown
deriving Repr, DecidableEq, Inhabited

def Truth.toText : Truth → String
  | .false => "FALSE"
  | .true => "TRUE"
  | .unknown => "UNKNOWN"

structure CharString where
  value : String
  charset : String := ""
  collation : Option Collation := none
deriving Repr, DecidableEq, Inhabited

/-- An interval: its sign and one number for each field that is written. -/
structure IntervalValue where
  negative : Bool
  fields : List Int
  qualifier : Qualifier
deriving Repr, DecidableEq, Inhabited

namespace IntervalValue

def sign (v : IntervalValue) : Int := if v.negative then -1 else 1

def toText (v : IntervalValue) : String :=
  "\x7b" ++ Number.intText v.sign ++ " [" ++ Text.join " " (v.fields.map Number.intText) ++ "] " ++
    v.qualifier.toText ++ "\x7d"

end IntervalValue

inductive Literal where
  | boolean (v : Truth)
  | exact (v : Decimal)
  | approximate (v : Decimal)
  | char (v : CharString)
  | binary (bytes : List Nat)
  | date (v : Moment)
  | time (v : Moment) (precision : Nat)
  | timestamp (v : Moment) (precision : Nat)
  | interval (v : IntervalValue)
  | symbol (name : String)
  | null
deriving Repr, DecidableEq, Inhabited

namespace Literal

def tag : Literal → String
  | .boolean _ => "BOOLEAN"
  | .exact _ => "EXACT"
  | .approximate _ => "APPROX"
  | .char _ => "CHAR"
  | .binary _ => "BINARY"
  | .date _ => "DATE"
  | .time _ _ => "TIME"
  | .timestamp _ _ => "TIMESTAMP"
  | .interval v => if v.qualifier.isYearMonth then "INTERVAL_YEAR_MONTH" else "INTERVAL_DAY_TIME"
  | .symbol _ => "SYMBOL"
  | .null => "NULL"

def precision : Literal → Nat
  | .time _ p | .timestamp _ p => p
  | _ => 0

def isNull : Literal → Bool
  | .null => true
  | _ => false

def decimal? : Literal → Option Decimal
  | .exact d | .approximate d => some d
  | _ => none

def symbol? : Literal → Option String
  | .symbol s => some s
  | _ => none

def truth? : Literal → Option Truth
  | .boolean t => some t
  | _ => none

def quoted (s : String) : String :=
  "'" ++ String.ofList (s.toList.flatMap fun c => if c = '\'' then ['\'', '\''] else [c]) ++ "'"

def toText : Literal → String
  | .boolean t => t.toText
  | .exact d | .approximate d => d.toText
  | .char v => quoted v.value
  | .binary bs => "[" ++ Text.join " " (bs.map Number.natText) ++ "]"
  | .date m => m.toText
  | .time m _ | .timestamp m _ => m.toText
  | .interval v => v.toText
  | .symbol s => s
  | .null => "NULL"

def sameValue : Literal → Literal → Bool
  | .exact a, .exact b => a.sameValue b
  | .approximate a, .approximate b => a.sameValue b
  | .date a, .date b => a.isSame b
  | .time a _, .time b _ => a.isSame b
  | .timestamp a _, .timestamp b _ => a.isSame b
  | a, b => a == b

end Literal

end SqlAnalysis

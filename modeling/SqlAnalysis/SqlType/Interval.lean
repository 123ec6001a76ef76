import SqlAnalysis.Number.Digits
import SqlAnalysis.Text.Case

/-!
Interval qualifiers: the units that an interval value has, from `YEAR` down to `SECOND`.
-/

namespace SqlAnalysis

inductive TimeUnit where
  | year | month | day | hour | minute | second
deriving Repr, DecidableEq, Inhabited

namespace TimeUnit

def all : List TimeUnit := [.year, .month, .day, .hour, .minute, .second]

def rank : TimeUnit → Nat
  | .year => 0
  | .month => 1
  | .day => 2
  | .hour => 3
  | .minute => 4
  | .second => 5

def toText : TimeUnit → String
  | .year => "YEAR"
  | .month => "MONTH"
  | .day => "DAY"
  | .hour => "HOUR"
  | .minute => "MINUTE"
  | .second => "SECOND"

def ofText? (s : String) : Option TimeUnit :=
  all.find? (fun u => u.toText == Text.upper s)

end TimeUnit

/-- The units of an interval, `YEAR TO MONTH` for example, with the digits of its first field and of
its fraction of a second. -/
structure Qualifier where
  first : TimeUnit
  last : TimeUnit
  firstPrecision : Int := 0
  fractionPrecision : Int := 0
deriving Repr, DecidableEq, Inhabited

namespace Qualifier

def isYearMonth (q : Qualifier) : Bool := q.first.rank ≤ TimeUnit.month.rank

def toText (q : Qualifier) : String :=
  let s := q.first.toText
  let s := if q.firstPrecision > 0 then s ++ "(" ++ Number.intText q.firstPrecision ++ ")" else s
  if q.last = q.first then s
  else
    let s := s ++ " TO " ++ q.last.toText
    if q.last = .second ∧ q.fractionPrecision > 0 then
      s ++ "(" ++ Number.intText q.fractionPrecision ++ ")"
    else s

end Qualifier

end SqlAnalysis

import SqlAnalysis.Number.Digits

/-!
Points in time as a calendar and a clock show them. Two moments are the same point in time when they
differ only in the zone whose clock shows it.
-/

namespace SqlAnalysis

/-- A zone: how many seconds its clocks are ahead, and its name, which may be empty. -/
structure Zone where
  offset : Int := 0
  name : String := "UTC"
deriving Repr, DecidableEq, Inhabited

/-- A point in time to the nanosecond, as the clocks of a zone show it. A time of day has the first
day of the year zero. -/
structure Moment where
  year : Int := 0
  month : Nat := 1
  day : Nat := 1
  hour : Nat := 0
  minute : Nat := 0
  second : Nat := 0
  nanosecond : Nat := 0
  zone : Zone := {}
deriving Repr, DecidableEq, Inhabited

/-! ### The calendar -/

namespace Calendar

def isLeapYear (y : Int) : Bool := y % 4 == 0 && (y % 100 != 0 || y % 400 == 0)

def daysIn (year : Int) (month : Nat) : Nat :=
  match month with
  | 2 => if isLeapYear year then 29 else 28
  | 4 | 6 | 9 | 11 => 30
  | _ => 31

/-- The days from the start of the year 1970. Years are counted from March, so that the leap day is
the last of a year, in cycles of 400 years. -/
def dayNumber (year : Int) (month day : Nat) : Int :=
  let y := if month ≤ 2 then year - 1 else year
  let m : Nat := if month ≤ 2 then month + 9 else month - 3
  let ofYear : Int := (153 * m + 2) / 5 + day - 1
  365 * y + y.fdiv 4 - y.fdiv 100 + y.fdiv 400 + ofYear - 719468

def ofDayNumber (n : Int) : Int × Nat × Nat :=
  let z := n + 719468
  let cycle := z.fdiv 146097
  let ofCycle := z - cycle * 146097
  let yearOfCycle := (ofCycle - ofCycle / 1460 + ofCycle / 36524 - ofCycle / 146096) / 365
  let ofYear := (ofCycle - (365 * yearOfCycle + yearOfCycle / 4 - yearOfCycle / 100)).toNat
  let m := (5 * ofYear + 2) / 153
  let day := ofYear - (153 * m + 2) / 5 + 1
  let month := if m < 10 then m + 3 else m - 9
  (yearOfCycle + cycle * 400 + (if month ≤ 2 then 1 else 0), month, day)

end Calendar

namespace Moment

open Number Calendar

def nanosecondsPerSecond : Int := 1000000000

variable (m : Moment)

def clockSeconds : Int :=
  dayNumber m.year m.month m.day * 86400 + m.hour * 3600 + m.minute * 60 + m.second

def instant : Int := (m.clockSeconds - m.zone.offset) * nanosecondsPerSecond + m.nanosecond

def ofInstant (n : Int) (zone : Zone) : Moment :=
  let seconds := n.fdiv nanosecondsPerSecond + zone.offset
  let (year, month, day) := ofDayNumber (seconds.fdiv 86400)
  let ofDay := (seconds.fmod 86400).toNat
  { year, month, day, zone
    hour := ofDay / 3600
    minute := ofDay / 60 % 60
    second := ofDay % 60
    nanosecond := (n.fmod nanosecondsPerSecond).toNat }

def isSame (a b : Moment) : Bool := a.instant == b.instant

/-! ### Texts -/

def yearText (year : Int) : String := (if year < 0 then "-" else "") ++ padded 4 year.natAbs

def dayText : String :=
  yearText m.year ++ "-" ++ padded 2 m.month ++ "-" ++ padded 2 m.day

def timeText : String :=
  padded 2 m.hour ++ ":" ++ padded 2 m.minute ++ ":" ++ padded 2 m.second

def fractionText (digits : Nat) (m : Moment) : String :=
  if digits = 0 then "" else "." ++ String.ofList ((padded 9 m.nanosecond).toList.take digits)

def offsetText (z : Zone) : String :=
  let minutes := z.offset.tdiv 60
  (if minutes < 0 then "-" else "+") ++ padded 2 (minutes.natAbs / 60) ++
    padded 2 (minutes.natAbs % 60)

def toText : String :=
  let fraction := ((padded 9 m.nanosecond).toList.reverse.dropWhile (· = '0')).reverse
  let fraction := if fraction = [] then "" else "." ++ String.ofList fraction
  m.dayText ++ " " ++ m.timeText ++ fraction ++ " " ++ offsetText m.zone ++ " " ++
    (if m.zone.name = "" then offsetText m.zone else m.zone.name)

end Moment

end SqlAnalysis

import SqlAnalysis.Calendar.Sketch

/-!
Dates and times of day as literals write them.
-/

namespace SqlAnalysis.Moment

open Number Calendar

variable (cs : List Char)

/-- Reads `HH:MM:SS[.fraction]`, where the hour may have one digit. -/
def parseTime? : Option Moment :=
  readBy "15:04:05.999999999".toList (Text.bytesOf cs)

def readBelow? (bound : Nat) (cs : List Char) : Option Nat := (readNat? cs).filter (· < bound)

/-- A fraction of a second in nanoseconds; digits after the ninth do not count. -/
def readPlaces? : Option Nat :=
  if cs = [] ∨ !cs.all isDigit then none
  else some (ofDigits ((cs ++ List.replicate 9 '0').take 9))

def parseDay? : List Char → Option Moment
  | [a, b, c, d, '-', e, f, '-', g, h] => do
    let year ← readNat? [a, b, c, d]
    let month ← readBelow? 13 [e, f]
    let day ← readNat? [g, h]
    if month = 0 ∨ day = 0 ∨ day > daysIn year month then none
    return { year, month, day }
  | _ => none

def parseClock? (m : Moment) : List Char → Option Moment
  | a :: b :: ':' :: c :: d :: ':' :: e :: f :: rest => do
    let hour ← readBelow? 24 [a, b]
    let minute ← readBelow? 60 [c, d]
    let second ← readBelow? 60 [e, f]
    let nanosecond ← match rest with
      | [] => some 0
      | '.' :: fraction => readPlaces? fraction
      | _ => none
    return { m with hour, minute, second, nanosecond }
  | _ => none

/-- Reads `YYYY-MM-DD[ HH:MM:SS[.fraction]]`, the form that is written. -/
def parseWritten? : Option Moment := do
  let m ← parseDay? (cs.take 10)
  match cs.drop 10 with
  | [] => return m
  | ' ' :: rest => parseClock? m rest
  | _ => none

/-- Reads a date, with or without a time of day. The form that dates are written in is read at once;
in any other it is found out what the parts of the text are. -/
def parseDate? : Option Moment :=
  match parseWritten? cs with
  | some m => some m
  | none =>
    let bytes := Text.bytesOf cs
    readAny (2 * bytes.length + 1) bytes

end SqlAnalysis.Moment

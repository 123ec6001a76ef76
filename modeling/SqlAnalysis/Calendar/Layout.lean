import SqlAnalysis.Calendar.Moment

/-!
Layouts of moments. A layout shows how the moment `2006-01-02 15:04:05`, a Monday, at seven hours
behind in the zone `MST`, would be written; each part of it stands for the same part of the text
that is read, and what is no such part stands for itself. Texts and layouts are taken byte by byte.
-/

namespace SqlAnalysis.Calendar

inductive Padding where
  | none | blank | zero
deriving Repr, DecidableEq

inductive OffsetForm where
  | hours | minutes | colonMinutes | seconds | colonSeconds
deriving Repr, DecidableEq

inductive Field where
  | year
  | shortYear
  | monthName
  | longMonthName
  /-- A month by its number, with two digits if that is `fixed`. -/
  | month (fixed : Bool)
  | weekday
  | longWeekday
  | day (padding : Padding)
  | dayOfYear (padding : Padding)
  | hour
  | hour12 (fixed : Bool)
  | minute (fixed : Bool)
  | second (fixed : Bool)
  | noon (capital : Bool)
  | offset (form : OffsetForm) (zulu : Bool)
  | zoneName
  | fraction (digits : Option Nat)
deriving Repr, DecidableEq

/-! ### Layouts -/

def startsWith (start : String) (cs : List Char) : Bool := start.toList.isPrefixOf cs

def startsLower (cs : List Char) : Bool := cs.head?.elim false Char.isLower

def startsWithDigit (cs : List Char) : Bool := cs.head?.elim false Number.isDigit

def offsetForm? (cs : List Char) : Option (OffsetForm × Nat) :=
  if startsWith "070000" cs then some (.seconds, 7)
  else if startsWith "07:00:00" cs then some (.colonSeconds, 9)
  else if startsWith "0700" cs then some (.minutes, 5)
  else if startsWith "07:00" cs then some (.colonMinutes, 6)
  else if startsWith "07" cs then some (.hours, 3)
  else none

def zeroField? : List Char → Option (Field × Nat)
  | '1' :: _ => some (.month true, 2)
  | '2' :: _ => some (.day .zero, 2)
  | '3' :: _ => some (.hour12 true, 2)
  | '4' :: _ => some (.minute true, 2)
  | '5' :: _ => some (.second true, 2)
  | '6' :: _ => some (.shortYear, 2)
  | '0' :: '2' :: _ => some (.dayOfYear .zero, 3)
  | _ => none

def fractionField? : List Char → Option (Field × Nat)
  | [] => none
  | d :: ds =>
    let same := (d :: ds).takeWhile (· = d)
    if (d = '0' ∨ d = '9') ∧ !startsWithDigit ((d :: ds).drop same.length) then
      some (.fraction (if d = '0' then some same.length else none), same.length + 1)
    else none

def fieldAt? : List Char → Option (Field × Nat)
  | 'J' :: 'a' :: 'n' :: cs =>
    if startsWith "uary" cs then some (.longMonthName, 7)
    else if startsLower cs then none else some (.monthName, 3)
  | 'M' :: 'o' :: 'n' :: cs =>
    if startsWith "day" cs then some (.longWeekday, 6)
    else if startsLower cs then none else some (.weekday, 3)
  | 'M' :: 'S' :: 'T' :: _ => some (.zoneName, 3)
  | '0' :: cs => zeroField? cs
  | '1' :: '5' :: _ => some (.hour, 2)
  | '1' :: _ => some (.month false, 1)
  | '2' :: cs => if startsWith "006" cs then some (.year, 4) else some (.day .none, 1)
  | '_' :: '2' :: cs => if startsWith "006" cs then none else some (.day .blank, 2)
  | '_' :: '_' :: '2' :: _ => some (.dayOfYear .blank, 3)
  | '3' :: _ => some (.hour12 false, 1)
  | '4' :: _ => some (.minute false, 1)
  | '5' :: _ => some (.second false, 1)
  | 'P' :: 'M' :: _ => some (.noon true, 2)
  | 'p' :: 'm' :: _ => some (.noon false, 2)
  | '-' :: cs => (offsetForm? cs).map fun (form, n) => (.offset form false, n)
  | 'Z' :: cs => (offsetForm? cs).map fun (form, n) => (.offset form true, n)
  | '.' :: cs => fractionField? cs
  | ',' :: cs => fractionField? cs
  | _ => none

def cutAtField : List Char → List Char × Option (Field × List Char)
  | [] => ([], none)
  | c :: cs =>
    match fieldAt? (c :: cs) with
    | some (field, n) => ([], some (field, (c :: cs).drop n))
    | none =>
      let (literal, rest) := cutAtField cs
      (c :: literal, rest)

/-! ### Parts of texts -/

/-- The text after a literal part of the layout. Blanks stand for any number of blanks, but there
must be one unless the text ends. -/
def skipLiteral (afterBlank : Bool) : List Char → List Char → Option (List Char)
  | [], text => some text
  | ' ' :: literal, text =>
    if !afterBlank && text.head?.elim false (· ≠ ' ') then none
    else skipLiteral true literal (text.dropWhile (· = ' '))
  | c :: literal, text =>
    match text with
    | [] => none
    | d :: text => if c = d then skipLiteral false literal text else none

def readTwo (fixed : Bool) : List Char → Option (Nat × List Char)
  | [] => none
  | a :: rest =>
    if !Number.isDigit a then none
    else match rest with
      | b :: rest' =>
        if Number.isDigit b then some (Number.ofDigits [a, b], rest')
        else if fixed then none else some (Number.ofDigits [a], rest)
      | [] => if fixed then none else some (Number.ofDigits [a], rest)

def readThree (fixed : Bool) (text : List Char) : Option (Nat × List Char) :=
  let ds := (text.take 3).takeWhile Number.isDigit
  if ds.isEmpty || (fixed && ds.length ≠ 3) then
    none else some (Number.ofDigits ds, text.drop ds.length)

def readSigned : List Char → Option Int
  | c :: ds =>
    if !(if c = '-' ∨ c = '+' then ds else c :: ds).all Number.isDigit then none
    else if c = '-' then some (-(Number.ofDigits ds : Int))
    else if c = '+' then some (Number.ofDigits ds)
    else some (Number.ofDigits (c :: ds))
  | [] => some 0

def below (bound : Nat) (r : Option (Nat × List Char)) : Option (Nat × List Char) :=
  r.filter fun (n, _) => n < bound

def readName (names : List String) (text : List Char) : Option (Nat × List Char) :=
  (names.zipIdx.find? fun (name, _) =>
    (text.take name.length).map Char.toLower == name.toList.map Char.toLower).map fun (name, i) =>
      (i, text.drop name.length)

def longMonths : List String :=
  ["January", "February", "March", "April", "May", "June", "July", "August", "September", "October",
    "November", "December"]

def longWeekdays : List String :=
  ["Sunday", "Monday", "Tuesday", "Wednesday", "Thursday", "Friday", "Saturday"]

def shortName (name : String) : String := String.ofList (name.toList.take 3)

def readFraction (text : List Char) : Option Nat :=
  match text with
  | [] => none
  | mark :: ds =>
    let counted := ds.take 9
    if mark ≠ '.' ∧ mark ≠ ',' then none
    else match readSigned counted with
      | some n => if n < 0 then none else some (n.toNat * Nat.pow 10 (9 - counted.length))
      | none => none

def signedHoursLength : List Char → Nat
  | [] => 0
  | sign :: rest =>
    let ds := rest.takeWhile Number.isDigit
    if (sign = '-' ∨ sign = '+') ∧ !ds.isEmpty ∧ Number.ofDigits ds ≤ 23 then ds.length + 1 else 0

/-- The length of the name of a zone: three to five capitals, of which four or five end in `T`, or a
few names with rules of their own. -/
def zoneNameLength? (text : List Char) : Option Nat :=
  let capitals := ((text.take 6).takeWhile Char.isUpper).length
  if text.length < 3 then none
  else if startsWith "ChST" text ∨ startsWith "MeST" text then some 4
  else if startsWith "GMT" text then some (3 + signedHoursLength (text.drop 3))
  else if startsWith "+" text ∨ startsWith "-" text then
    let n := signedHoursLength text
    if n = 0 then none else some n
  else if capitals = 5 then if startsWith "T" (text.drop 4) then some 5 else none
  else if capitals = 4 then if startsWith "T" (text.drop 3) ∨ startsWith "WITA" text then
    some 4 else none
  else if capitals = 3 then some 3
  else none

/-- The bytes of an offset without its sign that are digits of hours, minutes and seconds, and its
length with the sign. -/
def OffsetForm.parts : OffsetForm → List Char → Option (List (List Char) × Nat)
  | .hours, a :: b :: _ => some ([[a, b]], 3)
  | .minutes, a :: b :: c :: d :: _ => some ([[a, b], [c, d]], 5)
  | .colonMinutes, a :: b :: ':' :: c :: d :: _ => some ([[a, b], [c, d]], 6)
  | .seconds, a :: b :: c :: d :: e :: f :: _ => some ([[a, b], [c, d], [e, f]], 7)
  | .colonSeconds, a :: b :: ':' :: c :: d :: ':' :: e :: f :: _ =>
    some ([[a, b], [c, d], [e, f]], 9)
  | _, _ => none

def readOffset (form : OffsetForm) : List Char → Option (Int × List Char)
  | [] => none
  | sign :: rest => do
    let (parts, length) ← form.parts rest
    let numbers ← parts.mapM fun p => (readTwo true p).map Prod.fst
    let hours : Nat := (numbers[0]?).getD 0
    let minutes : Nat := (numbers[1]?).getD 0
    let seconds : Nat := (numbers[2]?).getD 0
    let offset : Int := ((hours * 60 + minutes) * 60 + seconds : Nat)
    if hours > 24 ∨ minutes > 60 ∨ seconds > 60 then none
    else if sign = '+' then some (offset, (sign :: rest).drop length)
    else if sign = '-' then some (-offset, (sign :: rest).drop length)
    else none

/-! ### Reading -/

structure Reading where
  year : Int := 0
  month : Option Nat := none
  day : Option Nat := none
  dayOfYear : Option Nat := none
  hour : Nat := 0
  minute : Nat := 0
  second : Nat := 0
  nanosecond : Nat := 0
  beforeNoon : Bool := false
  afterNoon : Bool := false
  isUtc : Bool := false
  offset : Option Int := none
  zoneName : String := ""

def fullYear (n : Int) : Int := if n ≥ 69 then n + 1900 else n + 2000

def readSecond (fixed : Bool) (layout text : List Char) (r : Reading) :
    Option (Reading × List Char) := do
  let (second, rest) ← below 60 (readTwo fixed text)
  let r := { r with second }
  let marked := rest.head?.elim false fun c => c = '.' ∨ c = ','
  let expected := match (cutAtField layout).2 with
    | some (.fraction _, _) => true
    | _ => false
  if !marked || !startsWithDigit (rest.drop 1) || expected then return (r, rest)
  let ds := (rest.drop 1).takeWhile Number.isDigit
  let nanosecond ← readFraction (rest.take (ds.length + 1))
  return ({ r with nanosecond }, rest.drop (ds.length + 1))

def readField (layout text : List Char) (r : Reading) : Field → Option (Reading × List Char)
  | .year => do
    if text.length < 4 || !startsWithDigit text then none
    let year ← readSigned (text.take 4)
    return ({ r with year }, text.drop 4)
  | .shortYear => do
    if text.length < 2 then none
    let n ← readSigned (text.take 2)
    return ({ r with year := fullYear n }, text.drop 2)
  | .monthName => do
    let (i, rest) ← readName (longMonths.map shortName) text
    return ({ r with month := some (i + 1) }, rest)
  | .longMonthName => do
    let (i, rest) ← readName longMonths text
    return ({ r with month := some (i + 1) }, rest)
  | .month fixed => do
    let (n, rest) ← below 13 (readTwo fixed text)
    if n = 0 then none
    return ({ r with month := some n }, rest)
  | .weekday => (readName (longWeekdays.map shortName) text).map fun (_, rest) => (r, rest)
  | .longWeekday => (readName longWeekdays text).map fun (_, rest) => (r, rest)
  | .day padding => do
    let text := if padding = .blank ∧ startsWith " " text then text.drop 1 else text
    let (n, rest) ← readTwo (padding = .zero) text
    return ({ r with day := some n }, rest)
  | .dayOfYear padding => do
    let blanks := if padding = .blank then ((text.take 2).takeWhile (· = ' ')).length else 0
    let (n, rest) ← readThree (padding = .zero) (text.drop blanks)
    return ({ r with dayOfYear := some n }, rest)
  | .hour => (below 24 (readTwo false text)).map fun (hour, rest) => ({ r with hour }, rest)
  | .hour12 fixed => (below 13 (readTwo fixed text)).map fun (hour, rest) => ({ r with hour }, rest)
  | .minute fixed => (below 60 (readTwo fixed text)).map fun (minute, rest) =>
    ({ r with minute }, rest)
  | .second fixed => readSecond fixed layout text r
  | .noon capital =>
    let (before, after) := if capital then ("AM", "PM") else ("am", "pm")
    if startsWith after text then some ({ r with afterNoon := true }, text.drop 2)
    else if startsWith before text then some ({ r with beforeNoon := true }, text.drop 2)
    else none
  | .offset form zulu =>
    if zulu && startsWith "Z" text then some ({ r with isUtc := true }, text.drop 1)
    else (readOffset form text).map fun (offset, rest) => ({ r with offset := some offset }, rest)
  | .zoneName =>
    if startsWith "UTC" text then some ({ r with isUtc := true }, text.drop 3)
    else (zoneNameLength? text).map fun n =>
      ({ r with zoneName := String.ofList (text.take n) }, text.drop n)
  | .fraction (some n) => do
    if text.length < n + 1 then none
    let nanosecond ← readFraction (text.take (n + 1))
    return ({ r with nanosecond }, text.drop (n + 1))
  | .fraction none =>
    let marked := text.head?.elim false fun c => c = '.' ∨ c = ','
    if !marked || !startsWithDigit (text.drop 1) then some (r, text)
    else do
      let ds := (text.drop 1).takeWhile Number.isDigit
      let nanosecond ← readFraction (text.take (ds.length + 1))
      return ({ r with nanosecond }, text.drop (ds.length + 1))

def readFields : Nat → List Char → List Char → Reading → Option Reading
  | 0, _, _, _ => none
  | fuel + 1, layout, text, r => do
    let (literal, next) := cutAtField layout
    let text ← skipLiteral false literal text
    match next with
    | none => if text.isEmpty then some r else none
    | some (field, layout) =>
      let (r, text) ← readField layout text r field
      readFields fuel layout text r

/-! ### Moments -/

def ofDayOfYear? (year : Int) (n : Nat) : Option (Nat × Nat) :=
  if n < 1 ∨ n > (if isLeapYear year then 366 else 365) then none
  else
    let (_, month, day) := ofDayNumber (dayNumber year 1 1 + n - 1)
    some (month, day)

/-- The month and day read; a day of the year has to agree with those given besides. -/
def Reading.monthDay? (r : Reading) : Option (Nat × Nat) :=
  match r.dayOfYear with
  | none => some (r.month.getD 1, r.day.getD 1)
  | some n => do
    let (month, day) ← ofDayOfYear? r.year n
    if (r.month.getD month) ≠ month ∨ (r.day.getD day) ≠ day then none
    return (month, day)

def Reading.fullHour (r : Reading) : Nat :=
  if r.afterNoon && r.hour < 12 then r.hour + 12
  else if r.beforeNoon && r.hour = 12 then 0
  else r.hour

/-- The offset of a zone that only its name is known of: zero, except for names such as `GMT+3`. -/
def namedOffset (name : String) : Int :=
  if name.length > 3 && startsWith "GMT" name.toList then
    (readSigned (name.toList.drop 3)).getD 0 * 3600
  else 0

/-- The moment that was read. An offset says which zone the clock belongs to; a mere name of a zone
leaves the clock to the zone without an offset. -/
def Reading.moment? (r : Reading) : Option Moment := do
  let (month, day) ← r.monthDay?
  if day < 1 ∨ day > daysIn r.year month then none
  let m : Moment :=
    { year := r.year, month, day
      hour := r.fullHour
      minute := r.minute
      second := r.second
      nanosecond := r.nanosecond }
  if r.isUtc then return m
  match r.offset with
  | some offset =>
    if offset = 0 ∧ (r.zoneName = "" ∨ r.zoneName = "UTC") then return m
    else return { m with zone := { offset, name := r.zoneName } }
  | none =>
    if r.zoneName = "" then return m
    else return Moment.ofInstant m.instant { offset := namedOffset r.zoneName, name := r.zoneName }

def readBy (layout text : List Char) : Option Moment :=
  (readFields (layout.length + 1) layout text {}).bind Reading.moment?

end SqlAnalysis.Calendar

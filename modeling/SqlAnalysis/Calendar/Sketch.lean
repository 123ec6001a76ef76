import SqlAnalysis.Calendar.Layout
import SqlAnalysis.Text.Byte
import SqlAnalysis.Text.Letter

/-!
Finding out how a date is written. A text whose layout is not known is looked through once. What
stands between digits and letters tells which form of date it has, and each part that is recognised
is marked in a layout that starts out as the text itself; the text is then read by that layout, so
that parts which were not recognised stand for themselves. Of two numbers that may be the month, the
first is.
-/

namespace SqlAnalysis.Calendar

inductive Form where
  | start | number
  /-- Six digits and a blank: two for each of year, month and day. -/
  | sixDigits
  | yearDash | yearDashName | yearDashDash | isoDay | isoOffset
  | dayDash | dayDashName | dayDashNameDash | dot | twoDots
  | slash | yearSlash | daySlashName | colon | ideographs | ideographsTime
  | dayBlank | dayShortMonth | dayLongMonth | word | wordBlank | twoWords
  | monthDay | monthDayBlank | monthDayComma | monthDayYear | monthDayYearTime
  | longMonth | longMonthDay | longMonthYear
  /-- A day with the ending of an ordinal number. -/
  | ordinal
  | shortMonthDot | weekday | shortWeekday
deriving Repr, DecidableEq

inductive Clock where
  | absent | start | blank
  | word | wordBlank | wordOffset | wordOffsetBlank | wordOffsetYear | wordOffsetExtra
  /-- A letter that may start `AM`, `PM` or the name of a zone. -/
  | noonOrWord
  | noon | blankOffset | blankOffsetBlank | blankOffsetColon | blankOffsetColonWord
  | year | offset | offsetColon
  | fraction | fractionWord | fractionOffset | fractionOffsetColon | fractionOffsetColonBlank
  | fractionBlank | fractionBlankOffset | fractionBlankOffsetWord | fractionBlankOffsetColon
  | fractionBlankOffsetColonWord
  | zulu | zuluDigit
deriving Repr, DecidableEq

structure Part where
  start : Nat := 0
  length : Nat := 0
deriving Repr, DecidableEq

structure Sketch where
  text : List Char
  kept : List Char
  layout : List Char
  form : Form := .start
  clock : Clock := .absent
  year : Part := {}
  month : Part := {}
  day : Part := {}
  hour : Part := {}
  minute : Part := {}
  second : Part := {}
  fraction : Part := {}
  offset : Nat := 0
  zone : Part := {}
  lead : Nat := 0
  monthName : Nat := 0
  skipped : Nat := 0
  extra : Nat := 0

namespace Sketch

def ofText (text : List Char) : Sketch := { text, kept := text, layout := text }

/-! ### Marks -/

def mark (start : Nat) (as : String) (s : Sketch) : Sketch :=
  if s.layout.length < start + as.length then s
  else { s with layout := s.layout.take start ++ as.toList ++ s.layout.drop (start + as.length) }

variable (s : Sketch)

def markYear : Sketch :=
  if s.year.length = 2 then s.mark s.year.start "06"
  else if s.year.length = 4 then s.mark s.year.start "2006" else s

def markMonth : Sketch :=
  if s.month.length = 2 then s.mark s.month.start "01"
  else if s.month.length = 1 then s.mark s.month.start "1" else s

def markDay : Sketch :=
  if s.day.length = 2 then s.mark s.day.start "02"
  else if s.day.length = 1 then s.mark s.day.start "2" else s

variable (i : Nat)

def yearUpTo (s : Sketch) : Sketch :=
  { s with year := { s.year with length := i - s.year.start } }.markYear

def monthUpTo (s : Sketch) : Sketch :=
  { s with month := { s.month with length := i - s.month.start } }.markMonth

def dayUpTo (s : Sketch) : Sketch :=
  { s with day := { s.day with length := i - s.day.start } }.markDay

def monthNameUpTo (s : Sketch) : Sketch :=
  { s with month := { s.month with length := i - s.month.start } }.mark s.month.start "Jan"

def yearFrom (s : Sketch) : Sketch := { s with year := { s.year with start := i } }

def monthFrom (s : Sketch) : Sketch := { s with month := { s.month with start := i } }

def dayFrom (s : Sketch) : Sketch := { s with day := { s.day with start := i } }

def closeDate (s : Sketch) : Sketch :=
  let s := if s.year.start = 0 then s else if s.year.length = 0 then s.yearUpTo i else s.markYear
  let s := if s.month.start = 0 || s.month.length ≠ 0 then s else s.monthUpTo i
  if s.day.start = 0 || s.day.length ≠ 0 then s else s.dayUpTo i

def closeTime (s : Sketch) : Sketch :=
  let s := if s.hour.start = 0 then s
    else if s.hour.length = 2 then s.mark s.hour.start "15"
    else if s.hour.length = 1 then s.mark s.hour.start "3" else s
  let ending (p : Part) : Part :=
    if p.start = 0 || p.length ≠ 0 then p else { p with length := i - p.start }
  let s := { s with minute := ending s.minute, second := ending s.second }
  let s := if s.minute.start = 0 then s else s.mark s.minute.start
    (if s.minute.length = 2 then "04" else "4")
  let s := if s.second.start = 0 then s else s.mark s.second.start
    (if s.second.length = 2 then "05" else "5")
  if s.fraction.start = 0 then s
  else s.mark s.fraction.start (String.ofList (List.replicate s.fraction.length '0'))

def trim (extra : Nat) (s : Sketch) : Sketch :=
  let s := { s with extra }
  if extra = 0 || s.layout.length ≤ extra then s
  else { s with layout := s.layout.take extra, kept := s.kept.take extra }

def isNext (c : Char) (s : Sketch) : Bool := s.kept[i + 1]? == some c

/-! ### Looking through a date -/

inductive Move where
  | next (s : Sketch) (i : Nat)
  | done (s : Sketch) (i : Nat)
  /-- The date is the same as in another text. -/
  | again (text : List Char)
  | refused

def withTime : Sketch := { s with clock := .start }

def withForm (form : Form) (s : Sketch) : Sketch := { s with form }

variable (c : Char)

def afterNumber (i : Nat) (s : Sketch) : Move :=
  let first : Part := { start := 0, length := i }
  let onward (s : Sketch) : Move := .next { s with lead := i } (i + 1)
  let yearFirst (s : Sketch) : Sketch := { s with year := first }.markYear.monthFrom (i + 1)
  let monthFirst (s : Sketch) : Sketch := { s with month := first }.markMonth.dayFrom (i + 1)
  if c = '-' ∨ c = '\u2212' then
    if i = 4 then
      onward ({ s with year := first }.mark 0 "2006" |>.monthFrom (i + 1) |>.withForm .yearDash)
    else onward (s.withForm .dayDash)
  else if c = '/' then
    if i = 4 then onward (yearFirst s |>.withForm .yearSlash)
    else if i + 2 < s.text.length && (s.text[i + 1]?).elim false Text.isLetter then
      .next ({ s with day := { start := 0, length := 2 } }.markDay.monthFrom (i + 1)
        |>.withForm .daySlashName) (i + 1)
    else onward (monthFirst s |>.withForm .slash)
  else if c = ':' then
    if i = 4 then onward (yearFirst s |>.withForm .colon)
    else onward (monthFirst s |>.withForm .colon)
  else if c = '.' then
    if i = 4 then onward (yearFirst s |>.withForm .dot) else onward (monthFirst s |>.withForm .dot)
  else if c = ' ' then
    if i = 6 then onward (s.withForm .sixDigits)
    else onward ({ s with day := first }.withForm .dayBlank)
  else if c = '年' then onward (s.withForm .ideographs)
  else if c = ',' then .refused
  else .next s (i + 1)

/-- Day, name of month and year, where a year of two digits may follow. -/
def nameInMiddle (length : Nat) (s : Sketch) : Sketch :=
  let day : Part := { start := 0, length := s.lead }
  if length = 4 then
    { s with year := { s.year with length }, day }.mark s.year.start "2006" |>.markDay
  else if length = 2 then
    { s with year := { s.year with length }, day }.mark s.year.start "06" |>.markDay
  else s

def afterWord (i : Nat) (s : Sketch) : Move :=
  let word := (s.text.take i).map Char.toLower
  if c = ' ' then
    if i > 3 then
      if longMonths.any fun m => m.toList.map Char.toLower == word then
        let form := if (s.text.drop i).length < 10 then .longMonth else .longMonthDay
        .next ({ s with monthName := i }.dayFrom (i + 1) |>.withForm form) (i + 1)
      else .next s (i + 1)
    else if longWeekdays.any fun d => (shortName d).toList.map Char.toLower == word then
      .again (s.text.drop (i + 1))
    else .next (s.withForm .wordBlank) (i + 1)
  else if c = ',' then
    if i = 3 then .next (s.mark 0 "Mon" |>.withForm .shortWeekday) (i + 1)
    else .next { s with form := .weekday, skipped := i + 2 } (i + 2)
  else if c = '.' then
    if i = 3 then .next ({ s with month := { s.month with length := i } }.mark 0 "Jan"
      |>.withForm .shortMonthDot) (i + 1)
    else if i = 4 then .again (s.text.take (i - 1) ++ s.text.drop i)
    else .refused
  else .next s (i + 1)

def afterOrdinal (i : Nat) (s : Sketch) : Move :=
  let endings : List (Char × Char) := [('t', 'h'), ('n', 'd'), ('s', 't'), ('r', 'd')]
  let isEnding := endings.any fun (a, b) => c.toLower = a && (s.isNext i b || s.isNext i b.toUpper)
  if isEnding && s.text.length > i + 2 then .again (s.kept.take i ++ s.kept.drop (i + 2))
  else .next s (i + 1)

def afterWeekday (i : Nat) (s : Sketch) : Move :=
  let s := if s.day.start = 0 then s.dayFrom i else s
  if c ≠ ' ' ∧ c ≠ '-' then .next s (i + 1)
  else if s.month.start = 0 then .next (s.monthFrom (i + 1) |>.dayUpTo i) (i + 1)
  else if s.year.start = 0 then .next (s.yearFrom (i + 1) |>.monthNameUpTo i) (i + 1)
  else .done s.withTime i

def afterShortWeekday (i : Nat) (s : Sketch) : Move :=
  if c ≠ ' ' ∧ c ≠ '-' then .next s (i + 1)
  else if s.day.start = 0 then .next (s.dayFrom (i + 1)) (i + 1)
  else if s.month.start = 0 then .next (s.dayUpTo i |>.monthFrom (i + 1)) (i + 1)
  else if s.year.start = 0 then .next (s.monthNameUpTo i |>.yearFrom (i + 1)) (i + 1)
  else .done (s.yearUpTo i).withTime i

def step (i : Nat) (s : Sketch) : Move :=
  let stay : Move := .next s (i + 1)
  match s.form with
  | .start =>
    if Text.isDecimalDigit c then .next (s.withForm .number) (i + 1)
    else if Text.isLetter c then .next (s.withForm .word) (i + 1)
    else .refused
  | .number => s.afterNumber c i
  | .sixDigits => .done (s.mark 0 "060102").withTime (i - 1)
  | .yearDash =>
    if c = '-' ∨ c = '\u2212' then
      .next (s.monthUpTo i |>.dayFrom (i + 1) |>.withForm .yearDashDash) (i + 1)
    else if Text.isLetter c then .next (s.withForm .yearDashName) (i + 1)
    else stay
  | .yearDashDash =>
    if c = '+' ∨ c = '-' then
      .next ({ s with offset := i }.dayUpTo i |>.withForm .isoOffset) (i + 1)
    else if c = ' ' ∨ c = 'T' then .done (s.dayUpTo i |>.withForm .isoDay).withTime i
    else stay
  | .isoOffset => if c = ':' then .next (s.mark s.offset "-07:00") (i + 1) else stay
  | .yearDashName => if c = '-' then .next (s.monthNameUpTo i |>.dayFrom (i + 1)) (i + 1) else stay
  | .dayDash =>
    if Text.isLetter c then .next (s.monthFrom i |>.withForm .dayDashName) (i + 1) else .refused
  | .dayDashName =>
    if c = '-' then
      .next (s.monthNameUpTo i |>.yearFrom (i + 1) |>.withForm .dayDashNameDash) (i + 1)
    else stay
  | .dayDashNameDash =>
    if c = ' ' then .done (s.nameInMiddle (i - (s.month.start + s.month.length + 1))).withTime i
    else stay
  | .yearSlash =>
    if c = ' ' ∨ c = ':' then .done (if s.day.length = 0 then s.dayUpTo i else s).withTime i
    else if c = '/' ∧ s.month.length = 0 then .next (s.monthUpTo i |>.dayFrom (i + 1)) (i + 1)
    else stay
  | .daySlashName =>
    if c = '/' ∧ s.month.length = 0 then
      .next (s.mark s.month.start "Jan" |>.yearFrom (i + 1)) (i + 1)
    else if c = ' ' ∨ c = ':' then .done (if s.year.length = 0 then s.yearUpTo i else s).withTime i
    else stay
  | .slash =>
    if c = '/' ∧ s.day.length = 0 then .next (s.dayUpTo i |>.yearFrom (i + 1)) (i + 1)
    else if c = ' ' then .done (if s.year.length = 0 then s.yearUpTo i else s).withTime i
    else stay
  | .colon =>
    if c = ' ' then
      .done (if s.year.length = 0 then s.yearUpTo i else if s.day.length = 0
        then s.dayUpTo i else s).withTime i
    else if c ≠ ':' then stay
    else if s.year.length > 0 then
      if s.month.length = 0 then .next (s.monthUpTo i |>.dayFrom (i + 1)) (i + 1) else stay
    else if s.day.length = 0 then .next (s.dayUpTo i |>.yearFrom (i + 1)) (i + 1)
    else stay
  | .dayBlank =>
    if c ≠ ' ' then stay
    else
      let s :=
        { s with day := { start := 0, length := s.lead } }.markDay.yearFrom (i + 1) |>.withTime
      if i > s.day.length + 4 then .next (s.withForm .dayLongMonth) (i + 1)
      else .next (s.monthFrom (s.day.length + 1) |>.monthNameUpTo i |>.withForm .dayShortMonth)
        (i + 1)
  | .dayShortMonth =>
    if c = ',' then .done (s.yearUpTo i) (i + 1)
    else if c = ' ' then .done (s.yearUpTo i) i
    else stay
  | .ideographs => if c = ' ' then .next (s.withForm .ideographsTime) (i + 1) else stay
  | .dot =>
    if c ≠ '.' then stay
    else if s.month.start = 0 then
      .next (s.dayUpTo i |>.yearFrom (i + 1) |>.withForm .twoDots) (i + 1)
    else .next (s.monthUpTo i |>.dayFrom (i + 1) |>.withForm .twoDots) (i + 1)
  | .twoDots | .dayLongMonth => stay
  | .word => s.afterWord c i
  | .wordBlank =>
    if Text.isLetter c then .next (s.mark 0 "Mon" |>.mark i "Jan" |>.withForm .twoWords) (i + 1)
    else if Text.isDecimalDigit c then
      .next (s.mark 0 "Jan" |>.dayFrom i |>.withForm .monthDay) (i + 1)
    else stay
  | .monthDay =>
    if c = ',' then .next (s.dayUpTo i |>.withForm .monthDayComma) (i + 1)
    else if c = ' ' then
      .next (s.dayUpTo i |>.yearFrom (i + 1) |>.withForm .monthDayBlank).withTime (i + 1)
    else if Text.isLetter c then .next (s.withForm .ordinal) i
    else stay
  | .monthDayBlank =>
    if c = ':' then .done (s.yearFrom 0 |>.withForm .monthDay) (i - 3)
    else if c = ' ' then .done (s.yearUpTo i) i
    else stay
  | .monthDayComma =>
    if c = ' ' then .next (s.yearFrom (i + 1) |>.withForm .monthDayYear) (i + 1) else stay
  | .monthDayYear =>
    if c = '\'' then .next (s.yearFrom (i + 1)) (i + 1)
    else if c = ' ' ∨ c = ',' then .done (s.yearUpTo i |>.withForm .monthDayYearTime).withTime i
    else stay
  | .longMonth =>
    if c = ' ' ∨ c = ',' then .next (if s.day.length = 0 then s.dayUpTo i else s) (i + 1)
    else if ['s', 'r', 't', 'n'].contains c.toLower then .next (s.withForm .ordinal) i
    else if s.day.length > 0 ∧ s.year.start = 0 then .next (s.yearFrom i) (i + 1)
    else stay
  | .longMonthYear =>
    if c = ',' then .done (s.yearUpTo i).withTime (i + 1)
    else if c = ' ' then .done (s.yearUpTo i).withTime i
    else stay
  | .ordinal => s.afterOrdinal c i
  | .longMonthDay =>
    if c = ',' then
      if s.isNext i ' ' then
        .next (s.dayUpTo i |>.yearFrom (i + 2) |>.withForm .longMonthYear) (i + 2)
      else stay
    else if c = ' ' then .next (s.dayUpTo i |>.yearFrom (i + 1) |>.withForm .longMonthYear) (i + 1)
    else if Text.isDecimalDigit c then stay
    else if Text.isLetter c then .next (s.dayUpTo i |>.withForm .ordinal) i
    else stay
  | .shortMonthDot =>
    if c = ' ' then stay
    else if Text.isDecimalDigit c then .next (s.dayFrom i |>.withForm .monthDay) (i + 1)
    else .refused
  | .weekday => s.afterWeekday c i
  | .shortWeekday => s.afterShortWeekday c i
  | .isoDay | .ideographsTime | .twoWords | .monthDayYearTime => .done s i

/-- Looks through the date from the place `i` on. The fuel counts characters, of which some are
looked at twice. -/
def lookThrough : Nat → Nat → Sketch → Move
  | 0, i, s => .done s i
  | fuel + 1, i, s =>
    if i < s.text.length then
      let (c, n) := Text.firstChar (s.text.drop i)
      match s.step c (i + n - 1) with
      | .next s i => lookThrough fuel i s
      | other => other
    else .done s i

/-! ### Looking through a time of day -/

def zoneUpTo (s : Sketch) : Sketch :=
  let s := { s with zone := { s.zone with length := i - s.zone.start } }
  if s.zone.length = 4 then s.mark s.zone.start " MST"
  else if s.zone.length = 3 then s.mark s.zone.start "MST" else s

def withClock (clock : Clock) (s : Sketch) : Sketch := { s with clock }

def fractionUpTo (s : Sketch) : Sketch :=
  { s with fraction := { s.fraction with length := i - s.fraction.start } }

def secondUpTo (s : Sketch) : Sketch :=
  { s with second := { s.second with length := i - s.second.start } }

def minuteUpTo (s : Sketch) : Sketch :=
  { s with minute := { s.minute with length := i - s.minute.start } }

/-- A colon divides hours, minutes and seconds; after those it stands for the point of a
fraction. -/
def atColon (s : Sketch) : Sketch :=
  if s.minute.start = 0 then
    { s with
      minute := { s.minute with start := i + 1 }
      hour := { s.hour with length := i - s.hour.start } }
  else if s.second.start = 0 then
    { s with second := { s.second with start := i + 1 } }.minuteUpTo i
  else
    let text := s.text.take i ++ '.' :: s.text.drop (i + 1)
    let s := s.secondUpTo i |>.mark s.second.start "05" |>.mark i "."
    { s with fraction := { s.fraction with start := i + 1 }, text, kept := text }

def atOffset (s : Sketch) : Sketch :=
  let s :=
    if s.second.start = 0 then s.minuteUpTo i
    else
      let s := if s.second.length = 0 then s.secondUpTo i else s
      if s.fraction.start > 0 ∧ s.fraction.length = 0 then s.fractionUpTo i else s
  { s with clock := .offset, offset := i }

def startStep (i : Nat) (s : Sketch) : Move :=
  let s := if s.hour.start = 0 then { s with hour := { s.hour with start := i } } else s
  let onward (s : Sketch) : Move := .next s (i + 1)
  if c = ',' then .again (s.kept.take i ++ '.' :: s.kept.drop (i + 1))
  else if c = '-' ∨ c = '+' then onward (s.atOffset i)
  else if c = '.' then
    onward { s.secondUpTo i with
      clock := .fraction, fraction := { s.fraction with start := i + 1 } }
  else if c = 'Z' then
    onward ((if s.second.start = 0 then s.minuteUpTo i else s.secondUpTo i).withClock .zulu)
  else if (c = 'a' ∨ c = 'A') ∧ (s.isNext i 't' || s.isNext i 'T') then
    if s.isNext (i + 1) ' ' then .next { s with hour := { s.hour with start := 0 } } (i + 3)
    else .next s (i + 2)
  else if c = 'a' ∧ s.isNext i 'm' then onward (s.closeTime i |>.mark i "am")
  else if c = 'A' ∧ s.isNext i 'M' then onward (s.closeTime i |>.mark i "PM")
  else if c = 'p' ∧ s.isNext i 'm' then onward (s.closeTime i |>.mark i "pm")
  else if c = 'P' ∧ s.isNext i 'M' then onward (s.closeTime i |>.mark i "PM")
  else if c = ' ' then onward (s.closeTime i |>.withClock .blank)
  else if c = ':' then onward (s.atColon i)
  else onward s

def isAfterM (s : Sketch) : Bool := 0 < i && s.text[i - 1]? == some 'm'

def yearThrough (s : Sketch) : Sketch :=
  let s := { s with year := { s.year with length := i - s.year.start + 1 } }
  if s.year.length = 4 then s.markYear else s

/-- The step that a byte takes after hours, minutes and seconds. A word after an offset or a
fraction ends the search. -/
def timeStep (i : Nat) (s : Sketch) : Move :=
  let isLetter := Text.isLetter c
  let isSign := c = '+' ∨ c = '-'
  let stay : Move := .next s (i + 1)
  let onward (clock : Clock) (s : Sketch) : Move := .next (s.withClock clock) (i + 1)
  let zoneFrom (i : Nat) (s : Sketch) : Sketch := { s with zone := { s.zone with start := i } }
  match s.clock with
  | .offset => if c = ':' then onward .offsetColon s else stay
  | .blank =>
    if c = 'A' ∨ c = 'P' then onward .noonOrWord (zoneFrom i s)
    else if isSign then onward .blankOffset { s with offset := i }
    else if isLetter then onward .word (zoneFrom i s)
    else if Number.isDigit c then onward .year (s.yearFrom i)
    else stay
  | .word =>
    if isSign then onward .wordOffset { s.zoneUpTo i with offset := i }
    else if c = ' ' then onward .wordBlank (s.zoneUpTo i |>.yearFrom (i + 1))
    else stay
  | .wordOffset =>
    if c = ' ' then
      let s := s.mark s.offset "-0700"
      onward .wordOffsetBlank (if s.year.start = 0 then s.yearFrom (i + 1) else s)
    else stay
  | .wordOffsetBlank =>
    if Number.isDigit c then onward .wordOffsetYear s
    else onward .wordOffsetExtra { s with extra := i - 1 }
  | .wordOffsetYear => if Number.isDigit c then .next (s.yearThrough i) (i + 1) else stay
  | .noonOrWord =>
    if c = 'M' then
      let s := s.mark (i - 1) "PM"
      onward .noon (if s.hour.length = 2 then s.mark s.hour.start "03"
        else if s.hour.length = 1 then s.mark s.hour.start "3" else s)
    else onward .word s
  | .blankOffset =>
    if c = ':' then onward .blankOffsetColon s
    else if c = ' ' then onward .blankOffsetBlank (s.mark s.offset "-0700" |>.yearFrom (i + 1))
    else stay
  | .blankOffsetBlank =>
    if c = '=' then if s.isAfterM i then .next (s.trim (i - 2)) (i + 1) else stay
    else if isSign ∨ c = '(' then onward .blankOffset (s.trim (i - 1))
    else if Number.isDigit c then .next (s.yearThrough i) (i + 1)
    else if isLetter ∧ s.zone.start = 0 then .next (zoneFrom i s) (i + 1)
    else stay
  | .blankOffsetColon => if isLetter then .done (s.withClock .blankOffsetColonWord) i else stay
  | .fraction =>
    if c = ' ' then onward .fractionBlank (s.fractionUpTo i)
    else if isSign then onward .fractionOffset { s.fractionUpTo i with offset := i }
    else if isLetter then onward .fractionWord (s.fractionUpTo i)
    else stay
  | .fractionOffset => if c = ':' then onward .fractionOffsetColon s else stay
  | .fractionOffsetColon =>
    if c = ' ' then onward .fractionOffsetColonBlank (zoneFrom (i + 1) (s.mark s.offset "-07:00"))
    else stay
  | .fractionBlank =>
    let s := if s.offset = 0 then { s with offset := i } else s
    if isSign then onward .fractionBlankOffset (s.fractionUpTo (i - 1))
    else if isLetter then .done (s.withClock .fractionBlankOffsetWord) i
    else .next s (i + 1)
  | .fractionBlankOffset =>
    if c = ':' then onward .fractionBlankOffsetColon s
    else if c = ' ' then .next (s.mark s.offset "-0700") (i + 1)
    else if isSign then .next (s.trim (i - 1)) (i + 1)
    else if isLetter then onward .fractionBlankOffsetWord s
    else stay
  | .fractionBlankOffsetWord =>
    if c = '=' && s.isAfterM i then .next (s.trim (i - 2)) (i + 1) else stay
  | .fractionBlankOffsetColon =>
    if c = ' ' then .next (s.mark s.offset "-07:00") (i + 1)
    else if isLetter then onward .fractionBlankOffsetColonWord (zoneFrom i s)
    else stay
  | .zulu => if Number.isDigit c then onward .zuluDigit s else stay
  | _ => stay

def lookThroughTime : Nat → Nat → Sketch → Move
  | 0, i, s => .done s i
  | fuel + 1, i, s =>
    match s.text[i]? with
    | none => .done s i
    | some c =>
      match if s.clock = .start then s.startStep c i else s.timeStep c i with
      | .next s i => lookThroughTime fuel i s
      | other => other

/-- The last part of a time of day, which ends where the text ends, or `none` for an offset that is
none. -/
def closeClock (s : Sketch) : Option Sketch :=
  let zoneEnds (s : Sketch) (length : Nat) : Sketch :=
    if length = 3 then s.mark s.zone.start "MST"
    else if length = 4 then s.mark s.zone.start "MST " else s
  let left (start : Nat) : Nat := s.kept.length - start
  match s.clock with
  | .word => some (zoneEnds s (left s.zone.start))
  | .wordBlank | .year => some (s.yearUpTo i)
  | .wordOffsetExtra => some (s.trim s.extra)
  | .wordOffset => some (s.mark s.offset (if i - s.offset < 4 then "-07" else "-0700"))
  | .fraction => some (s.fractionUpTo i)
  | .offset =>
    if left s.offset < 3 ∨ left s.offset = 4 then none
    else if left s.offset = 3 then some (s.mark s.offset "-07")
    else if left s.offset = 5 then some (s.mark s.offset "-0700")
    else some s
  | .blankOffset | .fractionOffset | .fractionBlankOffset => some (s.mark s.offset "-0700")
  | .blankOffsetBlank => some (if s.zone.start > 0 then zoneEnds s (left s.zone.start) else s)
  | .blankOffsetColon | .offsetColon | .fractionOffsetColon => some (s.mark s.offset "-07:00")
  | .fractionBlankOffsetColonWord =>
    some (zoneEnds { s with zone := { s.zone with length := i - s.zone.start } } (i - s.zone.start))
  | _ => some s

/-! ### Moments -/

/-- A whole number in units of so many nanoseconds since the start of the year 1970. A number of
nanoseconds has 64 bits. -/
def ofCount (unit : Int) (digits : List Char) : Option Moment :=
  ((Number.readNat? digits).filter fun n => Number.fits 64 n).map fun n =>
    .ofInstant (if unit = 1000000000 then n * unit else Number.wrap 64 (n * unit)) {}

def read : Option Moment :=
  let layout :=
    if s.monthName > 0 ∧ s.month.start = 0 then
      "January".toList ++ s.layout.drop s.monthName else s.layout
  if s.skipped > 0 ∧ layout.length > s.skipped then
    readBy (layout.drop s.skipped) (s.kept.drop s.skipped)
  else readBy layout s.kept

def readAs (layout : String) (s : Sketch) : Option Moment :=
  readBy (Text.bytesOf layout.toList) s.kept

/-- A number without anything else: a day, a year, or a count of seconds or their parts. -/
def readNumber : Option Moment :=
  match s.text.length with
  | 19 => ofCount 1 s.text
  | 16 => ofCount 1000 s.text
  | 14 => s.readAs "20060102150405"
  | 13 => ofCount 1000000 s.text
  | 10 => ofCount 1000000000 s.text
  | 8 => s.readAs "20060102"
  | 4 => s.readAs "2006"
  | _ => none

def moment? (s : Sketch) : Option Moment :=
  match s.form with
  | .number => s.readNumber
  | .isoOffset =>
    let left := s.kept.length - s.offset
    (if left = 5 then s.mark s.offset "-0700" else if left = 6 then s.mark
      s.offset "-07:00" else s).read
  | .yearDashName => (s.dayUpTo i).read
  | .dayDashNameDash => (s.nameInMiddle (s.text.length - (s.month.start + s.month.length + 1))).read
  | .dot => (s.monthUpTo i).read
  | .dayLongMonth => s.readAs (if s.day.length = 2 then "02 January 2006" else "2 January 2006")
  | .longMonth | .monthDayYear => (s.yearUpTo i).read
  | .ideographs => s.readAs "2006年01月02日"
  | .ideographsTime => s.readAs "2006年01月02日 15:04:05"
  | .sixDigits | .yearDash | .yearDashDash | .isoDay | .twoDots | .dayShortMonth | .longMonthYear
  | .monthDayYearTime | .twoWords | .monthDay | .monthDayBlank | .slash
    | .daySlashName | .yearSlash | .colon
  | .weekday | .shortWeekday => s.read
  | .start | .dayDash | .dayDashName | .dayBlank | .word | .wordBlank
    | .monthDayComma | .longMonthDay
  | .ordinal | .shortMonthDot => none

end Sketch

open Sketch in
/-- Reads a date with or without a time of day, however it is written. A text may stand for another
that is shorter or has a point for a comma; the fuel counts such texts. -/
def readAny : Nat → List Char → Option Moment
  | 0, _ => none
  | fuel + 1, text =>
    let steps := 2 * text.length + 1
    match lookThrough steps 0 (.ofText text) with
    | .again text => readAny fuel text
    | .refused | .next _ _ => none
    | .done s i =>
      let s := s.closeDate i
      if s.clock ≠ .start then s.moment? i
      else
        let first := i + 1 + ((s.text.drop (i + 1)).takeWhile (· = ' ')).length
        match lookThroughTime steps (min first s.text.length) s with
        | .again text => readAny fuel text
        | .refused | .next _ _ => none
        | .done s i => (s.closeClock i).bind fun s => (s.closeTime i).moment? i

end SqlAnalysis.Calendar

import SqlAnalysis.Number.Binary64
import SqlAnalysis.Tree.Basic

/-!
Writing trees in the notation that the reader takes.
-/

namespace SqlAnalysis.Script

def qualifierText (q : Qualifier) : String :=
  if q.first = q.last then q.first.toText else q.first.toText ++ " TO " ++ q.last.toText

def intervalTail (yearMonth : Bool) : Nat → List Int → String
  | _, [] => ""
  | unit, n :: ns =>
    let separator := if yearMonth then "-" else if unit = TimeUnit.day.rank then " " else ":"
    let number :=
      if yearMonth then Number.intText n
      else if n < 0 then Number.intText n else Number.padded 2 n.toNat
    separator ++ number ++ intervalTail yearMonth (unit + 1) ns

def intervalText (v : IntervalValue) : String :=
  let sign := if v.negative then "-" else ""
  match v.fields with
  | [] => sign
  | n :: ns =>
    sign ++ Number.intText n ++ intervalTail v.qualifier.isYearMonth v.qualifier.first.rank ns

def hexText (bytes : List Nat) : String :=
  String.ofList (bytes.flatMap fun b => Text.hexDigits 2 b)

def braced (s : String) : String := "\x7b" ++ s ++ "\x7d"

def literalText : Literal → String
  | .null => "null"
  | .boolean .false => "false"
  | .boolean .true => "true"
  | .boolean .unknown => "unknown"
  | .exact d => d.toText
  | .approximate d => d.approximateText
  | .symbol s => "#" ++ s
  | .char v =>
    let text := Literal.quoted v.value
    match v.collation with
    | some c => braced ("COLLATE " ++ text ++ " " ++ c.name)
    | none => if v.charset = "" then text else braced ("CHARSET " ++ text ++ " " ++ v.charset)
  | .binary bytes => braced ("BINARY '" ++ hexText bytes ++ "'")
  | .date m => braced ("DATE '" ++ m.dayText ++ "'")
  | .time m p => braced ("TIME '" ++ m.timeText ++ m.fractionText p ++ "'")
  | .timestamp m p =>
    braced ("TIMESTAMP '" ++ m.dayText ++ " " ++ m.timeText ++ m.fractionText p ++ "'")
  | .interval v => braced ("INTERVAL '" ++ intervalText v ++ "' " ++ qualifierText v.qualifier)

def identifierText (i : Identifier) : String :=
  match i.collation with
  | some c => braced ("COLLATE " ++ i.toText ++ " " ++ c.name)
  | none => i.toText

def typeSpecText (s : TypeSpec) : String :=
  let precision :=
    if s.precision = ScalarName.noPrecision then ""
    else if s.scale = ScalarName.noPrecision then " " ++ Number.intText s.precision
    else " " ++ Number.intText s.precision ++ " " ++ Number.intText s.scale
  let charset := if s.charset = "" then "" else " CHARSET " ++ s.charset
  braced ("TYPE " ++ Text.join " " s.names ++ precision ++ charset)

def slotTexts (write : Link → String) : List String → List Link → String
  | slot :: slots, some id :: operands =>
    " :" ++ slot ++ " " ++ write (some id) ++ slotTexts write slots operands
  | _ :: slots, none :: operands => slotTexts write slots operands
  | _, _ => ""

def callText (write : Link → String) (c : Call) : String :=
  let operands :=
    if !c.operator.slots.isEmpty then slotTexts write c.operator.slots c.operands
    else if c.operands.isEmpty then ""
    else " " ++ Text.join " " (c.operands.map write)
  "(" ++ Text.replaceChar ' ' '_' c.operator.name ++ operands ++ ")"

def writeUpTo (t : Tree) : Nat → Link → String
  | 0, _ => "_"
  | depth + 1, id =>
    match t.form? id with
    | none => "_"
    | some (.call c) => callText (writeUpTo t depth) c
    | some (.list items) => "[" ++ Text.join " " (items.map (writeUpTo t depth)) ++ "]"
    | some (.identifier i) => identifierText i
    | some (.literal l) => literalText l
    | some (.parameter _) => "?"
    | some (.typeSpec s) => typeSpecText s
    | some (.qualifier q) => braced ("QUALIFIER " ++ qualifierText q)

def write (t : Tree) (id : Link) : String := writeUpTo t (id.getD 0 + 1) id

end SqlAnalysis.Script

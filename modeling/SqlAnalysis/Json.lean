import SqlAnalysis.Number.Digits
import SqlAnalysis.Text.Blank
import SqlAnalysis.Text.Quoted

/-!
Values written in JSON, on one line or with a line for each item. Object fields keep their order.
-/

namespace SqlAnalysis

inductive JsonValue where
  | string (s : String)
  | number (n : Int)
  | bool (b : Bool)
  | array (items : List JsonValue)
  | object (fields : List (String × JsonValue))
deriving Repr, Inhabited

namespace JsonValue

/-- A character of a string. Besides quotes, backslashes and control characters, those that could
end a script in a web page are escaped: angle brackets, the ampersand and the two separators of
lines and paragraphs. -/
def stringChar (c : Char) : List Char :=
  if c = '"' then ['\\', '"']
  else if c = '\\' then ['\\', '\\']
  else if c = '\n' then ['\\', 'n']
  else if c = '\r' then ['\\', 'r']
  else if c = '\t' then ['\\', 't']
  else if c = '\x08' then ['\\', 'b']
  else if c = '\x0c' then ['\\', 'f']
  else if c.toNat < 0x20 ∨ ['<', '>', '&', '\u2028', '\u2029'].contains c then
    '\\' :: 'u' :: Text.hexDigits 4 c.toNat
  else [c]

def stringText (s : String) : String :=
  "\"" ++ String.ofList (s.toList.flatMap stringChar) ++ "\""

structure Layout where
  /-- What an item that stands `depth` levels deep begins on a new line with; `none` keeps one
  line. -/
  indent : Option String := none
deriving Repr, DecidableEq

namespace Layout

def compact : Layout := {}

def indented : Layout := { indent := some "    " }

def newline (l : Layout) (depth : Nat) : String :=
  match l.indent with
  | none => ""
  | some unit => "\n" ++ Text.join "" (List.replicate depth unit)

def colon (l : Layout) : String := if l.indent.isSome then ": " else ":"

def enclose (l : Layout) (depth : Nat) (opening closing : String) (items : List String) : String :=
  if items.isEmpty then opening ++ closing
  else
    opening ++ Text.join "," (items.map fun i => l.newline (depth + 1) ++ i) ++
      l.newline depth ++ closing

end Layout

mutual

def write (l : Layout) (depth : Nat) : JsonValue → String
  | .string s => stringText s
  | .number n => Number.intText n
  | .bool b => if b then "true" else "false"
  | .array items => l.enclose depth "[" "]" (writeItems l (depth + 1) items)
  | .object fields => l.enclose depth "\x7b" "\x7d" (writeFields l (depth + 1) fields)

def writeItems (l : Layout) (depth : Nat) : List JsonValue → List String
  | [] => []
  | v :: vs => write l depth v :: writeItems l depth vs

def writeFields (l : Layout) (depth : Nat) : List (String × JsonValue) → List String
  | [] => []
  | (name, v) :: fs => (stringText name ++ l.colon ++ write l depth v) :: writeFields l depth fs

end

def toText (l : Layout) (v : JsonValue) : String := write l 0 v

end JsonValue

end SqlAnalysis

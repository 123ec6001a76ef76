import SqlAnalysis.Number.Digits
import SqlAnalysis.Text.Blank
import SqlAnalysis.Text.Quoted

/-!
Flags of a command line. A flag is given as `--name value`, `--name=value`, or by a single letter
after one dash, where letters of switches may stand together. Values are checked as they are met, so
that the first fault in reading order is the one reported; `--` ends the flags.
-/

namespace SqlAnalysis.CommandLine

inductive FlagKind where
  | text
  | texts
  | switch
  | integer
  | level
deriving Repr, DecidableEq

structure Flag where
  name : String
  letter : Option Char := none
  kind : FlagKind := .text
deriving Repr, DecidableEq

namespace Flag

def label (f : Flag) : String :=
  match f.letter with
  | some c => "-" ++ String.singleton c ++ ", --" ++ f.name
  | none => "--" ++ f.name

def implied? (f : Flag) : Option String := if f.kind = .switch then some "true" else none

end Flag

inductive ValueError where
  | notBool (value : String)
  | notInteger (value : String)
  | outOfRange (value : String)
  | notLevel (value : String)
deriving Repr, DecidableEq

def ValueError.message : ValueError → String
  | .notBool v => "strconv.ParseBool: parsing " ++ Text.quote v ++ ": invalid syntax"
  | .notInteger v => "strconv.ParseInt: parsing " ++ Text.quote v ++ ": invalid syntax"
  | .outOfRange v => "strconv.ParseInt: parsing " ++ Text.quote v ++ ": value out of range"
  | .notLevel v => "unrecognized level: " ++ Text.quote v

/-! ### Values -/

def readBool (s : String) : Except ValueError Bool :=
  if ["1", "t", "T", "true", "TRUE", "True"].contains s then .ok true
  else if ["0", "f", "F", "false", "FALSE", "False"].contains s then .ok false
  else .error (.notBool s)

/-- The base that a number is written in, and its digits: two, eight or sixteen after `0b`, `0o` or
`0x`, eight after any other leading zero, else ten. -/
def numberBase : List Char → Nat × List Char
  | '0' :: c :: d :: ds =>
    if c = 'b' ∨ c = 'B' then (2, d :: ds)
    else if c = 'o' ∨ c = 'O' then (8, d :: ds)
    else if c = 'x' ∨ c = 'X' then (16, d :: ds)
    else (8, c :: d :: ds)
  | '0' :: ds => (8, ds)
  | ds => (10, ds)

def digitValue? (c : Char) : Option Nat :=
  if Number.isDigit c then some (c.toNat - 48)
  else if 'a' ≤ c ∧ c ≤ 'z' then some (c.toNat - 87)
  else if 'A' ≤ c ∧ c ≤ 'Z' then some (c.toNat - 55)
  else none

/-- Reads digits of a base after the value of those before them. Underscores are passed over. -/
def readDigits (text : String) (base : Nat) : Nat → List Char → Except ValueError Nat
  | n, [] => .ok n
  | n, '_' :: cs => readDigits text base n cs
  | n, c :: cs =>
    match (digitValue? c).filter (· < base) with
    | none => .error (.notInteger text)
    | some d =>
      if base * n + d < 2 ^ 64 then readDigits text base (base * n + d) cs
      else .error (.outOfRange text)

/-- Whether each underscore stands between two digits; `afterDigit` says what stands before the
list. -/
def underscoresSeparate : Bool → List Char → Bool
  | afterDigit, [] => afterDigit
  | afterDigit, c :: cs =>
    if c = '_' then afterDigit && !cs.isEmpty && underscoresSeparate false cs
    else underscoresSeparate true cs

/-- A whole number of 64 bits, signed or not. One underscore may stand between digits and after a
mark of the base. -/
def readInteger (s : String) : Except ValueError Int := do
  let (negative, ds) := match s.toList with
    | '-' :: ds => (true, ds)
    | '+' :: ds => (false, ds)
    | ds => (false, ds)
  if ds.isEmpty then throw (.notInteger s)
  let (base, digits) := numberBase ds
  let n ← readDigits s base 0 digits
  if digits.contains '_' && !underscoresSeparate (ds.head? == some '0') digits then
    throw (.notInteger s)
  let n : Int := if negative then -n else n
  if Number.fits 64 n then return n else throw (.outOfRange s)

def levels : List String := ["debug", "info", "warn", "error", "dpanic", "panic", "fatal"]

def readLevel (s : String) : Except ValueError String :=
  let name := String.ofList (s.toList.map Char.toLower)
  if name = "" then .ok "info" else if levels.contains name then .ok name else .error (.notLevel s)

def FlagKind.check (value : String) : FlagKind → Except ValueError Unit
  | .text | .texts => .ok ()
  | .switch => do discard (readBool value)
  | .integer => do discard (readInteger value)
  | .level => do discard (readLevel value)

/-! ### Arguments -/

inductive FlagError where
  | malformed (argument : String)
  | unknown (name : String)
  | unknownLetter (letter : Char) (letters : String)
  | noValue (argument : String)
  | noLetterValue (letter : Char) (letters : String)
  | invalid (value : String) (flag : Flag) (e : ValueError)
  | help
deriving Repr, DecidableEq

/-- A letter between single quotes. Letters are single bytes, so of a longer character the first
byte is shown. -/
def quotedLetter (c : Char) : String :=
  let letter := ((String.utf8EncodeChar c).head?.map fun b => Char.ofNat b.toNat).getD c
  let shown :=
    if letter = '\'' then ['\\', '\''] else if letter = '"' then ['"'] else Text.quoteChar letter
  "'" ++ String.ofList shown ++ "'"

def FlagError.message : FlagError → String
  | .malformed a => "bad flag syntax: " ++ a
  | .unknown name => "unknown flag: --" ++ name
  | .unknownLetter c letters => "unknown shorthand flag: " ++ quotedLetter c ++ " in -" ++ letters
  | .noValue a => "flag needs an argument: " ++ a
  | .noLetterValue c letters => "flag needs an argument: " ++ quotedLetter c ++ " in -" ++ letters
  | .invalid value flag e =>
    "invalid argument " ++ Text.quote value ++ " for " ++ Text.quote flag.label ++
      " flag: " ++ e.message
  | .help => "pflag: help requested"

structure Arguments where
  given : List (String × String) := []
  operands : List String := []
deriving Repr, DecidableEq, Inhabited

namespace Arguments

variable (a : Arguments)

def values (name : String) : List String :=
  (a.given.filter fun g => g.1 == name).map Prod.snd

def value? (name : String) : Option String := (a.values name).getLast?

def text (name : String) : String := (a.value? name).getD ""

def isOn (name : String) : Bool :=
  ((a.value? name).bind fun v => (readBool v).toOption).getD false

def integer (name : String) (default : Int) : Int :=
  ((a.value? name).bind fun v => (readInteger v).toOption).getD default

end Arguments

abbrev Assigned := List (String × String) × Bool

def assign (f : Flag) (value : String) (usesNext : Bool) : Except FlagError Assigned := do
  (f.kind.check value).mapError (.invalid value f)
  return ([(f.name, value)], usesNext)

def cutAtEquals (cs : List Char) : String × Option String :=
  let name := String.ofList (cs.takeWhile (· != '='))
  match cs.dropWhile (· != '=') with
  | [] => (name, none)
  | _ :: value => (name, some (String.ofList value))

def readNamed (flags : List Flag) (cs : List Char) (next : Option String) :
    Except FlagError Assigned :=
  let argument := "--" ++ String.ofList cs
  if ['-', '='].any fun c => cs.head? == some c then .error (.malformed argument)
  else
    let (name, given) := cutAtEquals cs
    match flags.find? fun f => f.name == name with
    | none => .error (if name = "help" then .help else .unknown name)
    | some f =>
      match given, f.implied?, next with
      | some value, _, _ => assign f value false
      | none, some value, _ => assign f value false
      | none, none, some value => assign f value true
      | none, none, none => .error (.noValue argument)

/-- Flags given by their letters, after the single dash. Those that start with `test.` speak to the
runner of a test and are passed over. -/
def readLetters (flags : List Flag) (next : Option String) : List Char → Except FlagError Assigned
  | [] => .ok ([], false)
  | c :: cs =>
    let letters := String.ofList (c :: cs)
    if "test.".toList.isPrefixOf (c :: cs) then .ok ([], false)
    else match flags.find? fun f => f.letter == some c with
    | none => .error (if c = 'h' then .help else .unknownLetter c letters)
    | some f =>
      match cs, f.implied?, next with
      | '=' :: d :: ds, _, _ => assign f (String.ofList (d :: ds)) false
      | _, some value, _ => do
        let (first, _) ← assign f value false
        let (rest, usesNext) ← readLetters flags next cs
        return (first ++ rest, usesNext)
      | _ :: _, none, _ => assign f (String.ofList cs) false
      | [], none, some value => assign f value true
      | [], none, none => .error (.noLetterValue c letters)

def readArguments (flags : List Flag) (a : Arguments) : List String → Except FlagError Arguments
  | [] => .ok a
  | arg :: rest =>
    let flag : Option (Except FlagError Assigned) := match arg.toList with
      | '-' :: '-' :: c :: cs => some (readNamed flags (c :: cs) rest.head?)
      | '-' :: c :: cs => if c = '-' then none else some (readLetters flags rest.head? (c :: cs))
      | _ => none
    match flag with
    | some (.error e) => .error e
    | some (.ok (given, usesNext)) =>
      let a := { a with given := a.given ++ given }
      match usesNext, rest with
      | true, _ :: rest => readArguments flags a rest
      | _, rest => readArguments flags a rest
    | none =>
      if arg = "--" then .ok { a with operands := a.operands ++ rest }
      else readArguments flags { a with operands := a.operands ++ [arg] } rest

end SqlAnalysis.CommandLine

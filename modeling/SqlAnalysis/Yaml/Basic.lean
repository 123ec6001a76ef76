import SqlAnalysis.Calendar.Layout
import SqlAnalysis.Yaml.Error
import SqlAnalysis.Yaml.Numeral

/-!
Documents of nested mappings, sequences and scalars. A tag says what a scalar means: a plain scalar
has the tag of a number, a truth value, a date or nothing when it is spelled like one, a quoted
scalar that of a text, and any scalar may be given a tag.
-/

namespace SqlAnalysis

/-- A document or a part of one, with the line that it starts on. A reference stands for the part at
the anchor of number `place`; its own number tells it apart from other references. -/
inductive Yaml where
  | scalar (line : Nat) (tag text : String)
  | sequence (line : Nat) (tag : String) (items : List Yaml)
  | mapping (line : Nat) (tag : String) (entries : List (Yaml × Yaml))
  | reference (line number place : Nat) (anchor : String)
deriving Repr, Inhabited

structure YamlDocument where
  root : Yaml
  anchored : List (Nat × Yaml) := []
  /-- How many steps lead from a part to a part inside it at most. -/
  depth : Nat := 1
deriving Repr, Inhabited

namespace Yaml

/-! ### Meaning -/

inductive Meaning where
  | nothing
  | truth (value : Bool)
  | number (n : Numeral)
  | date
  | text (value : String)
deriving Repr, DecidableEq

def Meaning.tag : Meaning → String
  | .nothing => "!!null"
  | .truth _ => "!!bool"
  | .number (.whole _) => "!!int"
  | .number _ => "!!float"
  | .date => "!!timestamp"
  | .text _ => "!!str"

def nullWords : List String := ["", "~", "null", "Null", "NULL"]

def trueWords : List String := ["true", "True", "TRUE"]

def falseWords : List String := ["false", "False", "FALSE"]

def dateLayouts : List String :=
  ["2006-1-2T15:4:5.999999999Z07:00", "2006-1-2t15:4:5.999999999Z07:00",
    "2006-1-2 15:4:5.999999999", "2006-1-2"]

def isDate (text : String) : Bool :=
  let bytes := Text.bytesOf text.toList
  (bytes.takeWhile Number.isDigit).length == 4 && bytes[4]? == some '-' &&
    dateLayouts.any fun layout => (Calendar.readBy layout.toList bytes).isSome

/-- The meaning that a text has by its spelling, which may be that of a date if `dates`. -/
def spelled (dates : Bool) (text : String) : Meaning :=
  if nullWords.contains text then .nothing
  else if trueWords.contains text then .truth true
  else if falseWords.contains text then .truth false
  else if dates && isDate text then .date
  else match numeral? text with
    | some n => .number n
    | none => .text text

/-! ### Tags -/

def standardTags : String := "tag:yaml.org,2002:"

def shortTag (tag : String) : String :=
  if standardTags.isPrefixOf tag then "!!" ++ (tag.drop standardTags.length).toString else tag

def mergeTag : String := "!!merge"

def plainTag (text : String) : String := if text = "<<" then mergeTag else (spelled true text).tag

def spelledTags : List String := ["!!null", "!!bool", "!!int", "!!float", "!!timestamp"]

def sextet? (c : Char) : Option Nat :=
  if c.isUpper then some (c.toNat - 65)
  else if c.isLower then some (c.toNat - 71)
  else if Number.isDigit c then some (c.toNat + 4)
  else if c = '+' then some 62
  else if c = '/' then some 63
  else none

/-- The bytes that characters stand for four of which are three bytes. -/
def readBinary? : List Char → Option (List Char)
  | [] => some []
  | [a, b, '=', '='] => do
    let n := (← sextet? a) * 64 + (← sextet? b)
    return [Char.ofNat (n / 16)]
  | [a, b, c, '='] => do
    let n := ((← sextet? a) * 64 + (← sextet? b)) * 64 + (← sextet? c)
    return [Char.ofNat (n / 1024), Char.ofNat (n / 4 % 256)]
  | a :: b :: c :: d :: rest => do
    let n := (((← sextet? a) * 64 + (← sextet? b)) * 64 + (← sextet? c)) * 64 + (← sextet? d)
    return Char.ofNat (n / 65536) :: Char.ofNat (n / 256 % 256) :: Char.ofNat (n % 256) ::
      (← readBinary? rest)
  | _ => none

/-- The text of which a text holds the bytes, in lines of any length. -/
def binaryText? (text : String) : Option String :=
  (readBinary? (text.toList.filter fun c => c ≠ '\n' ∧ c ≠ '\r')).map (String.ofList ∘ Text.ofBytes)

/-- The meaning of a scalar. A tag for numbers, truth values, dates or nothing has to agree with the
spelling, but that a whole number is also a fraction; under any other tag a scalar is text. -/
def meaning (tag text : String) : Except YamlError Meaning :=
  if tag = "!!binary" then match binaryText? text with
    | some text => .ok (.text text)
    | none => .error .badBinary
  else if !spelledTags.contains tag then .ok (.text text)
  else
    let own := spelled (tag = "!!timestamp") text
    let asFraction : Option Meaning := match own with
      | .number (.whole n) =>
        if tag = "!!float" && Number.fits 64 n then
          some (.number (.fraction (n < 0) (Binary64.ofDecimal ⟨n, 0⟩)))
        else none
      | _ => none
    if own.tag = tag then .ok own
    else match asFraction with
      | some own => .ok own
      | none => .error (.wrongTag own.tag text tag)

/-! ### Parts -/

def line : Yaml → Nat
  | .scalar line .. | .sequence line .. | .mapping line .. | .reference line .. => line

def plain (line : Nat) (text : String) : Yaml := .scalar line (plainTag text) text

def empty (line : Nat) : Yaml := plain line ""

end Yaml

end SqlAnalysis

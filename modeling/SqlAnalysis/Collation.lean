import SqlAnalysis.Charset
import SqlAnalysis.Locale
import SqlAnalysis.Number.Digits

/-!
Collations of character values and the rules by which the collations of two operands combine. How
firmly a collation is attached to a value is its coercibility: that of a literal yields to that of a
column, and both yield to a collation that the statement names.
-/

namespace SqlAnalysis

inductive Coercibility where
  | none
  | coercible
  | implicit
  | explicit
  | unlisted (rank : Int)
deriving Repr, DecidableEq, Inhabited

namespace Coercibility

def rank : Coercibility → Int
  | .none => 0
  | .coercible => 1
  | .implicit => 2
  | .explicit => 3
  | .unlisted r => r

def ofRank : Int → Coercibility
  | 0 => .none
  | 1 => .coercible
  | 2 => .implicit
  | 3 => .explicit
  | r => .unlisted r

def toText : Coercibility → String
  | .none => "NONE"
  | .coercible => "COERCIBLE"
  | .implicit => "IMPLICIT"
  | .explicit => "EXPLICIT"
  | .unlisted r => "Coercibility(" ++ Number.intText r ++ ")"

end Coercibility

/-- A collation attached to a value: its name, the character set it orders, and how firmly it is
attached. -/
structure Collation where
  name : String := ""
  charset : String := ""
  coercibility : Coercibility := .none
deriving Repr, DecidableEq, Inhabited

inductive CollationError where
  | unknownCharset (name : String)
  | malformedName (name : String)
  | badLocale (name locale : String) (cause : LocaleError)
  | unknownStrength (name strength : String)
deriving Repr, DecidableEq

def CollationError.message : CollationError → String
  | .unknownCharset name => "unknown character set " ++ Text.quote name
  | .malformedName name => "malformed collation name " ++ Text.quote name
  | .badLocale name locale cause =>
    "collation " ++ Text.quote name ++ ": bad locale " ++ Text.quote locale ++ ": " ++ cause.message
  | .unknownStrength name strength =>
    "collation " ++ Text.quote name ++ ": unknown strength " ++ Text.quote strength

inductive MergeError where
  | incompatible (left right : String)
  | noCommon
  | unknownCoercibility (c : Coercibility)
deriving Repr, DecidableEq

def MergeError.message : MergeError → String
  | .incompatible left right =>
    "incompatible collations " ++ Text.quote left ++ " and " ++ Text.quote right
  | .noCommon => "no common collation"
  | .unknownCoercibility c => "unknown coercibility " ++ c.toText

def Charset.canonical (name : String) : Except CollationError String :=
  match Charset.canonical? name with
  | some preferred => .ok preferred
  | none => .error (.unknownCharset name)

namespace Collation

def defaultCharset : String := "ISO-8859-1"

def defaultName : String := "ISO-8859-1$en_US$primary"

def strengths : List String := ["primary", "secondary", "tertiary", "identical"]

structure Parts where
  charset : String
  locale : Locale
  strength : String
deriving Repr, DecidableEq

def parseStrength (name : String) : Option String → Except CollationError String
  | none => .ok "primary"
  | some s =>
    let strength := Text.lower s
    if strengths.contains strength then .ok strength else .error (.unknownStrength name s)

def parse (name : String) : Except CollationError Parts := do
  let (charset, locale, strength) ← match Text.split '$' name with
    | [charset, locale] => .ok (charset, locale, none)
    | [charset, locale, strength] => .ok (charset, locale, some strength)
    | _ => .error (.malformedName name)
  let charset ← Charset.canonical charset
  let tag ← (Locale.parse (Text.replaceChar '_' '-' locale)).mapError (.badLocale name locale)
  let strength ← parseStrength name strength
  return { charset, locale := tag, strength }

def ofName (name : String) (c : Coercibility) : Except CollationError Collation := do
  let parts ← parse name
  return { name, charset := parts.charset, coercibility := c }

def default (c : Coercibility) : Collation :=
  { name := defaultName, charset := defaultCharset, coercibility := c }

def isZero (c : Collation) : Bool := c == {}

def withCoercibility (c : Collation) (s : Coercibility) : Collation := { c with coercibility := s }

def toText (c : Collation) : String :=
  if c.name = "" then c.coercibility.toText else c.coercibility.toText ++ " " ++ c.name

/-- The collation that governs an operation on two character values. The firmer of the two wins; two
different collations that are equally firm have no winner, and two that the statement names are
refused. -/
def merge (left right : Collation) : Except MergeError Collation :=
  match left.coercibility, right.coercibility with
  | .coercible, .coercible => .ok left
  | .coercible, .implicit => .ok right
  | .coercible, .explicit => .ok right
  | .coercible, _ => .error .noCommon
  | .implicit, .coercible => .ok left
  | .implicit, .implicit => if left.name = right.name then .ok left else .error .noCommon
  | .implicit, .explicit => .ok right
  | .implicit, _ => .error .noCommon
  | .none, .explicit => .ok right
  | .none, _ => .error .noCommon
  | .explicit, .explicit =>
    if left.name = right.name then .ok left else .error (.incompatible left.name right.name)
  | .explicit, _ => .ok left
  | .unlisted r, _ => .error (.unknownCoercibility (.unlisted r))

end Collation

end SqlAnalysis

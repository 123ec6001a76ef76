import SqlAnalysis.Analysis.State

/-!
The types of constants and of types that a statement names.
-/

namespace SqlAnalysis

def Collation.ofCharset (charset : String) (coercibility : Coercibility) : Collation :=
  { name := charset ++ "$en_US", charset, coercibility }

namespace Literal

/-- An exact number is an integer type when it has no places and fits one, else a decimal with its
digits. -/
def exactType (d : Decimal) : TypeM SqlType :=
  if 0 ≤ d.exponent then
    if Number.fits 32 d.truncate then TypeTable.scalar .integer
    else if Number.fits 64 d.truncate then TypeTable.scalar .bigint
    else TypeTable.decimal (Number.digitCount d.truncate.natAbs) 0
  else
    let scale := -d.exponent
    TypeTable.decimal (max (d.coefficientDigits : Int) scale) scale

/-- The collation of a character constant: the one it names, or that of the settings unless it names
another character set. -/
def charCollation (config : Config) (v : CharString) : Collation :=
  match v.collation with
  | some c => c.withCoercibility .explicit
  | none =>
    let base := config.literalCollation
    match (if v.charset = "" then none else Charset.canonical? v.charset) with
    | some charset => if charset = base.charset then base else .ofCharset charset .coercible
    | none => base

def sqlType (config : Config) : Literal → TypeM SqlType
  | .boolean v => do
    let t ← TypeTable.scalar .boolean
    TypeTable.withNullable (v == .unknown) t
  | .exact d => exactType d
  | .approximate _ => TypeTable.scalar .double
  | .char v => TypeTable.char .char v.value.length (charCollation config v)
  | .binary bytes => TypeTable.scalarOf .binary bytes.length
  | .date _ => TypeTable.scalar .date
  | .time _ p => TypeTable.scalarOf .time p
  | .timestamp _ p => TypeTable.scalarOf .timestamp p
  | .interval v => TypeTable.interval v.qualifier
  | .symbol _ => TypeTable.scalar .symbol
  | .null => TypeTable.null

end Literal

namespace Analysis

def charSpec (id : Link) (name : ScalarName) (precision : Int) (charset : String) :
    AnalysisM SqlType := do
  let base := Collation.default .implicit
  if charset = "" then building (TypeTable.char name precision base)
  else match Charset.canonical? charset with
    | none => refuse id (.unknownCharset charset)
    | some c =>
      building
        (TypeTable.char name precision (if c = base.charset then base else .ofCharset c .implicit))

def builtinSpec (id : Link) (s : TypeSpec) (name : TypeName) : AnalysisM SqlType :=
  let precision := if s.precision ≤ 0 then name.defaultPrecision else s.precision
  match name with
  | .scalar .decimal => building (TypeTable.decimal precision s.scale)
  | .scalar .char => charSpec id .char precision s.charset
  | .scalar .varchar => charSpec id .varchar precision s.charset
  | .multiset => throw (.faulted .absent)
  | _ => building (TypeTable.ofNamePrecision name precision)

def catalogSpec (id : Link) (names : List String) : AnalysisM SqlType := do
  let reader := (← read).catalog
  let answer ← modifyGet fun a =>
    let (answer, lookups) := a.lookups.type reader names
    (answer, { a with lookups })
  match answer with
  | .error e => throw (.catalog e)
  | .ok none => refuse id (.unknownType (Text.join "." names))
  | .ok (some t) => building (TypeTable.adopt t)

def namedType (id : Link) (s : TypeSpec) : AnalysisM SqlType :=
  match s.names with
  | [name] =>
    match TypeName.ofText? name with
    | some n => builtinSpec id s n
    | none => catalogSpec id s.names
  | _ => catalogSpec id s.names

end Analysis

end SqlAnalysis

import SqlAnalysis.Data.Table
import SqlAnalysis.SqlType.Basic

/-!
Type tables. Every type that an analysis works with is built through a table, which keeps one type
for each full text and nullability: the first one built. Two types of one table are the same exactly
when their keys agree, which `same` decides without looking at their parts.
-/

namespace SqlAnalysis

structure TypeKey where
  text : String
  nullable : Bool
deriving Repr, DecidableEq

def SqlType.key (t : SqlType) : TypeKey := { text := t.fullText, nullable := t.nullable }

def SqlType.same (a b : SqlType) : Bool := a.key == b.key

abbrev TypeTable := Table TypeKey SqlType

abbrev TypeM := StateM TypeTable

namespace TypeTable

/-- The type kept for the key of `t`, which is `t` itself when the key is new. -/
def intern (t : SqlType) : TypeM SqlType := fun table =>
  match table.get? t.key with
  | some kept => (kept, table)
  | none => (t, table.insert t.key t)

/-- `DECIMAL` with its precision brought into range and its scale at most the precision. -/
def decimal (precision scale : Int) : TypeM SqlType :=
  let most := ScalarName.maxNumericPrecision
  let precision := if precision ≤ 0 || precision > most then most else precision
  let scale := if scale > precision then precision else scale
  intern (.scalar { name := .decimal, precision, scale } false)

/-- A character type with the given collation; a collation without a character set belongs to the
default one. -/
def char (name : ScalarName) (precision : Int) (collation : Collation) : TypeM SqlType :=
  let precision := if precision = ScalarName.noPrecision then name.defaultPrecision else precision
  let charset := if collation.charset = "" then Collation.defaultCharset else collation.charset
  intern (.scalar { name, precision, charset, collation } false)

def null : TypeM SqlType := intern .null

def interval (q : Qualifier) : TypeM SqlType := intern (.interval q false)

def row (fields : List Field) : TypeM SqlType := intern (.row fields false)

def multiset (element : SqlType) : TypeM SqlType := intern (.multiset element false)

def scalarOf (name : ScalarName) (precision : Int) : TypeM SqlType :=
  match name with
  | .decimal => decimal precision 0
  | .char | .varchar => char name precision (.default .coercible)
  | _ =>
    intern (.scalar
      { name, precision := if name.allowsPrecision then precision else ScalarName.noPrecision }
        false)

/-- The type of the given name and precision. A multiset is named with its element type, so its name
alone should not be asked for. -/
def ofNamePrecision (name : TypeName) (precision : Int) : TypeM SqlType :=
  match name with
  | .scalar n => scalarOf n precision
  | .intervalYearMonth => interval { first := .year, last := .month }
  | .intervalDayTime => interval { first := .day, last := .second }
  | .null => null
  | .row => row []
  | .multiset => multiset .unknown
  | .unknown => pure .unknown

def ofName (name : TypeName) : TypeM SqlType := ofNamePrecision name name.defaultPrecision

def scalar (name : ScalarName) : TypeM SqlType := ofName (.scalar name)

mutual
/-- The type with its nullability set; for a row, that of every field in it. -/
def withNullable (nullable : Bool) : SqlType → TypeM SqlType
  | .unknown => pure .unknown
  | .null => pure .null
  | .row fs _ => do
    let fs ← fieldsWithNullable nullable fs
    intern (.row fs nullable)
  | .scalar s n => if n = nullable then pure (.scalar s n) else intern (.scalar s nullable)
  | .interval q n => if n = nullable then pure (.interval q n) else intern (.interval q nullable)
  | .multiset e n => if n = nullable then pure (.multiset e n) else intern (.multiset e nullable)

def fieldsWithNullable (nullable : Bool) : List Field → TypeM (List Field)
  | [] => pure []
  | (name, t) :: fs => do
    let t ← withNullable nullable t
    let fs ← fieldsWithNullable nullable fs
    pure ((name, t) :: fs)
end

/-- The character type bound to another collation; any other type stays as it is. -/
def withCollation (collation : Collation) (t : SqlType) : TypeM SqlType :=
  match t with
  | .scalar s n =>
    if s.name.isChar then
      let charset := if collation.charset = "" then s.charset else collation.charset
      intern (.scalar { s with collation, charset } n)
    else pure t
  | _ => pure t

def withPrecision (precision : Int) (t : SqlType) : TypeM SqlType :=
  match t with
  | .scalar s n =>
    if s.name.allowsPrecision && s.precision != precision then
      intern (.scalar { s with precision } n)
    else pure t
  | _ => pure t

mutual
/-- The type of this table that is equal to `t`, which another table may have built. -/
def adopt : SqlType → TypeM SqlType
  | .unknown => pure .unknown
  | .row fs n => do
    let fs ← adoptFields fs
    intern (.row fs n)
  | .multiset e n => do
    let e ← adopt e
    intern (.multiset e n)
  | .scalar s n => intern (.scalar s n)
  | .interval q n => intern (.interval q n)
  | .null => intern .null

def adoptFields : List Field → TypeM (List Field)
  | [] => pure []
  | (name, t) :: fs => do
    let t ← adopt t
    let fs ← adoptFields fs
    pure ((name, t) :: fs)
end

end TypeTable

end SqlAnalysis

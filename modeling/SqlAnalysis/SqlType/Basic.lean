import SqlAnalysis.Collation
import SqlAnalysis.SqlType.Interval
import SqlAnalysis.SqlType.Name

/-!
Types of SQL values. A type has a text for readers and a full text that also shows character sets
and collations; the full text with the nullability is what a type table tells types apart by.
-/

namespace SqlAnalysis

/-- What a type without parts consists of, its nullability aside. The character set and collation
are meant for character types. -/
structure Scalar where
  name : ScalarName
  precision : Int := ScalarName.noPrecision
  scale : Int := 0
  charset : String := ""
  collation : Collation := {}
deriving Repr, DecidableEq, Inhabited

/-- The type of a value. `null` is the type of the null value alone and `unknown` that of an
expression whose type its context has to give. -/
inductive SqlType where
  | scalar (s : Scalar) (nullable : Bool)
  | interval (q : Qualifier) (nullable : Bool)
  | row (fields : List (String × SqlType)) (nullable : Bool)
  | multiset (element : SqlType) (nullable : Bool)
  | null
  | unknown
deriving Repr, Inhabited

abbrev Field := String × SqlType

namespace SqlType

def nullable : SqlType → Bool
  | .scalar _ n | .interval _ n | .row _ n | .multiset _ n => n
  | .null | .unknown => true

def name : SqlType → TypeName
  | .scalar s _ => .scalar s.name
  | .interval q _ => if q.isYearMonth then .intervalYearMonth else .intervalDayTime
  | .row _ _ => .row
  | .multiset _ _ => .multiset
  | .null => .null
  | .unknown => .unknown

def scalar? : SqlType → Option Scalar
  | .scalar s _ => some s
  | _ => none

def precision : SqlType → Int
  | .scalar s _ => s.precision
  | _ => ScalarName.noPrecision

def scale : SqlType → Int
  | .scalar s _ => s.scale
  | _ => 0

def charset : SqlType → String
  | .scalar s _ => s.charset
  | _ => ""

def collation : SqlType → Collation
  | .scalar s _ => s.collation
  | _ => {}

def fields : SqlType → List Field
  | .row fs _ => fs
  | _ => []

def element? : SqlType → Option SqlType
  | .multiset e _ => some e
  | _ => none

def qualifier? : SqlType → Option Qualifier
  | .interval q _ => some q
  | _ => none

def isScalar (p : ScalarName → Bool) : SqlType → Bool
  | .scalar s _ => p s.name
  | _ => false

def isNamed (n : ScalarName) (t : SqlType) : Bool := t.isScalar (· == n)

def isUnknown : SqlType → Bool
  | .unknown => true
  | _ => false

def isNull : SqlType → Bool
  | .null => true
  | _ => false

def isRow : SqlType → Bool
  | .row _ _ => true
  | _ => false

def isMultiset : SqlType → Bool
  | .multiset _ _ => true
  | _ => false

def isInterval : SqlType → Bool
  | .interval _ _ => true
  | _ => false

variable (t : SqlType)

def isBoolean : Bool := t.isNamed .boolean

def isAny : Bool := t.isNamed .any

def isChar (t : SqlType) : Bool := t.isScalar ScalarName.isChar

def isBinary (t : SqlType) : Bool := t.isScalar ScalarName.isBinary

def isDatetime (t : SqlType) : Bool := t.isScalar ScalarName.isDatetime

def isNumeric (t : SqlType) : Bool := t.isScalar ScalarName.isNumeric

def isExactNumeric (t : SqlType) : Bool := t.isScalar ScalarName.isExactNumeric

def field? (name : String) : Option (Nat × SqlType) :=
  match t.fields.findIdx? (fun f => f.1 == name) with
  | some k => (t.fields[k]?).map fun f => (k, f.2)
  | none => none

def fieldNames : List String := t.fields.map Prod.fst

def fieldTypes : List SqlType := t.fields.map Prod.snd

def anyNullable (ts : List SqlType) : Bool := ts.any nullable

/-- The sum of two numbers of digits. Precisions and scales are 64-bit numbers, so it wraps
around. -/
def digitSum (m n : Int) : Int := Number.wrap 64 (m + n)

end SqlType

/-- The precision in parentheses, where the name has one to show. A time to the second shows
none. -/
def Scalar.precisionText (s : Scalar) : String :=
  if s.name.allowsPrecision && s.precision != ScalarName.noPrecision &&
      !((s.name == .time || s.name == .timestamp) && s.precision == 0) then
    "(" ++ Number.intText s.precision ++ ")"
  else ""

/-- The text of a scalar without its nullability; `full` adds the character set and collation. -/
def Scalar.toText (full : Bool) (s : Scalar) : String :=
  let head :=
    if s.name = .decimal then
      "DECIMAL(" ++ Number.intText s.precision ++ ", " ++ Number.intText s.scale ++ ")"
    else s.name.toText ++ s.precisionText
  if full && s.name.isChar then
    head ++ " CHARACTER SET " ++ Text.quote s.charset ++ " COLLATE " ++
      Text.quote s.collation.name ++ " " ++ s.collation.coercibility.toText
  else head

namespace SqlType

def notNull (nullable : Bool) (s : String) : String := if nullable then s else s ++ " NOT NULL"

mutual
def render (full : Bool) : SqlType → String
  | .scalar s n => notNull n (s.toText full)
  | .interval q n => notNull n ("INTERVAL " ++ q.toText)
  | .row fs _ => "RecordType(" ++ Text.join ", " (renderFields full fs) ++ ")"
  | .multiset e n => notNull n (render full e ++ " MULTISET")
  | .null => "NULL"
  | .unknown => "UNKNOWN"

def renderFields (full : Bool) : List (String × SqlType) → List String
  | [] => []
  | (name, t) :: fs => (render full t ++ " " ++ name) :: renderFields full fs
end

def toText (t : SqlType) : String := t.render false

def fullText (t : SqlType) : String := t.render true

mutual
def depth : SqlType → Nat
  | .row fs _ => fieldsDepth fs + 1
  | .multiset e _ => depth e + 1
  | _ => 0

def fieldsDepth : List (String × SqlType) → Nat
  | [] => 0
  | (_, t) :: fs => max (depth t) (fieldsDepth fs)
end

end SqlType

end SqlAnalysis

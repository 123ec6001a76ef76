import SqlAnalysis.SqlType.Table

/-!
The narrowest type to which all of several types convert without loss, which is the type of a
`CASE`, a column of `VALUES` or of a set operation, and of an `IN` list.
-/

namespace SqlAnalysis.TypeTable

/-- The widest of the numeric types; the digits before and after the point of a `DECIMAL` are those
of the operands that have the most. -/
def leastNumeric (first : SqlType) (ts : List SqlType) : TypeM (Option SqlType) :=
  let rank (n : ScalarName) : Nat := n.numericRank?.getD 0
  match (first :: ts).mapM SqlType.scalar? with
  | none => pure none
  | some ss =>
    if ss.all (fun s => s.name.isNumeric) then
      let widest := ss.foldl (fun best s => if rank s.name > rank best then s.name else best)
        (ss.head?.elim .decimal Scalar.name)
      let decimals := ss.filter (fun s => s.name == .decimal)
      if !widest.isExactNumeric then some <$> scalar widest
      else if decimals.isEmpty then some <$> scalar widest
      else
        let digits := ss.foldl (fun n s =>
          if s.name = .decimal then max n (SqlType.digitSum s.precision (-s.scale))
          else max n s.name.integerDigits) 0
        let scale := decimals.foldl (fun n s => max n s.scale) 0
        some <$> decimal (min (SqlType.digitSum digits scale) ScalarName.maxNumericPrecision) scale
    else pure none

structure StringBound where
  isVarying : Bool
  precision : Int
  collation : Collation

/-- The bound of one more string. Strings of two lengths have only a varying type in common, and the
firmest collation wins. -/
def StringBound.extend (varying : ScalarName) (b : StringBound) (s : Scalar) : StringBound where
  isVarying := b.isVarying || s.name == varying || (b.precision != 0 && s.precision != b.precision)
  precision := max b.precision s.precision
  collation :=
    if s.collation.coercibility.rank > b.collation.coercibility.rank then
      s.collation else b.collation

def leastString (member : ScalarName → Bool) (fixed varying : ScalarName) (first : Scalar)
    (ts : List SqlType) : TypeM (Option SqlType) :=
  match ts.mapM SqlType.scalar? with
  | none => pure none
  | some ss =>
    if ss.all (fun s => member s.name && s.charset == first.charset) then
      let bound := (first :: ss).foldl (StringBound.extend varying)
        { isVarying := false, precision := 0, collation := first.collation }
      let name := if bound.isVarying then varying else fixed
      some <$> if name.isChar then char name bound.precision bound.collation
        else scalarOf name bound.precision
    else pure none

def coverUnits (q r : Qualifier) : Qualifier :=
  { q with
    first := if r.first.rank < q.first.rank then r.first else q.first
    last := if r.last.rank > q.last.rank then r.last else q.last }

def leastInterval (first : Qualifier) (out : SqlType) : List SqlType → TypeM (Option SqlType)
  | [] => pure (some out)
  | .interval q _ :: ts =>
    if q.isYearMonth != first.isYearMonth then pure none
    else if q = first then leastInterval first out ts
    else do
      let out ← interval (coverUnits (out.qualifier?.getD first) q)
      leastInterval first out ts
  | _ :: _ => pure none

def leastSame (name : ScalarName) (out : SqlType) : List SqlType → TypeM (Option SqlType)
  | [] => pure (some out)
  | t :: ts =>
    if !t.isNamed name then pure none
    else if t.precision > out.precision then do
      let out ← withPrecision t.precision out
      leastSame name out ts
    else leastSame name out ts

def rowColumns (width : Nat) (ts : List SqlType) : Option (List (List SqlType)) :=
  if ts.all (fun t => t.isRow && t.fields.length == width) then
    some ((List.range width).map fun k => ts.filterMap fun t => t.fieldTypes[k]?)
  else none

/-- Names and types of the columns of a common row. Building stops at the first column without a
common type. -/
def leastColumns (least : List SqlType → TypeM (Option SqlType)) :
    List String → List (List SqlType) → TypeM (Option (List Field))
  | name :: names, column :: columns => do
    match ← least column with
    | none => pure none
    | some t =>
      match ← leastColumns least names columns with
      | none => pure none
      | some fs => pure (some ((name, t) :: fs))
  | _, _ => pure (some [])

/-- The common type of types that are neither unknown nor null, `least` being the rule for their
parts. -/
def leastKnown (least : List SqlType → TypeM (Option SqlType)) (first : SqlType)
    (ts : List SqlType) : TypeM (Option SqlType) := do
  if (first :: ts).any SqlType.isAny then
    let any ← scalar .any
    some <$> withNullable (SqlType.anyNullable (first :: ts)) any
  else
    match first with
    | .scalar s _ =>
      if s.name.isNumeric then leastNumeric first ts
      else if s.name.isChar then leastString ScalarName.isChar .char .varchar s ts
      else if s.name.isBinary then leastString ScalarName.isBinary .binary .varbinary s ts
      else leastSame s.name first ts
    | .row fs _ =>
      match rowColumns fs.length (first :: ts) with
      | none => if fs.isEmpty then some <$> row [] else pure none
      | some columns =>
        match ← leastColumns least first.fieldNames columns with
        | none => pure none
        | some fs => some <$> row fs
    | .multiset e _ =>
      match ts.mapM SqlType.element? with
      | none => pure none
      | some es =>
        match ← least (e :: es) with
        | none => pure none
        | some e => some <$> multiset e
    | .interval q _ => leastInterval q first ts
    | .null | .unknown => pure none

def leastRestrictiveUpTo : Nat → List SqlType → TypeM (Option SqlType)
  | 0, _ => pure none
  | depth + 1, ts => do
    if ts.any SqlType.isUnknown then return none
    match ts.filter (fun t => !t.isNull) with
    | [] => if ts.isEmpty then pure none else some <$> null
    | first :: rest =>
      match ← leastKnown (leastRestrictiveUpTo depth) first rest with
      | none => pure none
      | some t => some <$> withNullable (SqlType.anyNullable ts || t.nullable) t

/-- The narrowest type to which all of `ts` convert, or `none` when there is none or one of them is
unknown. Null types only make the result nullable. -/
def leastRestrictive (ts : List SqlType) : TypeM (Option SqlType) :=
  leastRestrictiveUpTo ((ts.map SqlType.depth).foldl max 0 + 1) ts

end SqlAnalysis.TypeTable

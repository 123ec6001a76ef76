import SqlAnalysis.SqlType.Conversion
import SqlAnalysis.SqlType.LeastRestrictive

/-!
How the type of a call follows from the types of its operands: a rule that gives a type, then
changes made to that type.
-/

namespace SqlAnalysis

inductive ReturnError where
  | noOperands
  | notTwoOperands (op : String)
  | charsets (op left right : String)
  | collations (e : MergeError)
deriving Repr, DecidableEq

def ReturnError.message : ReturnError → String
  | .noOperands => "no operands"
  | .notTwoOperands op => op ++ ": expected two operands"
  | .charsets op left right =>
    "operator " ++ op ++ ": incompatible character sets " ++ left ++ " and " ++ right
  | .collations e => e.message

inductive ReturnBase where
  | named (n : ScalarName)
  | varchar (precision : Int)
  | firstArg
  | thirdArg
  | firstKnownArg
  | leastRestrictive
  | product
  | quotient
  | concatenation
deriving Repr, DecidableEq

inductive ReturnAdjustment where
  | nullableIfAny
  | forceNullable
  | varying
deriving Repr, DecidableEq

structure ReturnRule where
  base : ReturnBase
  adjustments : List ReturnAdjustment := []
deriving Repr, DecidableEq

open TypeTable

def SqlType.firstKnown? (ts : List SqlType) : Option SqlType :=
  ts.find? (fun t => !t.isUnknown && !t.isNull)

namespace ReturnBase

/-- The product of two decimals has the digits of both; an interval times a number is an
interval. -/
def productType (ts : List SqlType) : TypeM (Option SqlType) :=
  match ts with
  | [l, r] =>
    if l.isNamed .decimal && r.isNamed .decimal then
      some <$> decimal (SqlType.digitSum l.precision r.precision) (SqlType.digitSum l.scale r.scale)
    else if l.isInterval && r.isNumeric then pure (some l)
    else if r.isInterval && l.isNumeric then pure (some r)
    else TypeTable.leastRestrictive ts
  | _ => TypeTable.leastRestrictive ts

def quotientType (ts : List SqlType) : TypeM (Option SqlType) :=
  match ts with
  | [l, r] =>
    if l.isNamed .decimal && r.isNamed .decimal then
      some <$> decimal (SqlType.digitSum l.precision r.scale) (max l.scale r.scale)
    else if l.isInterval && r.isNumeric then pure (some l)
    else TypeTable.leastRestrictive ts
  | _ => TypeTable.leastRestrictive ts

/-- The type of `l || r` when neither is null. Operands without a common collation give a string
without one. -/
def concatenationOf (op : String) (l r : SqlType) :
    TypeM (Except ReturnError (Option SqlType)) := do
  let precision := SqlType.digitSum l.precision r.precision
  match l with
  | .scalar s _ =>
    if s.name.isChar then
      if !l.sameCharset r then return .error (.charsets op l.charset r.charset)
      match l.mergeCollations r with
      | .ok c => return .ok (some (← char s.name precision c))
      | .error .noCommon => return .ok (some (← char s.name precision { charset := l.charset }))
      | .error e => return .error (.collations e)
    else return .ok (some (← ofNamePrecision l.name precision))
  | _ => return .ok (some (← ofNamePrecision l.name precision))

/-- The type of `l || r`; a null operand takes the type of the other. -/
def concatenationType (op : String) (ts : List SqlType) :
    TypeM (Except ReturnError (Option SqlType)) := do
  match ts with
  | [l, r] =>
    let l := if l.isNull then r else l
    let r := if r.isNull then l else r
    if l.isNull then
      let t ← scalar .varchar
      return .ok (some (← withNullable true t))
    concatenationOf op l r
  | _ => return .error (.notTwoOperands op)

/-- Whether the rule asks for a multiset and gives no element type, as for one that is
concatenated. -/
def isElementless (base : ReturnBase) (ts : List SqlType) : Bool :=
  match base, ts with
  | .concatenation, [l, r] => (if l.isNull then r else l).isMultiset
  | _, _ => false

/-- The type of a call of the operator named `op`, or `none` when the operands have none in
common. -/
def typeOf (base : ReturnBase) (op : String) (ts : List SqlType) :
    TypeM (Except ReturnError (Option SqlType)) :=
  match base with
  | .named n => do return .ok (some (← scalar n))
  | .varchar p => do return .ok (some (← scalarOf .varchar p))
  | .firstArg => pure (match ts with
    | [] => .error .noOperands
    | t :: _ => .ok (some t))
  | .thirdArg => pure (.ok ts[2]?)
  | .firstKnownArg => pure (.ok (SqlType.firstKnown? ts))
  | .leastRestrictive => .ok <$> TypeTable.leastRestrictive ts
  | .product => .ok <$> productType ts
  | .quotient => .ok <$> quotientType ts
  | .concatenation => concatenationType op ts

end ReturnBase

def ReturnAdjustment.apply (ts : List SqlType) (a : ReturnAdjustment) (t : SqlType) :
    TypeM SqlType :=
  match a with
  | .nullableIfAny => withNullable (t.nullable || SqlType.anyNullable ts) t
  | .forceNullable => withNullable true t
  | .varying =>
    match t with
    | .scalar s n =>
      match s.name with
      | .char => do
        let v ← char .varchar s.precision s.collation
        withNullable n v
      | .binary => do
        let v ← scalarOf .varbinary s.precision
        withNullable n v
      | _ => pure t
    | _ => pure t

namespace ReturnRule

def adjust (ts : List SqlType) : List ReturnAdjustment → SqlType → TypeM SqlType
  | [], t => pure t
  | a :: as, t => do
    let t ← a.apply ts t
    adjust ts as t

def typeOf (r : ReturnRule) (op : String) (ts : List SqlType) :
    TypeM (Except ReturnError (Option SqlType)) := do
  match ← r.base.typeOf op ts with
  | .ok (some t) => return .ok (some (← adjust ts r.adjustments t))
  | other => return other

end ReturnRule

end SqlAnalysis

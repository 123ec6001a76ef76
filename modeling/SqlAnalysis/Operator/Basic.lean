import SqlAnalysis.Operator.OperandCheck
import SqlAnalysis.Operator.ReturnRule

/-!
Operators and functions: how they are written, how many operands they take and the rules for the
types of the operands and of the call. An operator is a value, so two calls have the same operator
exactly when the values agree.
-/

namespace SqlAnalysis

/-- How many operands a call may have. -/
inductive Arity where
  | between (least most : Int)
  | atLeast (least : Int)
  | oneOf (count : Int) (others : List Int)
deriving Repr, DecidableEq

namespace Arity

instance : Inhabited Arity := ⟨.atLeast 0⟩

def exactly (n : Int) : Arity := .between n n

def least : Arity → Int
  | .between n _ => n
  | .atLeast n => n
  | .oneOf n ns => ns.foldl min n

def most? : Arity → Option Int
  | .between _ n => some n
  | .atLeast _ => none
  | .oneOf n ns => some (ns.foldl max n)

def allows (a : Arity) (n : Int) : Bool :=
  match a with
  | .between least most => least ≤ n && n ≤ most
  | .atLeast least => least ≤ n
  | .oneOf m ms => (m :: ms).contains n

def toText : Arity → String
  | .between least most =>
    if least = most then Number.intText least
    else Number.intText least ++ " to " ++ Number.intText most
  | .atLeast least => "at least " ++ Number.intText least
  | .oneOf n ns => Text.join " or " ((n :: ns).map Number.intText)

/-- Whether the two allow the same unbroken range. -/
def sameRange : Arity → Arity → Bool
  | .between a b, .between c d => a == c && b == d
  | .atLeast a, .atLeast b => a == b
  | _, _ => false

end Arity

/-- The types expected of operands which have no type of their own, such as parameters. -/
inductive OperandRule where
  /-- Each operand has the type of the first operand whose type is known. -/
  | firstKnown
  /-- Each operand has the type of the call; the operands of a row have those of its fields. -/
  | returnType
  | boolean
  | varchar (precision : Int)
deriving Repr, DecidableEq

namespace OperandRule

open TypeTable

/-- The types expected of the operands of a call of type `result`, their own types being `ts`. -/
def expected (r : OperandRule) (ts : List SqlType) (result : SqlType) : TypeM (List SqlType) :=
  match r with
  | .firstKnown => pure (ts.map fun _ => (SqlType.firstKnown? ts).getD .unknown)
  | .returnType =>
    if result.isRow && result.fields.length == ts.length then pure result.fieldTypes
    else pure (ts.map fun _ => result)
  | .boolean => ts.mapM fun _ => do
    let t ← scalar .boolean
    withNullable true t
  | .varchar p => ts.mapM fun _ => do
    let t ← scalarOf .varchar p
    withNullable true t

end OperandRule

structure Operator where
  name : String
  kind : Kind := .function
  form : CallForm := .function
  leftPrecedence : Int := 0
  rightPrecedence : Int := 0
  arity : Arity := .exactly 0
  /-- The type of a call; without a rule the kind decides. -/
  returns : Option ReturnRule := none
  /-- The types expected of operands whose own type is unknown. -/
  expects : Option OperandRule := none
  /-- The operand types that are accepted; without a check all are. -/
  checks : Option OperandCheck := none
  /-- Whether the call keeps the order of a monotonic operand beside constant ones. -/
  monotonic : Bool := false
  /-- The names of the operands, where they have names. -/
  slots : List String := []
  /-- Where the call of a function stands that no registry knows. Calls at two places are calls of
  two functions until an overload is chosen for each. -/
  unresolvedAt : Option Nat := none
deriving Repr, DecidableEq

inductive OperatorError where
  | noName
  | precedence (name : String)
  | registered (name : String) (form : CallForm)
deriving Repr, DecidableEq

def OperatorError.message : OperatorError → String
  | .noName => "operator has no name"
  | .precedence name => "operator " ++ name ++ ": left precedence exceeds right precedence"
  | .registered name form => "operator " ++ name ++ " (" ++ form.toText ++ ") already registered"

namespace Operator

instance : Inhabited Operator := ⟨{ name := "" }⟩

def isAggregate (o : Operator) : Bool := o.kind.isAggregate

def isUnresolved (o : Operator) : Bool := o.unresolvedAt.isSome

def slot? (o : Operator) (name : String) : Option Nat := o.slots.findIdx? (· == name)

def template (o : Operator) (operands : List String) : String := o.form.template o.name operands

def signatures (o : Operator) : List String :=
  match o.checks with
  | some c => c.signatures o.form o.name
  | none => []

def unresolved (name : String) (site : Nat) : Operator :=
  { name := Text.upper name, arity := .atLeast 0, unresolvedAt := some site }

def validate (o : Operator) : Except OperatorError Unit :=
  if o.name = "" then .error .noName
  else if o.leftPrecedence > o.rightPrecedence then .error (.precedence o.name)
  else .ok ()

end Operator

/-- The known operators. A name may stand for several overloads, which are tried in the order of
their registration. -/
structure Registry where
  operators : List Operator := []
deriving Repr, DecidableEq, Inhabited

namespace Registry

variable (r : Registry)

def overloads (name : String) : List Operator :=
  let key := Text.upper name
  r.operators.filter fun o => Text.upper o.name == key

/-- Whether a call in form `wanted` may be a call of an operator of form `form`. -/
def formMatches (wanted form : CallForm) : Bool :=
  form == wanted || (form.isFunction && wanted.isFunction)

def lookup (name : String) (form : CallForm) : List Operator :=
  (r.overloads name).filter fun o => formMatches form o.form

def ofKind? (k : Kind) : Option Operator := r.operators.find? (fun o => o.kind == k)

def clashes (o p : Operator) : Bool :=
  o.form == p.form && o.arity.sameRange p.arity && o.checks.isNone && p.checks.isNone

def register (o : Operator) : Except OperatorError Registry := do
  o.validate
  if (r.overloads o.name).any (clashes · o) then throw (.registered o.name o.form)
  return { operators := r.operators ++ [o] }

def functionNames : List String :=
  let names := (r.operators.filter (fun o => o.form.isFunction)).map Operator.name
  names.eraseDups.mergeSort (fun a b => decide (a ≤ b))

end Registry

end SqlAnalysis

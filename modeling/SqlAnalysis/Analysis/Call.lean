import SqlAnalysis.Analysis.State
import SqlAnalysis.Pattern
import SqlAnalysis.Tree.Parts

/-!
Calls of operators and functions: which overload a call means, whether its character operands go
together, and what type it has.
-/

namespace SqlAnalysis.Analysis

def describe (ts : List SqlType) : AnalysisM (List String) :=
  building (ts.mapM fun t => do return "<" ++ (← TypeTable.withNullable true t).toText ++ ">")

def accepts (ts : List SqlType) (o : Operator) : Bool := o.checks.all (·.accepts ts)

/-- The operators that a call on `n` operands may mean: the operator of the call itself, or the
functions of its name when it is not bound yet or does not take that many operands. -/
def candidates (ops : Registry) (o : Operator) (n : Nat) : List Operator :=
  if o.isUnresolved || (o.form == .function && !o.arity.allows n) then
    match ops.lookup o.name .function with
    | [] => if o.isUnresolved then [] else [o]
    | overloads => overloads
  else [o]

variable (id : NodeId)

def chooseOverload (o : Operator) (ts : List SqlType) : AnalysisM Operator := do
  let ops := (← read).operators
  match candidates ops o ts.length with
  | [] =>
    let signature := o.template (← describe ts)
    refuse id (.unknownFunction signature) (← similar o.name ops.functionNames)
  | first :: others =>
    match (first :: others).filter fun c => c.arity.allows ts.length with
    | [] => refuse id (.arityMismatch o.name first.arity.toText)
    | c :: cs =>
      match (c :: cs).find? (accepts ts) with
      | some chosen =>
        setOverload id chosen
        return chosen
      | none =>
        let signatures := (c :: cs).flatMap Operator.signatures
        let actual := c.template (← describe ts)
        match cs with
        | [] => refuse id (.operandsRefused c.name actual signatures) [] signatures
        | _ => refuse id (.noOverload actual) [] signatures

/-- Checks the first operand against another: both character strings need one character set, and a
common collation where they are compared. -/
def checkCollation (o : Operator) (l r : SqlType) : AnalysisM Unit := do
  if l.isChar && r.isChar then
    if !l.sameCharset r then refuse id (.charsets o.name l.charset r.charset)
    match l.mergeCollations r with
    | .ok _ => pure ()
    | .error (.incompatible left right) => refuse id (.explicitCollations left right)
    | .error _ => if o.kind.isComparison then refuse id (.noCommonCollation l.collation r.collation)

/-- Checks the character operands of a call that compares, or that has two operands. A concatenation
finds its collation by itself. -/
def checkCollations (o : Operator) (ts : List SqlType) : AnalysisM Unit :=
  if o.kind == .concat || (!o.kind.isComparison && ts.length != 2) then pure ()
  else match ts with
    | [] => pure ()
    | l :: rest => rest.forM (checkCollation id o l)

def charConstant? (t : Tree) (id : Link) : Option String :=
  match t.literal? id with
  | some (.char v) => some v.value
  | _ => none

def escapeOf (args : List Link) : AnalysisM (Option Char) := do
  match args with
  | [_, _, escape] =>
    match charConstant? (← get).tree escape with
    | none => return none
    | some text =>
      match text.toList with
      | [c] => return some c
      | _ => refuse escape (.invalidEscape text)
  | _ => return some '\\'

def checkPattern (o : Operator) (args : List Link) : AnalysisM Unit := do
  match ← escapeOf args with
  | none => pure ()
  | some escape =>
    if o.kind == .like || o.kind == .notLike then
      if let some pattern := charConstant? (← get).tree args[1]?.join then
        modify fun a => { a with patterns := a.patterns.insert id (Pattern.regexp pattern escape) }

def isPatternMatch : Kind → Bool
  | .like | .notLike | .similar | .notSimilar => true
  | _ => false

def returnType (o : Operator) (ts : List SqlType) : AnalysisM SqlType := do
  match o.returns with
  | none => refuse id (.noReturnRule o.name)
  | some rule =>
    if rule.base.isElementless ts then throw (.faulted .absent)
    match ← building (rule.typeOf o.name ts) with
    | .ok (some t) => return t
    | .ok none => refuse id (.noReturnType o.name (← describe ts)) [] o.signatures
    | .error (.charsets op left right) => refuse id (.charsets op left right)
    | .error (.collations (.incompatible left right)) => refuse id (.explicitCollations left right)
    | .error e => refuse id (.returnFailed e)

/-- The operands that a call is typed by; counting all rows has none. -/
def typedOperands (t : Tree) (c : Call) : List Link :=
  match c.operands with
  | [arg] => if c.kind == .count && t.isStar arg then [] else [arg]
  | args => args

variable (e : Engine)

def operandTypes (scope : ScopeId) : List Link → AnalysisM (List SqlType)
  | [] => return []
  | arg :: args => do
    let t ← e.derive scope arg
    if t.isUnknown then refuse arg .parameterUntyped
    let ts ← operandTypes scope args
    return t :: ts

def refuseNested (args : List Link) : AnalysisM Unit := do
  let t := (← get).tree
  if let some nested := args.findSome? t.findAggregate then refuse nested .nestedAggregate

/-- The type of a call; `windowed` says that it is the aggregate of a window. Operands of an
aggregate that is not windowed see the rows before they are grouped. -/
def deriveOperator (scope : ScopeId) (id : NodeId) (c : Call) (windowed : Bool) :
    AnalysisM SqlType := do
  let o := c.operator
  let args := typedOperands (← get).tree c
  if o.kind.isRanking && !windowed then refuse id .overRequired
  let plain := o.isAggregate && !windowed
  if plain then refuseNested args
  let store := (← get).store
  let ts ← operandTypes e (if plain then store.ungrouped scope else scope) args
  let chosen ← chooseOverload id o ts
  checkCollations id chosen ts
  if isPatternMatch chosen.kind then checkPattern id chosen args
  returnType id chosen ts

end SqlAnalysis.Analysis

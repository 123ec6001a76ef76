import SqlAnalysis.Analysis.Group

/-!
Joins: which conditions go with which types of join, and the columns of a join.
-/

namespace SqlAnalysis.Analysis

variable (e : Engine)

def validateCondition (scope : ScopeId) (id : Link) (clause : Restricted) : AnalysisM Unit := do
  refuseAggregates id clause
  e.infer scope id (← boolean)
  let t ← e.derive scope id
  if !t.isBoolean then refuse id (.notACondition clause)

def fromNamespaceUpTo (a : Analysis) : Nat → Link → Option NamespaceId
  | 0, _ => none
  | depth + 1, id =>
    match a.namespaceAt id with
    | some ns => some ns
    | none =>
      if a.tree.isCall id [.naming, .lateral] then
        fromNamespaceUpTo a depth (a.tree.operand id 0) else none

def fromNamespace (id : Link) : AnalysisM (Option NamespaceId) := do
  return fromNamespaceUpTo (← get) (id.getD 0 + 1) id

def checkCommonColumn (id : Link) (name : String) (left right : SqlType) : AnalysisM Unit := do
  match ← field? left name, ← field? right name with
  | some (_, l), some (_, r) => if !l.canCompare r then refuse id (.columnTypes name)
  | _, _ => refuse id (.columnNotFound name)

variable (id : NodeId)

def checkConditionType (p : JoinParts) : AnalysisM Unit := do
  let t := (← get).tree
  let natural := t.isTrue p.natural
  let condition := t.joinCondition p
  if (t.joinType p).isCross then
    if natural then refuse id .naturalCross
    if condition ≠ .none then refuse p.condition .conditionOnCross
  else
    if natural && condition ≠ .none then refuse p.condition .naturalWithCondition
    if !natural && condition = .none then refuse id .conditionRequired

def checkUsing (columns : List Link) (left right : SqlType) : AnalysisM Unit :=
  columns.forM fun col => do
    match (← get).tree.identifier? col with
    | some i =>
      if i.isSimple then checkCommonColumn col i.last left right else refuse col .usingNotAName
    | none => refuse col .usingNotAName

def checkNatural (left right : SqlType) : AnalysisM Unit :=
  left.fieldNames.forM fun name => do
    if (← field? right name).isSome then checkCommonColumn id name left right

def validateJoin (c : Call) : AnalysisM Unit := do
  let p := JoinParts.ofCall c
  checkConditionType id p
  match ← fromNamespace p.left, ← fromNamespace p.right with
  | some l, some r =>
    let t := (← get).tree
    match t.joinCondition p with
    | .on => validateCondition e (((← get).joinScopes.get? id).getD 0) p.condition .joining
    | .using =>
      checkUsing (t.elements p.condition) (← namespaceOfId l).row (← namespaceOfId r).row
    | _ => pure ()
    if t.isTrue p.natural then
      checkNatural id (← namespaceOfId l).row (← namespaceOfId r).row
    match (← get).namespaceAt id with
    | some ns => e.validate ns .unknown
    | none => refuse id .joinInputUnregistered
  | _, _ => refuse id .joinInputUnregistered

def sideFields (id : Link) (nullable : Bool) : AnalysisM (List Field) := do
  match ← fromNamespace id with
  | none => refuse id .joinInputUnregistered
  | some ns =>
    let row ← e.rowOf ns
    let row ← if nullable then building (TypeTable.withNullable true row) else pure row
    return row.fields

def joinRow : AnalysisM SqlType := do
  let t := (← get).tree
  let p := t.join id
  let type := t.joinType p
  let left ← sideFields e p.left type.leftNullable
  let right ← sideFields e p.right type.rightNullable
  building (TypeTable.row (left ++ right))

def validateFromUpTo : Nat → Link → AnalysisM Unit
  | 0, _ => throw .exhausted
  | depth + 1, id => do
    let a ← get
    let item : AnalysisM Unit :=
      match a.namespaceAt id with
      | some ns => e.validate ns .unknown
      | none => refuse id .sourceUnregistered
    match id, a.tree.call? id with
    | some i, some c =>
      match c.kind with
      | .naming | .lateral => validateFromUpTo depth (c.operand 0)
      | .join =>
        let p := JoinParts.ofCall c
        validateFromUpTo depth p.left
        validateFromUpTo depth p.right
        validateJoin e i c
      | _ => item
    | _, _ => item

def validateFrom (id : Link) : AnalysisM Unit := validateFromUpTo e (id.getD 0 + 2) id

end SqlAnalysis.Analysis

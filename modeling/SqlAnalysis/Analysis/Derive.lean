import SqlAnalysis.Analysis.Constant
import SqlAnalysis.Analysis.Resolve
import SqlAnalysis.Analysis.Window

/-!
The types of expressions. The type of a node is derived once, in the scope in which it was first
asked for, and read back afterwards; a query that is used as an expression is looked up each time.
-/

namespace SqlAnalysis.Analysis

def nullaryFrom : List Operator → AnalysisM (Option (Operator × SqlType))
  | [] => return none
  | o :: rest => do
    match o.form, o.returns with
    | .functionId, some rule =>
      match ← building (rule.typeOf o.name []) with
      | .ok (some t) => return some (o, t)
      | _ => nullaryFrom rest
    | _, _ => nullaryFrom rest

variable (e : Engine)

variable (scope : ScopeId)

def deriveIdentifier (id : NodeId) (i : Identifier) : AnalysisM SqlType := do
  if i.isSimple then
    if let some (o, t) ← nullaryFrom ((← read).operators.lookup i.last .functionId) then
      setOverload id o
      return t
  let r ← resolve e scope id i
  setQualified id r.names
  match i.collation with
  | some c =>
    if r.type.isChar then building (TypeTable.withCollation (c.withCoercibility .explicit) r.type)
    else return r.type
  | none => return r.type

def deriveAll (ids : List Link) : AnalysisM (List SqlType) :=
  ids.mapM (e.derive scope)

/-- The types of expressions up to the first that is unknown; `none` if there is one. -/
def deriveKnown (scope : ScopeId) : List Link → AnalysisM (Option (List SqlType))
  | [] => return some []
  | id :: rest => do
    let t ← e.derive scope id
    if t.isUnknown then return none
    return (← deriveKnown scope rest).map (t :: ·)

def deriveList (id : NodeId) (items : List Link) : AnalysisM SqlType := do
  let ts ← deriveAll e scope items
  if ts.isEmpty || ts.any SqlType.isUnknown then return .unknown
  match ← building (TypeTable.leastRestrictive ts) with
  | some t => return t
  | none => refuse id .incompatibleItems

def columnName (k : Nat) : String := "EXPR$" ++ Number.natText k

def deriveRow (c : Call) : AnalysisM SqlType := do
  match ← deriveKnown e scope c.operands with
  | none => return .unknown
  | some ts => building (TypeTable.row (ts.zipIdx.map fun (t, k) => (columnName k, t)))

def deriveMultiset (id : NodeId) (c : Call) : AnalysisM SqlType := do
  match ← deriveKnown e scope c.operands with
  | none => return .unknown
  | some ts =>
    match ← building (TypeTable.leastRestrictive ts) with
    | some t => building (TypeTable.multiset t)
    | none => refuse id .incompatibleElements

def deriveField (id : NodeId) (c : Call) : AnalysisM SqlType := do
  let record ← e.derive scope (c.operand 0)
  match (← get).tree.identifier? (c.operand 1) with
  | none => refuse (c.operand 1) .fieldNotAName
  | some i =>
    if !record.isRow then refuse id (.fieldOfNonRecord i.last record.toText)
    match ← field? record i.last with
    | none => refuse (c.operand 1) (.unknownField i.last) (← similar i.last record.fieldNames)
    | some (_, t) => building (TypeTable.withNullable (t.nullable || record.nullable) t)

def queryRow (id : Link) : AnalysisM SqlType := do
  match (← get).namespaceAt id with
  | none => refuse id .queryUnregistered
  | some ns => e.rowOf ns

/-- A query of one column has the type of its column with the null value, any other its row type. -/
def deriveQuery (id : Link) : AnalysisM SqlType := do
  let row ← queryRow e id
  match row.fields with
  | [(_, t)] => building (TypeTable.withNullable true t)
  | _ => return row

def membersType (id : Link) : AnalysisM SqlType := do
  if ((← get).tree.kind id).isQuery then
    let _ ← deriveQuery e id
    let row := ((← get).relation? id).elim .unknown Namespace.row
    match row.fields with
    | [(_, t)] => return t
    | _ => return row
  else e.derive scope id

def deriveIn (id : NodeId) (c : Call) : AnalysisM SqlType := do
  let value ← e.derive scope (c.operand 0)
  let members ← membersType e scope (c.operand 1)
  if value.isUnknown || members.isUnknown then refuse id .parameterUntyped
  if !value.canCompare members then refuse id (.incomparable c.operator.name)
  setOverload id c.operator
  building do
    let t ← TypeTable.scalar .boolean
    TypeTable.withNullable (value.nullable || members.nullable) t

def checkConditions (whens : List Link) : AnalysisM Unit :=
  whens.forM fun w => do
    let t ← e.derive scope w
    if !t.isBoolean && !t.isNull && !t.isUnknown then refuse w .notBoolean

/-- The types of the branches that have one, the null constants among the branches, and whether some
branch may be null without saying so by its type. -/
def branchTypes (scope : ScopeId) : List Link → AnalysisM (List SqlType × List NodeId × Bool)
  | [] => return ([], [], false)
  | b :: rest => do
    if (← get).tree.isNull b then
      let (ts, nulls, _) ← branchTypes scope rest
      return (ts, b.toList ++ nulls, true)
    let t ← e.derive scope b
    let (ts, nulls, nullable) ← branchTypes scope rest
    if t.isUnknown || t.isNull then return (ts, nulls, true)
    return (t :: ts, nulls, nullable)

/-- A case distinction has the type that its branches have in common; null constants take it
over. -/
def deriveCase (id : NodeId) (c : Call) : AnalysisM SqlType := do
  let t := (← get).tree
  let p := CaseParts.ofCall c
  let whens := t.elements p.whens
  let thens := t.elements p.thens
  if whens.length ≠ thens.length then refuse id (.caseBranches whens.length thens.length)
  checkConditions e scope whens
  let (ts, nulls, mayBeNull) ← branchTypes e scope (thens ++ p.otherwise.toList.map some)
  if ts.isEmpty then refuse id .onlyNullBranches
  match ← building (TypeTable.leastRestrictive ts) with
  | none => refuse id .incompatibleBranches
  | some common =>
    let result ← building
      (TypeTable.withNullable (p.otherwise.isNone || mayBeNull || common.nullable) common)
    nulls.forM fun n => setType n result
    return result

def deriveCast (id : NodeId) (c : Call) : AnalysisM SqlType := do
  let target ← e.derive scope (c.operand 1)
  let source ← e.derive scope (c.operand 0)
  if source.isUnknown then building (TypeTable.withNullable true target)
  else
    if !source.isNull && !target.canCast source then
      refuse id (.castIllegal source.toText target.toText)
    setOverload id c.operator
    building (TypeTable.withNullable source.nullable target)

def deriveCollected (id : NodeId) : AnalysisM SqlType := do
  match (← get).namespaceAt id with
  | none => refuse id .multisetUnregistered
  | some ns => return ((← e.rowOf ns).fieldTypes.head?).getD .unknown

def deriveExists (id : NodeId) (c : Call) : AnalysisM SqlType := do
  let _ ← e.derive scope (c.operand 0)
  setOverload id c.operator
  building (TypeTable.scalar .boolean)

def deriveCall (id : NodeId) (c : Call) : AnalysisM SqlType :=
  match c.kind with
  | .naming | .descending | .preceding | .following | .scalarQuery => e.derive scope (c.operand 0)
  | .existsRows => deriveExists e scope id c
  | .multisetQuery => deriveCollected e id
  | .multisetValue => deriveMultiset e scope id c
  | .row => deriveRow e scope c
  | .caseOf => deriveCase e scope id c
  | .cast => deriveCast e scope id c
  | .over => deriveOver e scope id c
  | .dot => deriveField e scope id c
  | .isIn | .isNotIn => deriveIn e scope id c
  | .window => return .unknown
  | _ => deriveOperator e scope id c false

def deriveForm (id : NodeId) : Form → AnalysisM SqlType
  | .literal l => do building (l.sqlType (← read).config)
  | .identifier i => deriveIdentifier e scope id i
  | .parameter _ => return .unknown
  | .list items => deriveList e scope id items
  | .typeSpec s => namedType id s
  | .qualifier q => building (TypeTable.interval q)
  | .call c => deriveCall e scope id c

def derive (id : Link) : AnalysisM SqlType := do
  let a ← get
  if (a.tree.kind id).isQuery then deriveQuery e id
  else match id, a.tree.form? id with
    | some i, some form =>
      match a.typeOf.get? i with
      | some t => return t
      | none =>
        let t ← deriveForm e scope i form
        setType i t
        modify fun a => { a with scopeOf := a.scopeOf.insertNew i scope }
        return t
    | _, _ => refuse id .absentExpression

end SqlAnalysis.Analysis

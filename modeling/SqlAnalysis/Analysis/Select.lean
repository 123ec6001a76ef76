import SqlAnalysis.Analysis.Derive
import SqlAnalysis.Analysis.Join

/-!
Query blocks. The clauses are validated in the order in which they take effect; the select list is
recorded with every column spelt out and every item under the name of its output column.
-/

namespace SqlAnalysis.Analysis

/-- An expression of a select list and the name it is given: the alias, the last name of a column or
field, or else one by its place. -/
def splitAlias (t : Tree) (item : Link) (place : Nat) : Link × String :=
  match t.form? item with
  | some (.identifier i) => (item, i.last)
  | some (.call c) =>
    match c.kind, t.identifier? (c.operand 1) with
    | .naming, some i => (c.operand 0, i.last)
    | .dot, some i => (item, i.last)
    | _, _ => (item, columnName place)
  | _ => (item, columnName place)

def uniqueName (m : NameMatcher) (taken : List String) (name : String) : String :=
  if taken.contains (m.key name) then
    let numbered := (List.range (taken.length + 1)).map fun k => name ++ Number.natText k
    (numbered.find? fun n => !taken.contains (m.key n)).getD name
  else name

structure Outputs where
  items : List NodeId := []
  fields : List Field := []

def Outputs.add (o : Outputs) (expr : Link) (name : String) (t : SqlType) : AnalysisM Outputs := do
  let m := (← read).matcher
  let name := uniqueName m (o.fields.map fun f => m.key f.1) name
  let as := ((← read).operators.ofKind? .naming).getD default
  let item ← growing (Tree.buildAlias as expr name)
  if let some known := expr.bind (← get).typeOf.get? then setType item known
  return { items := o.items ++ [item], fields := o.fields ++ [(name, t)] }

variable (e : Engine)

variable (scope : ScopeId)

def starSources (star : NodeId) (i : Identifier) : AnalysisM (List Child) := do
  let store := (← get).store
  let relations := store.selectScope scope
  if i.isSimple then
    match (relations.bind store.scope?).elim [] Scope.children with
    | [] => refuse star .starWithoutSource
    | children => return children
  else
    let names := i.names.dropLast
    let table ← match relations with
      | some s => findTable e s names
      | none => pure none
    match table with
    | some v => return [v.child]
    | none => refuse star (.tableNotFound (Text.join "." names))

def addColumn (span : Option Span) (aliasName : String) (f : Field) : AnalysisM NodeId := do
  let names := [aliasName, f.1]
  let id ← growing (Tree.push { form := .identifier { names }, span })
  setType id f.2
  setQualified id names
  setScope id scope
  return id

def expandStar (star : NodeId) (i : Identifier) : AnalysisM (List NodeId) := do
  let sources ← starSources e scope star i
  let span := (← get).tree.span? star
  let columns ← sources.mapM fun c => do
    let row ← childRow e c
    row.fields.mapM (addColumn scope span c.aliasName)
  return columns.flatten

def expandIdentifier (id : Link) : AnalysisM Link := do
  let a ← get
  match id, a.tree.identifier? id with
  | some i, some ident =>
    let names := (a.qualified.get? i).getD []
    if names.length ≤ ident.names.length then return id
    let out ← growing
      (Tree.push { form := .identifier { ident with names }, span := a.tree.span? id })
    setType out ((a.typeOf.get? i).getD .unknown)
    setQualified out names
    setScope out scope
    return some out
  | _, _ => return id

def addStar (scope : ScopeId) (o : Outputs) : List NodeId → AnalysisM Outputs
  | [] => return o
  | col :: rest => do
    checkGrouped e scope col
    let a ← get
    let name := ((a.tree.identifier? col).elim "" Identifier.last)
    let o ← o.add col name ((a.typeOf.get? col).getD .unknown)
    addStar scope o rest

def addItem (target : SqlType) (o : Outputs) (item : Link) :
    AnalysisM Outputs := do
  let (expr, aliasName) := splitAlias (← get).tree item o.fields.length
  e.infer scope expr ((target.fieldTypes[o.fields.length]?).getD .unknown)
  let t ← e.derive scope item
  if t.isUnknown then refuse expr .parameterUntyped
  checkGrouped e scope expr
  let expr ← if (← read).config.expandIdentifiers then expandIdentifier scope expr else pure expr
  o.add expr aliasName t

def selectItems (scope : ScopeId) (target : SqlType) (o : Outputs) :
    List Link → AnalysisM Outputs
  | [] => return o
  | item :: rest => do
    let o ← match item, (← get).tree.identifier? item with
      | some star, some i =>
        if i.isStar then addStar e scope o (← expandStar e scope star i)
        else addItem e scope target o item
      | _, _ => addItem e scope target o item
    selectItems scope target o rest

/-- How many of the operands are monotonic, the others being constants; `none` if some operand is
neither. -/
def monotonicCount (t : Tree) (isMonotonic : Link → AnalysisM Bool) :
    List Link → AnalysisM (Option Nat)
  | [] => return some 0
  | arg :: args => do
    if (t.literal? arg).isSome then monotonicCount t isMonotonic args
    else if ← isMonotonic arg then return (← monotonicCount t isMonotonic args).map (· + 1)
    else return none

def isMonotonicUpTo (scope : ScopeId) : Nat → Link → AnalysisM Bool
  | 0, _ => return false
  | depth + 1, id => do
    let t := (← get).tree
    match t.form? id with
    | some (.identifier i) =>
      if i.isStar then return false
      match ← attempt (resolve e scope id i) with
      | some { source := some v, names := [_, column], .. } =>
        return (← namespaceOfId v.child.source).isMonotonic column
      | _ => return false
    | some (.call c) =>
      if !c.operator.monotonic then return false
      return (← monotonicCount t (isMonotonicUpTo scope depth) c.operands) == some 1
    | _ => return false

def isMonotonic (id : Link) : AnalysisM Bool :=
  isMonotonicUpTo e scope (id.getD 0 + 1) id

def validateSelectList (ns : NamespaceId) (query : NodeId) (scope : ScopeId) (target : SqlType) :
    AnalysisM SqlType := do
  let t := (← get).tree
  let o ← selectItems e scope target {} (t.elements (t.select query).list)
  modify fun a => { a with selectLists := a.selectLists.insert query o.items }
  let t := (← get).tree
  let sorted ← (o.items.zip o.fields).filterM fun (item, _) =>
    isMonotonic e scope (t.operand item 0)
  modifyNamespace ns fun n => { n with monotonic := sorted.map fun (_, f) => f.1 }
  building (TypeTable.row o.fields)

/-- Whether a number is the place of a column. Places are 64-bit integers. -/
def isOrdinal (d : Decimal) (columns : Nat) : Bool :=
  let place := Number.wrap 64 d.truncate
  d.isInteger && 1 ≤ place && place ≤ columns

def validateOrderKey (row : SqlType) (item : Link) : AnalysisM Unit := do
  let t := (← get).tree
  let expr := if t.isCall item [.descending] then t.operand item 0 else item
  match t.literal? expr with
  | some (.exact d) =>
    if !isOrdinal d row.fields.length then refuse expr .ordinalOutOfRange
    let _ ← e.derive scope item
  | _ =>
    e.infer scope expr .unknown
    let _ ← e.derive scope item
    checkGrouped e scope expr

def validateOrder (query : NodeId) (row : SqlType) : AnalysisM Unit := do
  let a ← get
  (a.tree.elements (a.tree.select query).order).forM
    (validateOrderKey e (a.clause query .order) row)

def validateGroups (groups : List Link) : AnalysisM Unit :=
  groups.forM fun g => do
    refuseAggregates g .grouping
    e.infer scope g .unknown
    let _ ← e.derive scope g

def ifPresent (id : Link) (x : AnalysisM Unit) : AnalysisM Unit := if id.isSome then x else pure ()

/-- Validates a query block. Its output columns are published before its order is validated. -/
def validateSelect (ns : NamespaceId) (query : NodeId) (target : SqlType) : AnalysisM SqlType := do
  let a ← get
  let p := a.tree.select query
  let scope := a.clause query .source
  let list := a.clause query .list
  ifPresent p.source (validateFrom e p.source)
  ifPresent p.condition (validateCondition e scope p.condition .filter)
  validateGroups e scope (a.tree.elements p.groups)
  ifPresent p.having do
    validateCondition e list p.having .having
    checkGrouped e list p.having
  declareWindows e scope [] (a.tree.elements p.windows)
  let row ← validateSelectList e ns query list target
  modifyNamespace ns fun n => { n with status := .inProgress (some row) }
  validateOrder e query row
  return row

end SqlAnalysis.Analysis

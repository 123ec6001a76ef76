import SqlAnalysis.Analysis.State

/-!
What a name means in a scope. A simple name is an output column when the order of a query is looked
at, then a column of the nearest relations that have one by this name, then a relation itself. In a
compound name the longest start that names a relation decides; the rest are fields.
-/

namespace SqlAnalysis.Analysis

structure Resolved where
  source : Option Visible
  names : List String
  type : SqlType

variable (e : Engine)

def childRow (c : Child) : AnalysisM SqlType := do
  let row ← e.rowOf c.source
  if c.nullable then building (TypeTable.withNullable true row) else return row

variable (scope : ScopeId)

def visibleFrom : AnalysisM (List Visible) := do return (← get).store.visible scope

def findChild (aliasName : String) : AnalysisM (Option Visible) := do
  let m := (← read).matcher
  return (← visibleFrom scope).find? fun v => m.same v.child.aliasName aliasName

def endsWith (m : NameMatcher) (qualified names : List String) : Bool :=
  names.length ≤ qualified.length &&
    m.sameAll (qualified.drop (qualified.length - names.length)) names

/-- The first of the relations that is a table whose qualified name ends in the given names. A table
that cannot be validated is passed over. -/
def findQualified (names : List String) : List Visible → AnalysisM (Option Visible)
  | [] => return none
  | v :: rest => do
    let m := (← read).matcher
    if (← namespaceOfId v.child.source).kind = .table then
      if (← attempt (e.validate v.child.source .unknown)).isSome then
        let table := (← namespaceOfId v.child.source).table
        if table.elim false (fun t => endsWith m t.names names) then return some v
    findQualified names rest

/-- The relation that the names stand for: one name is an alias, several are the end of the
qualified name of a table. -/
def findTable (names : List String) : AnalysisM (Option Visible) := do
  match names with
  | [aliasName] => findChild scope aliasName
  | _ => findQualified e names (← visibleFrom scope)

def descend (id : Link) : String → List String → Resolved → AnalysisM Resolved
  | _, [], r => return r
  | owner, name :: rest, r => do
    if !r.type.isRow then refuse id (.columnNotInTable name owner)
    match ← field? r.type name with
    | none => refuse id (.columnNotInTable name owner) (← similar name r.type.fieldNames)
    | some (found, t) =>
      let t ← if r.type.nullable then building (TypeTable.withNullable true t) else pure t
      descend id found rest { r with names := r.names ++ [found], type := t }

/-- The column among the relations of one scope. A relation that is being validated has no columns
to show yet. -/
def columnAmong (id : Link) (name : String) :
    Option Resolved → List Visible → AnalysisM (Option Resolved)
  | found, [] => return found
  | found, v :: rest => do
    if (← namespaceOfId v.child.source).status.isInProgress then columnAmong id name found rest
    else
      let row ← childRow e v.child
      match ← field? row name with
      | none => columnAmong id name found rest
      | some (column, t) =>
        if found.isSome then refuse id (.ambiguousColumn name)
        columnAmong id name
          (some { source := some v, names := [v.child.aliasName, column], type := t }) rest

def columnAlong (id : Link) (name : String) :
    List (ScopeId × Scope) → AnalysisM (Option Resolved)
  | [] => return none
  | (scopeId, scope) :: outer => do
    if scope.kind.holdsChildren then
      if let some r ← columnAmong e id name none (Store.owned scopeId scope) then return some r
    columnAlong id name outer

def resolveColumn (id : Link) (name : String) : AnalysisM (Option Resolved) := do
  columnAlong e id name ((← get).store.chain scope)

def resolveOutput (id : Link) (name : String) : AnalysisM (Option Resolved) := do
  let a ← get
  match a.store.scope? scope with
  | some { kind := .orderBy, node, .. } =>
    let m := (← read).matcher
    let fields := ((a.relation? node).bind Namespace.row?).elim [] SqlType.fields
    match fields.filter fun f => m.same f.1 name with
    | [] => return none
    | [(column, t)] => return some { source := none, names := [column], type := t }
    | _ => refuse id (.ambiguousColumn name)
  | _ => return none

def visibleNames : AnalysisM (List String) := do
  let a ← get
  return (a.store.visible scope).flatMap fun v =>
    v.child.aliasName :: match (a.store.namespace? v.child.source).map Namespace.status with
      | some (.valid row) => row.fieldNames
      | _ => []

def resolveSimple (id : Link) (name : String) : AnalysisM Resolved := do
  if let some r ← resolveOutput scope id name then return r
  if let some r ← resolveColumn e scope id name then return r
  match ← findChild scope name with
  | some v =>
    let row ← childRow e v.child
    return { source := some v, names := [v.child.aliasName], type := row }
  | none => refuse id (.columnNotFound name) (← similar name (← visibleNames scope))

def resolveBelowTable (scope : ScopeId) (id : Link) (names : List String) :
    Nat → AnalysisM (Option Resolved)
  | 0 => return none
  | k + 1 => do
    let start := names.take (k + 1)
    match ← findTable e scope start with
    | none => resolveBelowTable scope id names k
    | some v =>
      let row ← childRow e v.child
      let r ← descend id (Text.join "." start) (names.drop (k + 1))
        { source := some v, names := [v.child.aliasName], type := row }
      return some r

def resolveCompound (id : Link) (names : List String) : AnalysisM Resolved := do
  if let some r ← resolveBelowTable e scope id names (names.length - 1) then return r
  let first := names.head?.getD ""
  match ← resolveColumn e scope id first with
  | some r => descend id first names.tail r
  | none =>
    let aliases := (← visibleFrom scope).map fun v => v.child.aliasName
    refuse id (.tableNotFound first) (← similar first aliases)

def resolve (id : Link) (i : Identifier) : AnalysisM Resolved :=
  if i.isStar then refuse id (.unknownIdentifier i.toText)
  else if i.isSimple then resolveSimple e scope id i.last
  else resolveCompound e scope id i.names

end SqlAnalysis.Analysis

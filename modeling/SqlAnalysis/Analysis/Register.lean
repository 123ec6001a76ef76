import SqlAnalysis.Analysis.State
import SqlAnalysis.Tree.Parts

/-!
Registration gives every relation of a statement its namespace and every clause its scope, before
anything is validated. A relation in the `FROM` clause of a query is registered below the scope
around the query, so one item cannot see another unless it is lateral or the two are joined.
-/

namespace SqlAnalysis.Analysis

/-- Where a relation is registered: the scope its expressions see, the scope in which it becomes
visible, the node that brings it in and the alias that the statement gives it. -/
structure Place where
  parent : ScopeId
  host : Option ScopeId := none
  enclosing : Link := none
  aliasName : String := ""
  nullable : Bool := false

structure Registrar where
  query : Place → Link → AnalysisM Unit
  item : (place : Place) → (host : ScopeId) → (isLateral : Bool) → Link → AnalysisM Unit

def newScope (scope : Scope) : AnalysisM ScopeId :=
  modifyGet fun a =>
    let (id, store) := a.store.addScope scope
    (id, { a with store })

/-- Adds a namespace for a node. The node that brings it in leads to it too, unless it leads to
another one already. -/
def newNamespace (kind : NamespaceKind) (node : NodeId) (enclosing : Link) (scope : ScopeId) :
    AnalysisM NamespaceId :=
  modifyGet fun a =>
    let (id, store) := a.store.addNamespace { kind, node, enclosing := enclosing.getD node, scope }
    let names := a.namespaceOf.insert node id
    let names := match enclosing with
      | some e => names.insertNew e id
      | none => names
    (id, { a with store, namespaceOf := names })

def addChild (scope : ScopeId) (aliasName : String) (source : NamespaceId) (nullable : Bool) :
    AnalysisM Unit :=
  modify fun a => { a with store := a.store.addChild scope { aliasName, source, nullable } }

def publish (place : Place) (source : NamespaceId) : AnalysisM Unit :=
  match place.host with
  | some host => addChild host place.aliasName source place.nullable
  | none => pure ()

def setClause (query : NodeId) (c : Clause) (scope : ScopeId) : AnalysisM Unit :=
  modify fun a => { a with clauses := a.clauses.insert (query, c) scope }

def freshAlias : AnalysisM String :=
  modifyGet fun a => ("EXPR$" ++ Number.natText a.aliases, { a with aliases := a.aliases + 1 })

def isNestedQuery : Kind → Bool
  | .select | .union | .except | .intersect | .values | .multisetQuery => true
  | _ => false

variable (r : Registrar)

def registerNested (scope : ScopeId) (id : Link) : AnalysisM Unit := do
  let t := (← get).tree
  let nested := (t.preorderWhere (fun n => !isNestedQuery (t.kind n)) id).filter fun (n : NodeId) =>
    isNestedQuery (t.kind n)
  nested.forM fun n => r.query { parent := scope, enclosing := some n } (some n)

/-- The scopes of a query block: that of its relations, which the other two lead to, that of its
select list and that of its order. -/
structure Block where
  source : ScopeId
  list : ScopeId
  order : ScopeId

def Block.scope (b : Block) : Clause → ScopeId
  | .source | .condition | .groups => b.source
  | .list | .having => b.list
  | .order => b.order

/-- The scope for the select list of a query block. Below the groups of a block only they can be
seen. -/
def listScope (source : ScopeId) (id : NodeId) : AnalysisM ScopeId := do
  let t := (← get).tree
  if t.isAggregating id then
    newScope
      { kind := .aggregating, parent := some source, node := some id
        groups := t.elements (t.select id).groups }
  else return source

def newBlock (place : Place) (id : NodeId) : AnalysisM Block := do
  let source ← newScope { kind := .select, parent := some place.parent, node := some id }
  let list ← listScope source id
  let order ← newScope { kind := .orderBy, parent := some list, node := some id }
  let b : Block := { source, list, order }
  Clause.all.forM fun c => setClause id c (b.scope c)
  let ns ← newNamespace .select id place.enclosing source
  publish place ns
  return b

def registerSelect (place : Place) (id : NodeId) : AnalysisM Unit := do
  let b ← newBlock place id
  let t := (← get).tree
  let p := t.select id
  if p.source.isSome then
    r.item { parent := place.parent, enclosing := p.source } b.source false p.source
  registerNested r b.source p.condition
  (t.elements p.groups).forM (registerNested r b.source)
  registerNested r b.list p.list
  registerNested r b.list p.having
  registerNested r b.source p.windows
  registerNested r b.order p.order

def registerChange (place : Place) (id : NodeId) (c : Call) (target query : Link) :
    AnalysisM Unit := do
  let _ ← newNamespace .change id (some id) place.parent
  match target, (← get).tree.identifier? target with
  | some table, some _ =>
    let _ ← newNamespace .table table (some id) place.parent
    if query.isNone then refuse id (.noSource c.operator.name)
    r.query { parent := place.parent, host := place.host, enclosing := query } query
  | _, _ => refuse target (.targetNotATable c.operator.name)

def registerOther (place : Place) (id : NodeId) (c : Call) : AnalysisM Unit := do
  match c.kind with
  | .union | .except | .intersect =>
    let ns ← newNamespace .setOp id place.enclosing place.parent
    publish place ns
    c.operands.forM fun branch => r.query { parent := place.parent, enclosing := branch } branch
  | .values =>
    let ns ← newNamespace .values id place.enclosing place.parent
    publish place ns
    c.operands.forM (registerNested r place.parent)
  | .insert =>
    let p := InsertParts.ofCall c
    registerChange r place id c p.target p.query
  | .update =>
    let p := UpdateParts.ofCall c
    registerChange r place id c p.target p.query
  | .delete =>
    let p := DeleteParts.ofCall c
    registerChange r place id c p.target p.query
  | .multisetQuery =>
    let ns ← newNamespace .collect id place.enclosing place.parent
    publish place ns
    r.query { parent := place.parent, enclosing := c.operand 0 } (c.operand 0)
  | _ => refuse id (.notAQueryCall c.operator.name)

/-- Registers a query. A query that is registered already only becomes visible in one more place. -/
def registerQuery (r : Registrar) (place : Place) (id : Link) : AnalysisM Unit := do
  let a ← get
  match (a.namespaceAt id), (a.relation? id) with
  | some ns, some n => if some n.node = id then publish place ns else register a.tree
  | _, _ => register a.tree
where
  register (t : Tree) : AnalysisM Unit := do
    match id, t.call? id with
    | some i, some c =>
      if c.kind = .select then registerSelect r place i else registerOther r place i c
    | _, _ => refuse id .notAQuery

def registerJoin (place : Place) (host : ScopeId) (isLateral : Bool) (id : NodeId) (c : Call) :
    AnalysisM Unit := do
  let scope ← newScope
    { kind := .join, parent := some place.parent, node := some id, host := some host }
  modify fun a => { a with joinScopes := a.joinScopes.insert id scope }
  let t := (← get).tree
  let p := JoinParts.ofCall c
  let type := t.joinType p
  r.item
    { parent := place.parent, enclosing := p.left, nullable := place.nullable || type.leftNullable }
    scope isLateral p.left
  r.item
    { parent := place.parent, enclosing := p.right,
      nullable := place.nullable || type.rightNullable }
    scope false p.right
  let _ ← newNamespace .join id (some id) scope
  registerNested r scope p.condition

def aliasOr (aliasName : String) (other : AnalysisM String) : AnalysisM String :=
  if aliasName = "" then other else pure aliasName

def registerItem (place : Place) (host : ScopeId) (isLateral : Bool) (id : Link) :
    AnalysisM Unit := do
  let place := if isLateral then { place with parent := host } else place
  let t := (← get).tree
  match id, t.form? id with
  | some i, some (.identifier name) =>
    let aliasName ← aliasOr place.aliasName (pure name.last)
    let ns ← newNamespace .table i place.enclosing place.parent
    addChild host aliasName ns place.nullable
  | some i, some (.call c) =>
    match c.kind with
    | .naming =>
      match t.identifier? (c.operand 1) with
      | some name =>
        r.item { place with enclosing := some i, aliasName := name.last }
          host isLateral (c.operand 0)
      | none => refuse (c.operand 1) .aliasNotAName
    | .join => registerJoin r place host isLateral i c
    | .lateral => r.item place host true (c.operand 0)
    | .unnest =>
      let aliasName ← aliasOr place.aliasName freshAlias
      let ns ← newNamespace .unnest i place.enclosing place.parent
      addChild host aliasName ns place.nullable
      registerNested r place.parent (c.operand 0)
    | .select | .union | .except | .intersect | .values =>
      let aliasName ← aliasOr place.aliasName freshAlias
      registerQuery r { place with host := some host, aliasName } id
    | _ => refuse id .unsupportedSource
  | _, _ => refuse id .unsupportedSource

def registrar : Nat → Registrar
  | 0 => { query := fun _ _ => throw .exhausted, item := fun _ _ _ _ => throw .exhausted }
  | depth + 1 =>
    { query := fun place id => registerQuery (registrar depth) place id
      item := fun place host isLateral id =>
        registerItem (registrar depth) place host isLateral id }

/-- A node is above smaller ones only, so the size of the tree bounds its depth. -/
def register (place : Place) (id : Link) : AnalysisM Unit := do
  registerQuery (registrar (← get).tree.size) place id

def registerSubqueries (scope : ScopeId) (id : Link) : AnalysisM Unit := do
  registerNested (registrar ((← get).tree.size + 1)) scope id

end SqlAnalysis.Analysis

import SqlAnalysis.Analysis.Resolve
import SqlAnalysis.Analysis.Window
import SqlAnalysis.Tree.Equality

/-!
Grouped queries. An expression of a query that groups may refer to a column of the query only inside
an aggregate or inside an expression that the query groups by; columns of queries around it are
constant within a group.
-/

namespace SqlAnalysis.Analysis

def refuseAggregates (id : Link) (clause : Restricted) : AnalysisM Unit := do
  let t := (← get).tree
  if clause ≠ .having then
    if let some found := t.findAggregate id then refuse found (.aggregateIn clause)
  if let some found := t.findOver id then refuse found (.windowedIn clause)

structure Grouping where
  scope : ScopeId
  relations : Option ScopeId
  groups : List Link

variable (e : Engine) (g : Grouping)

def qualifiedNames? (names : List String) : AnalysisM (Option (List String)) := do
  let i : Identifier := { names }
  match g.relations with
  | none => return none
  | some scope =>
    if i.isStar then return none
    return (← attempt (resolve e scope none i)).map Resolved.names

def sameColumn (x y : List String) : AnalysisM Bool := do
  let m := (← read).matcher
  if m.sameAll x y then return true
  let qx ← qualifiedNames? e g x
  let qy ← qualifiedNames? e g y
  match qx, qy with
  | some qx, some qy => return m.sameAll qx qy
  | _, _ => return false

def isGroupExpr (id : Link) : List Link → AnalysisM Bool
  | [] => return false
  | group :: rest => do
    let t := (← get).tree
    if ← t.equalWith (sameColumn e g) group id then return true
    isGroupExpr id rest

/-- Whether a relation is one of the relations of the query. An output column counts as one. -/
def isLocal (source : Option Visible) : Bool :=
  match source, g.relations with
  | some v, some scope => v.scope = scope
  | _, _ => true

def checkGroupedName (id : NodeId) (i : Identifier) : AnalysisM Unit := do
  if (← get).overloads.contains id then return ()
  if i.isSimple then
    if let some (some _) ← attempt (resolveOutput g.scope id i.last) then return ()
  match ← attempt (resolve e g.scope id i) with
  | some r => if isLocal g r.source then refuse id (.notGrouped i.toText)
  | none => refuse id (.notGrouped i.toText)

def checkGroupedWindow (check : Link → AnalysisM Unit) (id : Link) : AnalysisM Unit := do
  let a ← get
  let w := windowAt a.tree (← read).matcher (a.store.selectOf g.scope) id
  if a.tree.isCall w [.window] then
    let p := a.tree.window w
    (a.tree.elements p.partition).forM check
    (a.tree.elements p.order).forM check

def checkGroupedCall (check : Link → AnalysisM Unit) (id : NodeId) (c : Call) : AnalysisM Unit := do
  let t := (← get).tree
  if c.kind.isQuery || c.operator.isAggregate then return ()
  match c.kind with
  | .multisetQuery | .scalarQuery | .existsRows => return ()
  | .over =>
    if (t.call? (c.operand 0)).isSome then (t.children (c.operand 0)).forM fun n => check (some n)
    checkGroupedWindow g check (c.operand 1)
  | .naming | .descending | .cast => check (c.operand 0)
  | _ => (t.children id).forM fun n => check (some n)

/-- Checks an expression, following at most `depth` steps down or into the definition of a
window. -/
def checkGroupedUpTo : Nat → Link → AnalysisM Unit
  | 0, _ => throw .exhausted
  | depth + 1, id => do
    match id with
    | none => return ()
    | some i =>
      if ← isGroupExpr e g id g.groups then return ()
      match (← get).tree.form? id with
      | some (.identifier name) => checkGroupedName e g i name
      | some (.list items) => items.forM (checkGroupedUpTo depth)
      | some (.call c) => checkGroupedCall g (checkGroupedUpTo depth) i c
      | _ => return ()

def checkGrouped (scope : ScopeId) (id : Link) : AnalysisM Unit := do
  let a ← get
  match a.store.aggregating scope with
  | none => return ()
  | some agg =>
    let groups := (a.store.scope? agg).elim [] Scope.groups
    let g : Grouping := { scope, relations := a.store.selectScope agg, groups }
    checkGroupedUpTo e g ((a.tree.size + 1) * (a.tree.size + 1)) id

end SqlAnalysis.Analysis

import SqlAnalysis.Validator

/-!
Completion of the name at an offset of a statement that need not be valid. The name of a table is
completed from the catalog, any other name from the relations visible where it stands.
-/

namespace SqlAnalysis

namespace Completion

/-- The places that a node has parts in. A list keeps the place of an item that was left out, a call
has no place for an operand that was. -/
def places (t : Tree) (id : NodeId) : List Link :=
  match t.form? id with
  | some (.list items) => items
  | _ => (t.children id).map some

/-- The parent of each node under a root; a node that several nodes share has the last of them, and
what is absent belongs to the last list with an item left out. -/
def parents (t : Tree) (root : Link) : Table Link NodeId :=
  (t.preorder root).foldl (fun m (id : NodeId) =>
    (places t id).foldl (fun m child => m.insert child id) m) {}

def clauses (p : SelectParts) : List (Link × Clause) :=
  [(p.list, .list), (p.source, .source), (p.condition, .condition), (p.groups, .groups),
    (p.having, .having), (p.windows, .source), (p.order, .order)]

def scopeFor (a : Analysis) (parent : NodeId) (child : Link) : Option ScopeId :=
  let joined := if a.tree.isCall parent [.join] && (a.tree.join parent).condition == child
    then a.joinScopes.get? parent else none
  match joined with
  | some s => some s
  | none =>
    if a.tree.isCall parent [.select] && (a.namespaceAt parent).isSome then
      (clauses (a.tree.select parent)).findSome? fun (operand, c) =>
        if operand = child then a.clauses.get? (parent, c) else none
    else none

def scopeUpTo (a : Analysis) (parents : Table Link NodeId) : Nat → Link → ScopeId
  | 0, _ => a.root
  | depth + 1, child =>
    match parents.get? child with
    | none => a.root
    | some parent =>
      match scopeFor a parent child with
      | some s => s
      | none => scopeUpTo a parents depth parent

/-- The scope of the clause that holds a node; without a node it is the clause that an item was left
out of. -/
def scopeAt (a : Analysis) (root id : Link) : ScopeId :=
  scopeUpTo a (parents a.tree root) (a.tree.size + 1) id

def namesTable (a : Analysis) (id : Link) : Bool :=
  match a.relation? id with
  | some n => n.kind == .table && some n.node == id
  | none => false

open Analysis

def fieldsBelow (e : Engine) (scope : ScopeId) (names : List String) : AnalysisM (List String) := do
  match ← findTable e scope names with
  | some v =>
    if (← attempt (e.validate v.child.source .unknown)).isSome then
      return (← namespaceOfId v.child.source).row.fieldNames
    return []
  | none =>
    return ((← attempt (resolve e scope none { names })).map fun r => r.type.fieldNames).getD []

def visibleAfterValidation (e : Engine) (scope : ScopeId) : AnalysisM (List String) := do
  (← visibleFrom scope).forM fun v => do
    let _ ← attempt (e.validate v.child.source .unknown)
  visibleNames scope

def objects (names : List String) : AnalysisM (List String) := do
  match (← read).catalog.objects names with
  | .ok found => return found
  | .error e => throw (.catalog e)

def complete (root : Link) (pos : Int) : AnalysisM (List String) := do
  registerStatement root
  let a ← get
  let id := a.tree.nodeAt pos
  let names := (a.tree.identifier? id).elim [] Identifier.names
  let start := names.getLast?.getD ""
  let before := names.dropLast
  if namesTable a id then return Suggestion.completions start (← objects before)
  let e ← currentEngine
  let scope := scopeAt a root id
  let candidates ← if before.isEmpty then visibleAfterValidation e scope
    else fieldsBelow e scope before
  return Suggestion.completions start candidates

end Completion

def Validator.hints (s : Statement) (pos : Int) : ValidatorM (Except Failure (List String)) := do
  match s.canonicalForm (← get).setting.operators with
  | .error e => return .error (.canonical e)
  | .ok s =>
    let (r, _) ← run (Completion.complete s.root pos) (← fresh s.tree)
    return r.mapError .analysis

end SqlAnalysis

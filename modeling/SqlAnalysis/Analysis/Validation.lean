import SqlAnalysis.Analysis.Change
import SqlAnalysis.Analysis.Infer
import SqlAnalysis.Analysis.Register

/-!
The engine of an analysis, and the analysis of whole statements. A relation is validated once;
asking for one that is being validated is a cycle. After a failure a relation is as it was before.
-/

namespace SqlAnalysis.Analysis

def rowType (e : Engine) (id : NamespaceId) (n : Namespace) (target : SqlType) :
    AnalysisM SqlType :=
  match n.kind with
  | .table => validateTable id n.node
  | .select => validateSelect e id n.node target
  | .join => joinRow e n.node
  | .setOp => validateSetOp e n.node target
  | .values => validateValues e n.scope n.node target
  | .unnest => validateUnnest e n.scope n.node
  | .collect => validateCollect e n.node
  | .change => validateTarget e id n.node

def setStatus (id : NamespaceId) (s : Status) : AnalysisM Unit :=
  modifyNamespace id fun n => { n with status := s }

def validate (e : Engine) (id : NamespaceId) (target : SqlType) : AnalysisM Unit := do
  match (← get).store.namespace? id with
  | none => refuse none .sourceUnregistered
  | some n =>
    match n.status with
    | .valid _ => return ()
    | .inProgress _ => refuse n.node .cycle
    | .unvalidated =>
      setStatus id (.inProgress none)
      let row ← tryCatch (rowType e id n target) fun h => do
        setStatus id .unvalidated
        throw h
      setStatus id (.valid row)
      setType n.node row
      if (← get).tree.isCall n.enclosing [.naming] then setType n.enclosing row

/-- The engine that follows at most so many steps into one another. -/
def engine : Nat → Engine
  | 0 => .exhausted
  | steps + 1 =>
    { validate := fun id target => validate (engine steps) id target
      derive := fun scope id => derive (engine steps) scope id
      infer := fun scope id target => infer (engine steps) scope id target }

/-- More steps than the analysis of one relation takes: a window may lead from one place to another,
and from each place it goes at most as deep as the tree. -/
def stepsWithin (t : Tree) : Nat := 2 * ((t.size + 1) * (t.size + 1)) + 3

def stepsFor (a : Analysis) : Nat := (a.store.namespaces.size + 1) * stepsWithin a.tree

def currentEngine : AnalysisM Engine := do return engine (stepsFor (← get))

def registerStatement (root : Link) : AnalysisM Unit := do
  let a ← get
  let kind := a.tree.kind root
  if kind.isStatement || kind == .multisetQuery then
    register { parent := a.root, enclosing := root } root
  else registerSubqueries a.root root

def typeExpression (scope : ScopeId) (id : Link) : AnalysisM SqlType := do
  registerSubqueries scope id
  let e ← currentEngine
  e.infer scope id .unknown
  e.derive scope id

def analyse (root : Link) : AnalysisM Unit := do
  let a ← get
  let kind := a.tree.kind root
  if kind.isStatement || kind == .multisetQuery then
    registerStatement root
    let e ← currentEngine
    match root, (← get).namespaceAt root with
    | some id, some ns => if kind.isUpdate then validateChange e id else e.validate ns .unknown
    | _, _ => refuse root .statementUnregistered
  else
    let _ ← typeExpression a.root root

end SqlAnalysis.Analysis

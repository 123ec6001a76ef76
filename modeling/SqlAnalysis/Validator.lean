import SqlAnalysis.Analysis.Validation
import SqlAnalysis.Canonical
import SqlAnalysis.Metrics

/-!
Validators. A validator analyses one statement after the other against a catalog and keeps the types
it has built, the catalog answers it remembers, its counts and the last result.
-/

namespace SqlAnalysis

inductive Failure where
  | canonical (e : CanonicalError)
  | analysis (h : Halt)
deriving Repr, DecidableEq

namespace Failure

def diagnostic? : Failure → Option Diagnostic
  | .analysis (.refused d) => some d
  | _ => none

def code (f : Failure) : Code := (f.diagnostic?).elim .internal Diagnostic.code

def message : Failure → String
  | .canonical e => e.message
  | .analysis h => h.message

def render (source : Source) (f : Failure) : String :=
  match f.diagnostic? with
  | some d => d.render source
  | none => f.message

end Failure

structure Result where
  root : Link
  analysis : Analysis

namespace Result

def tree (r : Result) : Tree := r.analysis.tree

/-- The type of the statement: the row type of a query, or the type of an expression if it is
known. -/
def type (r : Result) : Option SqlType :=
  match r.analysis.relation? r.root with
  | some n => n.row?
  | none => r.root.bind r.analysis.typeOf.get?

def parameterRow (r : Result) : TypeM SqlType :=
  let sorted := r.analysis.parameters.entries.mergeSort fun a b => decide (a.1 ≤ b.1)
  TypeTable.row (sorted.map fun (k, t) => ("?" ++ Number.intText k, t))

def qualifiedAt (r : Result) (pos : Int) : Option (List String) :=
  (r.tree.nodeAt pos).bind r.analysis.qualified.get?

end Result

structure Validator where
  setting : Setting
  types : TypeTable := {}
  lookups : CatalogUse := {}
  metrics : Metrics := {}
  last : Option Result := none

abbrev ValidatorM := StateM Validator

namespace Validator

/-- A validator that has seen no statement. It remembers catalog answers as its settings say. -/
def start (setting : Setting) (types : TypeTable := {}) : Validator :=
  let size := setting.config.catalogCacheSize
  { setting, types, lookups := if 0 < size then .cached size.toNat else .direct }

def run {α : Type} (x : AnalysisM α) (a : Analysis) : ValidatorM (Except Halt α × Analysis) :=
  fun v =>
  let (r, a) := x v.setting { a with types := v.types, lookups := v.lookups }
  ((r, a), { v with types := a.types, lookups := a.lookups })

def fresh (tree : Tree) (store : Store := {}) : ValidatorM Analysis := do
  let v ← get
  return .start tree v.types v.lookups store

def check (s : Statement) : ValidatorM (Except Failure Result) := do
  match s.canonicalForm (← get).setting.operators with
  | .error e => return .error (.canonical e)
  | .ok s =>
    match ← run (Analysis.analyse s.root) (← fresh s.tree) with
    | (.error h, _) => return .error (.analysis h)
    | (.ok _, analysis) => return .ok { root := s.root, analysis }

/-- Validates a statement. A result stays the last one until the next success. -/
def validate (s : Statement) : ValidatorM (Except Failure Result) := do
  match ← check s with
  | .ok r =>
    modify fun v => { v with metrics := v.metrics.observe none, last := some r }
    return .ok r
  | .error f =>
    modify fun v => { v with metrics := v.metrics.observe (some f.code) }
    return .error f

def deriveAlone (s : Statement) : ValidatorM (Except Halt SqlType) := do
  let a ← fresh s.tree
  let (r, _) ← run (Analysis.typeExpression a.root s.root) a
  return r

def setStore (store : Store) : ValidatorM Unit :=
  modify fun v =>
    { v with last := v.last.map fun r => { r with analysis := { r.analysis with store } } }

/-- The type of a statement as an expression in a scope of the last result. -/
def deriveIn (scope : ScopeId) (s : Statement) : ValidatorM (Except Halt SqlType) := do
  let store := ((← get).last.map fun r => r.analysis.store).getD {}
  let a ← fresh s.tree store
  let (r, a) ← run (Analysis.typeExpression scope s.root) a
  setStore a.store
  return r

/-- The type of a node of the last result in one of its scopes; without a scope it sees no
relation. -/
def deriveAgain (r : Result) (scope : Option ScopeId) (id : Link) :
    ValidatorM (Except Halt SqlType) := do
  let a := r.analysis
  let (t, analysis) ← run (Analysis.typeExpression (scope.getD a.root) id) a
  modify fun v => { v with last := some { r with analysis } }
  return t

end Validator

end SqlAnalysis

import SqlAnalysis.Analysis.Cause
import SqlAnalysis.Analysis.Scope
import SqlAnalysis.Config
import SqlAnalysis.Suggestion
import SqlAnalysis.Tree.Traversal

/-!
The state of an analysis: what it has found out about the nodes of a tree. What was found out before
a failure is kept, since a failed attempt may be part of a successful analysis.
-/

namespace SqlAnalysis

structure Setting where
  operators : Registry
  catalog : CatalogReader
  config : Config

def Setting.matcher (s : Setting) : NameMatcher := s.config.matcher

inductive Clause where
  | source | condition | groups | having | list | order
deriving Repr, DecidableEq, Inhabited

def Clause.all : List Clause := [.source, .condition, .groups, .list, .having, .order]

/-- The frame of a window: offsets from the current row, earlier ones negative. A bounded frame of
rows has a size. -/
structure Frame where
  rows : Bool
  lower : Int := 0
  upper : Int := 0
  size : Int := 0
  bounded : Bool := false
deriving Repr, DecidableEq, Inhabited

structure Analysis where
  tree : Tree
  types : TypeTable := {}
  lookups : CatalogUse := {}
  store : Store := {}
  root : ScopeId := 0
  namespaceOf : Table NodeId NamespaceId := {}
  clauses : Table (NodeId × Clause) ScopeId := {}
  joinScopes : Table NodeId ScopeId := {}
  scopeOf : Table NodeId ScopeId := {}
  typeOf : Table NodeId SqlType := {}
  qualified : Table NodeId (List String) := {}
  /-- The select list of a query with all columns spelt out and every item named. -/
  selectLists : Table NodeId (List NodeId) := {}
  overloads : Table NodeId Operator := {}
  patterns : Table NodeId String := {}
  frames : Table NodeId Frame := {}
  parameters : Table Int SqlType := {}
  aliases : Nat := 0

namespace Analysis

def start (tree : Tree) (types : TypeTable) (lookups : CatalogUse)
    (store : Store := {}) : Analysis :=
  let (root, store) := store.addScope { kind := .root }
  { tree, types, lookups, store, root }

def namespaceAt (a : Analysis) (id : Link) : Option NamespaceId := id.bind a.namespaceOf.get?

def relation? (a : Analysis) (id : Link) : Option Namespace :=
  (a.namespaceAt id).bind a.store.namespace?

def clause (a : Analysis) (query : NodeId) (c : Clause) : ScopeId :=
  (a.clauses.get? (query, c)).getD a.root

end Analysis

abbrev AnalysisM := ReaderT Setting (ExceptT Halt (StateM Analysis))

namespace Analysis

def building {α : Type} (x : TypeM α) : AnalysisM α :=
  modifyGet fun a =>
    let (t, types) := x a.types
    (t, { a with types })

def growing {α : Type} (x : TreeM α) : AnalysisM α :=
  modifyGet fun a =>
    let (n, tree) := x a.tree
    (n, { a with tree })

def refuse {α : Type} (id : Link) (cause : Cause) (suggestions : List String := [])
    (signatures : List String := []) : AnalysisM α := do
  throw (.refused { cause, span := (← get).tree.span? id, suggestions, signatures })

/-- Runs a step whose failure is an answer of its own. What the step found out is kept. -/
def attempt {α : Type} (x : AnalysisM α) : AnalysisM (Option α) := fun setting a =>
  match x setting a with
  | (.ok r, a) => (.ok (some r), a)
  | (.error .exhausted, a) => (.error .exhausted, a)
  | (.error (.faulted f), a) => (.error (.faulted f), a)
  | (.error _, a) => (.ok none, a)

def similar (name : String) (candidates : List String) : AnalysisM (List String) := do
  return Suggestion.closest name (← read).config.suggestions candidates

variable (id : NodeId)

/-- Records the type of a node; the unknown type is never recorded. -/
def setType (t : SqlType) : AnalysisM Unit :=
  if t.isUnknown then pure () else modify fun a => { a with typeOf := a.typeOf.insert id t }

def setOverload (o : Operator) : AnalysisM Unit :=
  modify fun a => { a with overloads := a.overloads.insert id o }

def setQualified (names : List String) : AnalysisM Unit :=
  modify fun a => { a with qualified := a.qualified.insert id names }

def setScope (scope : ScopeId) : AnalysisM Unit :=
  modify fun a => { a with scopeOf := a.scopeOf.insert id scope }

def namespaceOfId (id : NamespaceId) : AnalysisM Namespace := do
  return ((← get).store.namespace? id).getD default

def modifyNamespace (id : NamespaceId) (f : Namespace → Namespace) : AnalysisM Unit :=
  modify fun a => { a with store := a.store.modifyNamespace id f }

def field? (row : SqlType) (name : String) : AnalysisM (Option Field) := do
  let m := (← read).matcher
  return row.fields.find? fun f => m.same f.1 name

def boolean : AnalysisM SqlType := building do
  let t ← TypeTable.scalar .boolean
  TypeTable.withNullable true t

/-- The three judgements of an analysis, which depend on each other: relations are validated, types
of expressions are derived, and expected types are pushed down into parameters and null constants.
The rules for each are written in terms of an engine that settles the smaller questions; the engine
itself is tied together where all the rules are known. -/
structure Engine where
  /-- Validates a relation; the type is the row type that the context expects of it, if it is
  known. -/
  validate : NamespaceId → SqlType → AnalysisM Unit
  derive : ScopeId → Link → AnalysisM SqlType
  infer : ScopeId → Link → SqlType → AnalysisM Unit

def Engine.exhausted : Engine where
  validate _ _ := throw .exhausted
  derive _ _ := throw .exhausted
  infer _ _ _ := throw .exhausted

def Engine.deriveSoft (e : Engine) (scope : ScopeId) (id : Link) : AnalysisM SqlType := do
  return (← attempt (e.derive scope id)).getD .unknown

def Engine.rowOf (e : Engine) (ns : NamespaceId) (target : SqlType := .unknown) :
    AnalysisM SqlType := do
  e.validate ns target
  return (← namespaceOfId ns).row

end Analysis

end SqlAnalysis

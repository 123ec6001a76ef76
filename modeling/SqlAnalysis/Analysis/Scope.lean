import SqlAnalysis.Catalog.Basic
import SqlAnalysis.Tree.Basic

/-!
Scopes and namespaces. A namespace stands for a relation of the statement and holds its row type
once the relation has been validated; a scope says which relations are visible, each under an alias.
Scopes and namespaces are kept in a store and named by their places in it. A scope is made after its
parent, so the way from a scope outward ends.
-/

namespace SqlAnalysis

abbrev ScopeId := Nat

abbrev NamespaceId := Nat

inductive NamespaceKind where
  | table | select | join | setOp | values | unnest | collect | change
deriving Repr, DecidableEq, Inhabited

def NamespaceKind.toText : NamespaceKind → String
  | .table => "table"
  | .select => "select"
  | .join => "join"
  | .setOp => "setop"
  | .values => "values"
  | .unnest => "unnest"
  | .collect => "collect"
  | .change => "dml"

/-- How far the validation of a relation has come. While a query is being validated its output
columns may be published before its order is looked at. -/
inductive Status where
  | unvalidated
  | inProgress (published : Option SqlType)
  | valid (row : SqlType)
deriving Inhabited

namespace Status

def isValid : Status → Bool
  | .valid _ => true
  | _ => false

def isInProgress : Status → Bool
  | .inProgress _ => true
  | _ => false

def row? : Status → Option SqlType
  | .unvalidated => none
  | .inProgress published => published
  | .valid row => some row

end Status

structure Namespace where
  kind : NamespaceKind
  node : NodeId
  /-- The node that brings the relation in, such as one that names it. -/
  enclosing : NodeId
  /-- The scope in which the expressions of the node itself are validated. -/
  scope : ScopeId
  status : Status := .unvalidated
  table : Option Relation := none
  monotonic : List String := []
deriving Inhabited

namespace Namespace

def row? (n : Namespace) : Option SqlType := n.status.row?

def row (n : Namespace) : SqlType := n.row?.getD .unknown

def isValid (n : Namespace) : Bool := n.status.isValid

def isMonotonic (n : Namespace) (column : String) : Bool :=
  match n.kind, n.table with
  | .table, some t => t.monotonic.contains column
  | _, _ => n.monotonic.contains column

def anyMonotonic (n : Namespace) : Bool := n.row.fieldNames.any n.isMonotonic

end Namespace

inductive ScopeKind where
  | root
  | select
  | join
  | aggregating
  /-- The order of a query, in which its output columns are visible too. -/
  | orderBy
deriving Repr, DecidableEq, Inhabited

namespace ScopeKind

def toText : ScopeKind → String
  | .root => "root"
  | .select => "select"
  | .join => "join"
  | .aggregating => "aggregating"
  | .orderBy => "order by"

def holdsChildren : ScopeKind → Bool
  | .select | .join => true
  | _ => false

def ofQuery : ScopeKind → Bool
  | .select | .aggregating | .orderBy => true
  | _ => false

end ScopeKind

/-- A relation that is visible under an alias. On the side of an outer join that may lack a match
its columns are nullable. -/
structure Child where
  aliasName : String
  source : NamespaceId
  nullable : Bool
deriving Repr, DecidableEq, Inhabited

structure Scope where
  kind : ScopeKind
  node : Link := none
  parent : Option ScopeId := none
  /-- The scope that also gets the relations of a join, so that a query sees every leaf of its
  joins. -/
  host : Option ScopeId := none
  children : List Child := []
  groups : List Link := []
deriving Repr, DecidableEq, Inhabited

structure Visible where
  scope : ScopeId
  place : Nat
  child : Child
deriving Repr, DecidableEq

structure Store where
  scopes : Array Scope := #[]
  namespaces : Array Namespace := #[]
deriving Inhabited

namespace Store

variable (s : Store)

def scope? (id : ScopeId) : Option Scope := s.scopes[id]?

def namespace? (id : NamespaceId) : Option Namespace := s.namespaces[id]?

def addScope (scope : Scope) : ScopeId × Store :=
  (s.scopes.size, { s with scopes := s.scopes.push scope })

def addNamespace (n : Namespace) : NamespaceId × Store :=
  (s.namespaces.size, { s with namespaces := s.namespaces.push n })

def modifyScope (id : ScopeId) (f : Scope → Scope) : Store :=
  { s with scopes := s.scopes.modify id f }

def modifyNamespace (id : NamespaceId) (f : Namespace → Namespace) : Store :=
  { s with namespaces := s.namespaces.modify id f }

def chainUpTo (s : Store) : Nat → ScopeId → List (ScopeId × Scope)
  | 0, _ => []
  | depth + 1, id =>
    match s.scope? id with
    | none => []
    | some scope =>
      (id, scope) :: match scope.parent with
        | some parent => chainUpTo s depth parent
        | none => []

def chain (id : ScopeId) : List (ScopeId × Scope) := s.chainUpTo (id + 1) id

def addChildUpTo (s : Store) (child : Child) : Nat → ScopeId → Store
  | 0, _ => s
  | depth + 1, id =>
    match s.scope? id with
    | none => s
    | some scope =>
      let s := s.modifyScope id fun sc => { sc with children := sc.children ++ [child] }
      match scope.kind, scope.host with
      | .join, some host => if scope.host = scope.parent then s else addChildUpTo s child depth host
      | _, _ => s

/-- Makes a relation visible in a scope, and from a join on in the scopes that take in its
relations. -/
def addChild (id : ScopeId) (child : Child) : Store := s.addChildUpTo child (id + 1) id

def owned (id : ScopeId) (scope : Scope) : List Visible :=
  scope.children.zipIdx.map fun (child, place) => { scope := id, place, child }

def visibleIn (chain : List (ScopeId × Scope)) : List Visible :=
  (chain.filter fun e => e.2.kind.holdsChildren).flatMap fun e => owned e.1 e.2

def visible (id : ScopeId) : List Visible := visibleIn (s.chain id)

def selectOf (id : ScopeId) : Link :=
  ((s.chain id).find? fun e => e.2.kind.ofQuery).bind fun e => e.2.node

def selectScope (id : ScopeId) : Option ScopeId :=
  ((s.chain id).find? fun e => e.2.kind == .select).map Prod.fst

def aggregatingIn : List (ScopeId × Scope) → Option ScopeId
  | [] => none
  | (id, scope) :: outer =>
    match scope.kind with
    | .aggregating => some id
    | .orderBy => aggregatingIn outer
    | _ => none

def aggregating (id : ScopeId) : Option ScopeId := aggregatingIn (s.chain id)

def ungroupedIn (default : ScopeId) : List (ScopeId × Scope) → ScopeId
  | [] => default
  | (id, scope) :: outer =>
    match scope.kind, outer with
    | .orderBy, _ :: _ => ungroupedIn default outer
    | .aggregating, (parent, _) :: _ => parent
    | _, _ => id

def ungrouped (id : ScopeId) : ScopeId := ungroupedIn id (s.chain id)

end Store

end SqlAnalysis

import SqlAnalysis.Fault
import SqlAnalysis.Tree.Parts

/-!
The canonical form of a statement, in which every relation is a query block, a set operation or a
table constructor. Sorting becomes part of the block that is sorted, or of a block around it; `TABLE
t` is a block that selects everything; statements that change a table carry a block for the rows
they touch; a case distinction on a value becomes one on conditions. The form is built in a new
tree. What was one node stays one node, and a node keeps the place in the source of the node that it
stands for.
-/

namespace SqlAnalysis

inductive CanonicalError where
  | noOperator (k : Kind)
  | faulted (f : Fault)
deriving Repr, DecidableEq

def CanonicalError.message : CanonicalError → String
  | .noOperator k => "operator catalog has no " ++ k.toText ++ " operator"
  | .faulted f => f.message

namespace Canonical

structure Vocabulary where
  select : Operator
  naming : Operator
  equals : Operator

def Vocabulary.ofRegistry (ops : Registry) : Except CanonicalError Vocabulary := do
  let find (k : Kind) : Except CanonicalError Operator :=
    match ops.ofKind? k with
    | some o => .ok o
    | none => .error (.noOperator k)
  return { select := ← find .select, naming := ← find .naming, equals := ← find .equals }

variable (v : Vocabulary)

def block (p : SelectParts) (span : Option Span) : TreeM NodeId :=
  Tree.push { form := .call { operator := v.select, operands := p.operands }, span }

def selectAll (source : Link) (order : Link) (span : Option Span) : TreeM NodeId := do
  let star ← Tree.buildIdentifier ["*"]
  let list ← Tree.buildList [some star]
  block v { list := some list, source, order } span

/-- Sorts a query: in place when it is a block that has no order yet, else by a block around it. -/
def ordered (query order : Link) (span : Option Span) : TreeM NodeId := do
  let t ← get
  match t.call? query with
  | some c =>
    let p := SelectParts.ofCall c
    if c.kind = .select ∧ p.order = none then
      Tree.push { form := .call { c with operands := { p with order }.operands }, span }
    else selectAll v query order span
  | none => selectAll v query order span

def target (table aliasName : Link) : TreeM Link := do
  let copy ← (← get).copy table
  if aliasName = none then return copy
  let name ← (← get).copy aliasName
  let span := (← get).span? table
  some <$> Tree.push { form := .call { operator := v.naming, operands := [copy, name] }, span }

def deletedRows (p : DeleteParts) (span : Option Span) : TreeM NodeId := do
  let source ← target v p.target p.aliasName
  let all ← selectAll v source none span
  let parts := (← get).select all
  block v { parts with condition := p.condition } span

def assignments : Nat → List Link → TreeM (List Link)
  | _, [] => pure []
  | k, source :: rest => do
    let name ← Tree.buildIdentifier ["EXPR$" ++ Number.natText k]
    let span := (← get).span? source
    let item ← Tree.push
      { form := .call { operator := v.naming, operands := [source, some name] }, span }
    let items ← assignments (k + 1) rest
    return some item :: items

/-- The block for the rows that an update changes: all their columns, then the new values, which are
the nodes of the update itself. -/
def updatedRows (p : UpdateParts) (span : Option Span) : TreeM NodeId := do
  let star ← Tree.buildIdentifier ["*"]
  let items ← assignments v 0 ((← get).items p.sources)
  let list ← Tree.buildList (some star :: items)
  let source ← target v p.target p.aliasName
  block v { list := some list, source, condition := p.condition } span

/-- Tests of a value for equality with each of the given nodes. The first test holds the value
itself and each further one a copy of it. -/
def equalityTests (value : Link) : Bool → List Link → TreeM (List Link)
  | _, [] => pure []
  | isFirst, w :: rest => do
    let v' ← if isFirst then pure value else (← get).copy value
    let span := (← get).span? w
    let test ← Tree.push { form := .call { operator := v.equals, operands := [v', w] }, span }
    let tests ← equalityTests value false rest
    return some test :: tests

def conditions (p : CaseParts) : TreeM NodeId := do
  let t ← get
  let tests ← equalityTests v p.value true (t.items p.whens)
  Tree.push { form := .list tests, span := t.span? p.whens }

def keep (c : Call) (span : Option Span) (operands : List Link) : TreeM NodeId :=
  Tree.push { form := .call { c with operands }, span }

/-- The canonical form of a call whose operands are canonical already; `top` says that it is the
whole statement. -/
def call (c : Call) (span : Option Span) (top : Bool) : TreeM NodeId := do
  match c.kind with
  | .orderBy => ordered v (c.operand 0) (c.operand 1) span
  | .explicitTable => selectAll v (c.operand 0) none span
  | .values | .union | .except | .intersect =>
    let out ← keep c span c.operands
    if top then selectAll v (some out) none span else return out
  | .insert =>
    let p := InsertParts.ofCall c
    keep c span (p.withQuery p.source)
  | .delete =>
    let p := DeleteParts.ofCall c
    let query ← deletedRows v p span
    keep c span (p.withQuery (some query))
  | .update =>
    let p := UpdateParts.ofCall c
    let query ← updatedRows v p span
    keep c span (p.withQuery (some query))
  | .caseOf =>
    let p := CaseParts.ofCall c
    if p.value = none then keep c span c.operands
    else
      let whens ← conditions v p
      keep c span ((p.withTests whens).take c.operands.length)
  | _ => keep c span c.operands

def bound (ops : Registry) (o : Operator) : Operator :=
  if o.isUnresolved then
    match ops.lookup o.name .function with
    | [only] => only
    | _ => o
  else o

structure Progress where
  tree : Tree := {}
  done : Table NodeId NodeId := {}

abbrev CanonicalM := StateM Progress

def inTree {α : Type} (a : TreeM α) : CanonicalM α := fun s =>
  let (x, tree) := a s.tree
  (x, { s with tree })

def padded (slots : List String) (operands : List Link) : List Link :=
  operands ++ List.replicate (slots.length - operands.length) none

def nodeUpTo (ops : Registry) (source : Tree) : Nat → Bool → Link → CanonicalM Link
  | 0, _, _ => pure none
  | depth + 1, top, id => do
    match id, source.node? id with
    | some i, some n =>
      match (← get).done.get? i with
      | some out => return some out
      | none =>
        let out ← match n.form with
          | .call c => do
            let operands ← c.operands.mapM (nodeUpTo ops source depth false)
            inTree (call v
              { operator := bound ops c.operator, operands := padded c.operator.slots operands }
              n.span top)
          | .list items => do
            let items ← items.mapM (nodeUpTo ops source depth false)
            inTree (Tree.push { n with form := .list items })
          | _ => inTree (Tree.push n)
        modify fun s => { s with done := s.done.insert i out }
        return some out
    | _, _ => return none

def isComplete (ops : Registry) (c : Call) : Bool :=
  let least := match (bound ops c.operator).kind with
    | .explicitTable => 1
    | .orderBy => 2
    | .caseOf => if c.operand 0 = none then 1 else 2
    | .insert | .delete => 4
    | .update => 6
    | _ => 0
  decide (least ≤ (padded c.operator.slots c.operands).length)

end Canonical

/-- The canonical form of a statement. An operand that a form looks at and that is not there is
taken for one that was left out. -/
def Statement.canonical (ops : Registry) (s : Statement) : Except CanonicalError Statement := do
  let v ← Canonical.Vocabulary.ofRegistry ops
  let (root, p) := (Canonical.nodeUpTo v ops s.tree (s.root.getD 0 + 1) true s.root).run {}
  return { tree := p.tree, root }

def Statement.canonicalForm (ops : Registry) (s : Statement) : Except CanonicalError Statement := do
  let form ← s.canonical ops
  if (s.tree.preorder s.root).any fun i => (s.tree.call? i).any fun c =>
    !Canonical.isComplete ops c then
    throw (.faulted .outOfRange)
  return form

end SqlAnalysis

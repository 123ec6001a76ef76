import SqlAnalysis.Tree.Basic

/-!
Walks over a tree and copies of its parts. A node refers only to earlier nodes, so the place of a
node bounds the depth of what hangs under it; that bound is what the walks recurse on.
-/

namespace SqlAnalysis

abbrev TreeM := StateM Tree

def Form.withParts (f : Form) (ps : List Link) : Form :=
  match f with
  | .call c => .call { c with operands := ps }
  | .list _ => .list ps
  | f => f

namespace Tree

/-- The node and what it reaches in preorder, going `depth` levels down at most and not below nodes
that `enter` refuses. -/
def preorderUpTo (t : Tree) (enter : NodeId → Bool) : Nat → NodeId → List NodeId
  | 0, _ => []
  | depth + 1, id =>
    id :: if enter id then (t.children id).flatMap (preorderUpTo t enter depth) else []

/-- The nodes under `id` in preorder, `id` first, without what is below nodes that `enter`
refuses. -/
def preorderWhere (t : Tree) (enter : NodeId → Bool) : Link → List NodeId
  | none => []
  | some id => t.preorderUpTo enter (id + 1) id

def preorder (t : Tree) (id : Link) : List NodeId := t.preorderWhere (fun _ => true) id

def isNullLiteralUpTo (t : Tree) : Nat → Link → Bool
  | 0, _ => false
  | depth + 1, id =>
    match t.form? id with
    | some (.literal l) => l.isNull
    | some (.call c) => c.kind == .cast && isNullLiteralUpTo t depth (c.operand 0)
    | _ => false

def isNullLiteral (t : Tree) (id : Link) : Bool :=
  t.isNullLiteralUpTo (id.getD 0 + 1) id

/-- The first node of least width among those whose place in the source contains `pos`. -/
def nodeAt (t : Tree) (pos : Int) : Link :=
  let narrower (best : Option (NodeId × Span)) (next : NodeId × Span) : Option (NodeId × Span) :=
    match best with
    | none => some next
    | some (_, s) => if next.2.width < s.width then some next else best
  let spans := t.nodes.toList.zipIdx.filterMap fun (n, id) =>
    n.span.bind fun s => if s.contains pos then some (id, s) else none
  (spans.foldl narrower none).map Prod.fst

/-! ### Copies, and the nodes that an analysis adds on its own -/

def push (n : Node) : TreeM NodeId := fun t => t.add n

def build (f : Form) : TreeM NodeId := push { form := f }

def buildCall (op : Operator) (operands : List Link) : TreeM NodeId :=
  build (.call { operator := op, operands })

def buildIdentifier (names : List String) : TreeM NodeId := build (.identifier { names })

def buildList (items : List Link) : TreeM NodeId := build (.list items)

def buildInt (n : Int) : TreeM NodeId := build (.literal (.exact (.ofInt n)))

def buildAlias (as : Operator) (expr : Link) (name : String) : TreeM NodeId := do
  let id ← buildIdentifier [name]
  buildCall as [expr, some id]

def copyUpTo (source : Tree) : Nat → Link → TreeM Link
  | 0, _ => pure none
  | depth + 1, id =>
    match source.node? id with
    | none => pure none
    | some n => do
      let parts ← n.form.parts.mapM (copyUpTo source depth)
      some <$> push { n with form := n.form.withParts parts }

/-- Adds a copy of a node of `source` and of all that it reaches; a node reached twice is copied
twice. -/
def copy (source : Tree) (id : Link) : TreeM Link :=
  source.copyUpTo (id.getD 0 + 1) id

end Tree

end SqlAnalysis

import SqlAnalysis.Operator.Basic
import SqlAnalysis.Source
import SqlAnalysis.Tree.Literal

/-!
Statement trees. A tree is a sequence of nodes that only grows: a node is added after the nodes it
refers to and never changes, so an analysis can keep what it finds out about a node under the node's
place in the sequence, and two nodes that look alike stay two nodes. An operand may be absent.
-/

namespace SqlAnalysis

abbrev NodeId := Nat

abbrev Link := Option NodeId

structure Call where
  operator : Operator
  operands : List Link
deriving Repr, DecidableEq, Inhabited

/-- A name of one or more segments; a last segment `*` stands for all columns. -/
structure Identifier where
  names : List String
  collation : Option Collation := none
deriving Repr, DecidableEq, Inhabited

structure TypeSpec where
  names : List String
  precision : Int := ScalarName.noPrecision
  scale : Int := ScalarName.noPrecision
  charset : String := ""
deriving Repr, DecidableEq, Inhabited

inductive Form where
  | call (c : Call)
  | identifier (i : Identifier)
  | literal (l : Literal)
  | list (items : List Link)
  | typeSpec (s : TypeSpec)
  | parameter (index : Int)
  | qualifier (q : Qualifier)
deriving Repr, DecidableEq, Inhabited

/-- A node with its place in the source; a node that no source wrote has none. -/
structure Node where
  form : Form
  span : Option Span := none
deriving Repr, DecidableEq, Inhabited

structure Tree where
  nodes : Array Node := #[]
deriving Repr, DecidableEq, Inhabited

/-- A statement: its tree and the root, which the empty statement has none of. -/
structure Statement where
  tree : Tree
  root : Link
deriving Repr, DecidableEq, Inhabited

namespace Call

def kind (c : Call) : Kind := c.operator.kind

def operand (c : Call) (k : Nat) : Link := c.operands[k]?.join

end Call

namespace Identifier

variable (i : Identifier)

def last : String := i.names.getLast?.getD ""

def isStar : Bool := i.last == "*"

def isSimple : Bool := i.names.length == 1

def toText : String := Text.join "." i.names

end Identifier

namespace Tree

def size (t : Tree) : Nat := t.nodes.size

variable (t : Tree)

def add (n : Node) : NodeId × Tree := (t.nodes.size, { nodes := t.nodes.push n })

def node? (id : Link) : Option Node := id.bind fun i => t.nodes[i]?

def form? (id : Link) : Option Form := (t.node? id).map Node.form

def span? (id : Link) : Option Span := (t.node? id).bind Node.span

def call? (id : Link) : Option Call :=
  match t.form? id with
  | some (.call c) => some c
  | _ => none

def identifier? (id : Link) : Option Identifier :=
  match t.form? id with
  | some (.identifier i) => some i
  | _ => none

def literal? (id : Link) : Option Literal :=
  match t.form? id with
  | some (.literal l) => some l
  | _ => none

def list? (id : Link) : Option (List Link) :=
  match t.form? id with
  | some (.list items) => some items
  | _ => none

def parameter? (id : Link) : Option Int :=
  match t.form? id with
  | some (.parameter k) => some k
  | _ => none

def typeSpec? (id : Link) : Option TypeSpec :=
  match t.form? id with
  | some (.typeSpec s) => some s
  | _ => none

def kind (t : Tree) (id : Link) : Kind :=
  match t.call? id with
  | some c => c.kind
  | none => .other

def isCall (id : Link) (kinds : List Kind) : Bool :=
  match t.call? id with
  | some c => kinds.contains c.kind
  | none => false

def operand (t : Tree) (id : Link) (k : Nat) : Link :=
  (t.call? id).bind fun c => c.operand k

def items (id : Link) : List Link := (t.list? id).getD []

end Tree

namespace Form

/-- The places of the parts of a node, absent ones included. -/
def parts : Form → List Link
  | .call c => c.operands
  | .list items => items
  | _ => []

def children (f : Form) : List NodeId := f.parts.filterMap id

end Form

namespace Tree

def children (t : Tree) (id : Link) : List NodeId :=
  match t.form? id with
  | some f => f.children
  | none => []

end Tree

end SqlAnalysis

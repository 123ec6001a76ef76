import SqlAnalysis.Tree.Traversal

/-!
Calls whose operands have names: query blocks, joins, windows and the statements that change a
table. A call is seen as a record of its operands, in which an operand that was left out is absent.
-/

namespace SqlAnalysis

/-- The operands of a query block. `source` is what it selects from, `order` the keys by which it
sorts; operands past the named ones are kept in `rest`. -/
structure SelectParts where
  keywords : Link := none
  list : Link := none
  source : Link := none
  condition : Link := none
  groups : Link := none
  having : Link := none
  windows : Link := none
  order : Link := none
  rest : List Link := []
deriving Repr, DecidableEq, Inhabited

namespace SelectParts

def ofCall (c : Call) : SelectParts where
  keywords := c.operand 0
  list := c.operand 1
  source := c.operand 2
  condition := c.operand 3
  groups := c.operand 4
  having := c.operand 5
  windows := c.operand 6
  order := c.operand 7
  rest := c.operands.drop 8

def operands (p : SelectParts) : List Link :=
  [p.keywords, p.list, p.source, p.condition, p.groups, p.having, p.windows, p.order] ++ p.rest

end SelectParts

inductive JoinType where
  | inner | left | right | full | cross | comma
deriving Repr, DecidableEq, Inhabited

namespace JoinType

/-- A join that names no other type is an inner join. -/
def ofSymbol : String → JoinType
  | "LEFT" => .left
  | "RIGHT" => .right
  | "FULL" => .full
  | "CROSS" => .cross
  | "COMMA" => .comma
  | _ => .inner

/-- Whether a row of the right side may go without a match, so that left columns are null. -/
def leftNullable : JoinType → Bool
  | .right | .full => true
  | _ => false

def rightNullable : JoinType → Bool
  | .left | .full => true
  | _ => false

/-- Whether the join pairs all rows and so takes no condition. -/
def isCross : JoinType → Bool
  | .cross | .comma => true
  | _ => false

end JoinType

inductive JoinCondition where
  | none | on | using
  /-- A word without a meaning; the join has a condition that nothing reads. -/
  | unread
deriving Repr, DecidableEq, Inhabited

def JoinCondition.ofSymbol : String → JoinCondition
  | "" | "NONE" => .none
  | "ON" => .on
  | "USING" => .using
  | _ => .unread

structure JoinParts where
  left : Link := none
  natural : Link := none
  type : Link := none
  right : Link := none
  conditionType : Link := none
  condition : Link := none
deriving Repr, DecidableEq, Inhabited

def JoinParts.ofCall (c : Call) : JoinParts where
  left := c.operand 0
  natural := c.operand 1
  type := c.operand 2
  right := c.operand 3
  conditionType := c.operand 4
  condition := c.operand 5

/-- The operands of a window: its own name, the window it starts from, its keys and the bounds of
its frame, which counts rows when `rows` is true. -/
structure WindowParts where
  name : Link := none
  base : Link := none
  partition : Link := none
  order : Link := none
  rows : Link := none
  lower : Link := none
  upper : Link := none
deriving Repr, DecidableEq, Inhabited

def WindowParts.ofCall (c : Call) : WindowParts where
  name := c.operand 0
  base := c.operand 1
  partition := c.operand 2
  order := c.operand 3
  rows := c.operand 4
  lower := c.operand 5
  upper := c.operand 6

/-- The operands of a case distinction. With a value each `when` is compared with it; without one
each is a condition. -/
structure CaseParts where
  value : Link := none
  whens : Link := none
  thens : Link := none
  otherwise : Link := none
  rest : List Link := []
deriving Repr, DecidableEq, Inhabited

namespace CaseParts

def ofCall (c : Call) : CaseParts where
  value := c.operand 0
  whens := c.operand 1
  thens := c.operand 2
  otherwise := c.operand 3
  rest := c.operands.drop 4

def operands (p : CaseParts) : List Link :=
  [p.value, p.whens, p.thens, p.otherwise] ++ p.rest

abbrev withTests (p : CaseParts) (whens : NodeId) : List Link :=
  { p with value := none, whens := some whens }.operands

end CaseParts

structure InsertParts where
  target : Link := none
  source : Link := none
  columns : Link := none
  query : Link := none
  rest : List Link := []
deriving Repr, DecidableEq, Inhabited

namespace InsertParts

def ofCall (c : Call) : InsertParts where
  target := c.operand 0
  source := c.operand 1
  columns := c.operand 2
  query := c.operand 3
  rest := c.operands.drop 4

def operands (p : InsertParts) : List Link :=
  [p.target, p.source, p.columns, p.query] ++ p.rest

abbrev withQuery (p : InsertParts) (query : Link) : List Link := { p with query }.operands

end InsertParts

structure DeleteParts where
  target : Link := none
  condition : Link := none
  aliasName : Link := none
  query : Link := none
  rest : List Link := []
deriving Repr, DecidableEq, Inhabited

namespace DeleteParts

def ofCall (c : Call) : DeleteParts where
  target := c.operand 0
  condition := c.operand 1
  aliasName := c.operand 2
  query := c.operand 3
  rest := c.operands.drop 4

def operands (p : DeleteParts) : List Link :=
  [p.target, p.condition, p.aliasName, p.query] ++ p.rest

abbrev withQuery (p : DeleteParts) (query : Link) : List Link := { p with query }.operands

end DeleteParts

/-- The operands of an update. `query` is the query for the rows that change, each with the new
values of its columns. -/
structure UpdateParts where
  target : Link := none
  columns : Link := none
  sources : Link := none
  condition : Link := none
  aliasName : Link := none
  query : Link := none
  rest : List Link := []
deriving Repr, DecidableEq, Inhabited

namespace UpdateParts

def ofCall (c : Call) : UpdateParts where
  target := c.operand 0
  columns := c.operand 1
  sources := c.operand 2
  condition := c.operand 3
  aliasName := c.operand 4
  query := c.operand 5
  rest := c.operands.drop 6

def operands (p : UpdateParts) : List Link :=
  [p.target, p.columns, p.sources, p.condition, p.aliasName, p.query] ++ p.rest

abbrev withQuery (p : UpdateParts) (query : Link) : List Link := { p with query }.operands

end UpdateParts

namespace Tree

variable (t : Tree)

def select (id : Link) : SelectParts := (t.call? id).elim {} .ofCall

def join (id : Link) : JoinParts := (t.call? id).elim {} .ofCall

def window (id : Link) : WindowParts := (t.call? id).elim {} .ofCall

/-- The items of a list, a node that is no list standing for a list of itself. -/
def elements (id : Link) : List Link :=
  match id with
  | none => []
  | some i => (t.list? i).getD [some i]

def symbol (t : Tree) (id : Link) : String := ((t.literal? id).bind Literal.symbol?).getD ""

def isTrue (id : Link) : Bool := (t.literal? id).bind Literal.truth? == some .true

def isNull (t : Tree) (id : Link) : Bool := (t.literal? id).elim false Literal.isNull

def isStar (t : Tree) (id : Link) : Bool := (t.identifier? id).elim false Identifier.isStar

def joinType (p : JoinParts) : JoinType := .ofSymbol (t.symbol p.type)

def joinCondition (p : JoinParts) : JoinCondition := .ofSymbol (t.symbol p.conditionType)

/-! ### Aggregate calls, those of nested queries left out -/

variable (t : Tree)

/-- Whether a search for aggregates goes below the node: it stops at windowed calls, at queries and
at aggregates themselves. -/
def mayHoldAggregate (id : NodeId) : Bool :=
  match t.call? id with
  | some c => !(c.kind == .over || c.kind.isQuery || c.operator.isAggregate)
  | none => true

def isPlainAggregate (id : NodeId) : Bool :=
  match t.call? id with
  | some c => !(c.kind == .over || c.kind.isQuery) && c.operator.isAggregate
  | none => false

def findAggregate (id : Link) : Link :=
  (t.preorderWhere t.mayHoldAggregate id).find? t.isPlainAggregate

def findOver (id : Link) : Link :=
  (t.preorderWhere (fun n => !(t.kind n).isQuery && t.kind n != .over) id).find? fun n =>
    t.kind n == .over

def isAggregating (query : Link) : Bool :=
  let p := t.select query
  p.groups.isSome || p.having.isSome || (t.findAggregate p.list).isSome

end Tree

end SqlAnalysis

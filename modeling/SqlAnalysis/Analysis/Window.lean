import SqlAnalysis.Analysis.Call

/-!
Windows: what a window consists of once the window it starts from is known, and which frames are
well formed. A frame runs from a lower to an upper bound, each of them the current row, an offset
from it or unbounded.
-/

namespace SqlAnalysis.Analysis

structure Window where
  node : NodeId
  partition : List Link
  order : List Link
  rows : Bool
  lower : Link
  upper : Link

def Window.framed (w : Window) : Bool := w.lower.isSome || w.upper.isSome

/-- An end of a frame. An offset has a value when it is a number. -/
inductive Bound where
  | currentRow
  | preceding (offset : Option Decimal)
  | following (offset : Option Decimal)
  | unboundedPreceding
  | unboundedFollowing
deriving Repr, DecidableEq

def Bound.offset? : Bound → Option Decimal
  | .currentRow => some (.ofInt 0)
  | .preceding d => d.map Decimal.neg
  | .following d => d
  | .unboundedPreceding | .unboundedFollowing => none

def windowNamed? (t : Tree) (m : NameMatcher) (query : Link) (name : String) : Link :=
  let named (w : Link) : Bool :=
    (t.identifier? (t.window w).name).elim false fun i => m.same i.last name
  ((t.elements (t.select query).windows).find? named).join

def windowAt (t : Tree) (m : NameMatcher) (query : Link) (id : Link) : Link :=
  match t.identifier? id with
  | some i => windowNamed? t m query i.last
  | none => id

def findWindow (scope : ScopeId) (name : String) : AnalysisM Link := do
  let a ← get
  return windowNamed? a.tree (← read).matcher (a.store.selectOf scope) name

def maxReferences : Nat := 64

/-- The window with the keys of the window it starts from. It may add an order where the other has
none, and the other may have no frame. -/
def Window.over (w : Window) (p : WindowParts) (base : Window) : AnalysisM Window := do
  if !w.partition.isEmpty then refuse p.partition .partitionOverBase
  if !w.order.isEmpty && !base.order.isEmpty then refuse p.order .orderOverBase
  if base.framed then refuse p.base .framedBase
  return { w with
    partition := base.partition
    order := if w.order.isEmpty then base.order else w.order }

/-- Follows a window name or specification, `depth` references having been followed; `fuel` bounds
how many more. -/
def windowUpTo (scope : ScopeId) : (fuel depth : Nat) → Link → AnalysisM Window
  | 0, _, _ => throw .exhausted
  | fuel + 1, depth, id => do
    let t := (← get).tree
    match id, t.form? id with
    | _, some (.identifier i) =>
      match ← findWindow scope i.last with
      | none => refuse id (.windowNotFound i.last)
      | some w =>
        if depth > maxReferences then refuse id (.windowCycle i.last)
        windowUpTo scope fuel (depth + 1) (some w)
    | some node, some (.call c) =>
      if c.kind ≠ .window then refuse id .notAWindow
      let p := WindowParts.ofCall c
      let w : Window :=
        { node
          partition := t.elements p.partition
          order := t.elements p.order
          rows := t.isTrue p.rows
          lower := p.lower
          upper := p.upper }
      if p.base.isNone then return w
      let base ← windowUpTo scope fuel (depth + 1) p.base
      w.over p base
    | _, _ => refuse id .notAWindow

/-- The window that an operand of `OVER` stands for. Beyond the limit only specifications inside one
another are followed, of which there are fewer than nodes. -/
def resolveWindow (scope : ScopeId) (id : Link) : AnalysisM Window := do
  windowUpTo scope (maxReferences + 3 + (← get).tree.size) 0 id

def containsMonotonic (scope : ScopeId) : AnalysisM Bool := do
  let store := (← get).store
  let children := ((store.selectScope scope).bind store.scope?).elim [] Scope.children
  return children.any fun c => match store.namespace? c.source with
    | some n => n.isValid && n.anyMonotonic
    | none => false

variable (e : Engine)

def checkRange (value : Link) (t : SqlType) : Option SqlType → AnalysisM Unit
  | none => return ()
  | some key =>
    if key.isNumeric then
      if t.isNumeric then return () else refuse value .rangeTypeMismatch
    else if key.isDatetime then
      if t.isInterval then return () else refuse value .rangeTypeMismatch
    else refuse value .rangeProhibited

def isRowOffset : Literal → Bool
  | .exact d => d.isInteger && !d.isNegative
  | _ => false

def boundOffset (scope : ScopeId) (id : Link) (rows : Bool) (key : Option SqlType) :
    AnalysisM (Option Decimal) := do
  let t := (← get).tree
  let value := t.operand id 0
  match t.literal? value with
  | none | some .null => refuse value .boundNotConstant
  | some l =>
    let type ← e.derive scope id
    if rows then
      if !isRowOffset l then refuse value .rowsNotIntegral
    else checkRange value type key
    return l.decimal?

def frameBound (scope : ScopeId) (id : Link) (rows : Bool) (key : Option SqlType) :
    AnalysisM Bound := do
  let t := (← get).tree
  if id.isNone then return .currentRow
  match t.symbol id with
  | "CURRENT_ROW" => return .currentRow
  | "UNBOUNDED_PRECEDING" => return .unboundedPreceding
  | "UNBOUNDED_FOLLOWING" => return .unboundedFollowing
  | _ =>
    match t.kind id with
    | .preceding => return .preceding (← boundOffset e scope id rows key)
    | .following => return .following (← boundOffset e scope id rows key)
    | _ => refuse id .boundNotConstant

def checkBounds (w : Window) (lower upper : Bound) : AnalysisM Unit :=
  match lower, upper with
  | .unboundedFollowing, _ => refuse w.lower .lowerUnboundedFollowing
  | _, .unboundedPreceding => refuse w.upper .upperUnboundedPreceding
  | .currentRow, .preceding _ => refuse w.upper .precedingAfterCurrentRow
  | .following _, .preceding _ => refuse w.upper .nothingAfterFollowing
  | .following _, .currentRow => refuse w.upper .nothingAfterFollowing
  | _, _ => return ()

/-- The frame between two bounds. The numbers of a frame are 64-bit integers. -/
def frameBetween (w : Window) (lower upper : Bound) : AnalysisM Frame := do
  match lower.offset?, upper.offset? with
  | some l, some u =>
    if u.lt l then refuse w.node .negativeFrame
    let first := Number.wrap 64 l.truncate
    let last := Number.wrap 64 u.truncate
    return {
      rows := w.rows, bounded := true, lower := first, upper := last
      size := if w.rows then Number.wrap 64 (last - first + 1) else 0 }
  | _, _ => return { rows := w.rows }

/-- The type of the key that a range is measured in. A range needs one key, unless the rows come
sorted. -/
def orderKey (w : Window) (monotonic : Bool) : AnalysisM (Option SqlType) := do
  match w.order with
  | key :: others =>
    if !others.isEmpty && !w.rows then refuse w.node .compoundRange
    return key.bind (← get).typeOf.get?
  | [] =>
    if !w.rows && !monotonic then refuse w.node .rangeUnordered
    return none

def validateKeys (scope : ScopeId) (keys : List Link) : AnalysisM Unit :=
  keys.forM fun key => do
    e.infer scope key .unknown
    let _ ← e.derive scope key

def validateWindow (scope : ScopeId) (w : Window) (op : Option Operator) : AnalysisM Frame := do
  validateKeys e scope w.partition
  validateKeys e scope w.order
  let ranking := op.filter fun o => o.kind.isRanking
  let monotonic ← containsMonotonic scope
  if !w.framed then
    if let some o := ranking then
      if w.order.isEmpty && !monotonic then refuse w.node (.rankUnordered o.name)
    return { rows := w.rows }
  if let some o := ranking then refuse w.node (.rankFramed o.name)
  let key ← orderKey w monotonic
  let lower ← frameBound e scope w.lower w.rows key
  let upper ← frameBound e scope w.upper w.rows key
  checkBounds w lower upper
  frameBetween w lower upper

def setFrame (id : NodeId) (f : Frame) : AnalysisM Unit :=
  modify fun a => { a with frames := a.frames.insert id f }

def deriveOver (scope : ScopeId) (id : NodeId) (c : Call) : AnalysisM SqlType := do
  let target := c.operand 0
  match target, (← get).tree.call? target with
  | some aggregate, some inner =>
    if !inner.operator.isAggregate then refuse target .notAnAggregate
    let w ← resolveWindow scope (c.operand 1)
    let frame ← validateWindow e scope w (some inner.operator)
    setFrame id frame
    let t ← deriveOperator e scope aggregate inner true
    setType aggregate t
    setScope aggregate scope
    return t
  | _, _ => refuse target .notAnAggregate

def declareWindows (scope : ScopeId) : List String → List Link → AnalysisM Unit
  | _, [] => return ()
  | seen, id :: rest => do
    let t := (← get).tree
    match id, t.identifier? (t.window id).name with
    | some w, some i =>
      let key := (← read).matcher.key i.last
      if seen.contains key then refuse id .duplicateWindow
      let window ← resolveWindow scope id
      let frame ← validateWindow e scope window none
      setFrame w frame
      declareWindows scope (key :: seen) rest
    | _, _ => refuse id .unnamedWindow

end SqlAnalysis.Analysis

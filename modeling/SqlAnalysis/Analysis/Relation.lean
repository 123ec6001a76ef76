import SqlAnalysis.Analysis.Select

/-!
Relations that are no query blocks: tables, table constructors, set operations and multisets.
-/

namespace SqlAnalysis.Analysis

def similarObjects (names : List String) : AnalysisM (List String) := do
  match (← read).catalog.objects names.dropLast with
  | .ok objects => similar (names.getLast?.getD "") objects
  | .error _ => return []

def validateTable (ns : NamespaceId) (node : NodeId) : AnalysisM SqlType := do
  let i := ((← get).tree.identifier? node).getD default
  let reader := (← read).catalog
  let answer ← modifyGet fun a =>
    let (answer, lookups) := a.lookups.table reader i.names
    (answer, { a with lookups })
  match answer with
  | .error e => throw (.catalog e)
  | .ok none => refuse node (.objectNotFound i.toText) (← similarObjects i.names)
  | .ok (some table) =>
    modifyNamespace ns fun n => { n with table := some table }
    building (TypeTable.adopt table.row)

variable (e : Engine)

def cellsOf (t : Tree) (row : Link) : List Link :=
  match t.call? row with
  | some c => if c.kind == .row then c.operands else [row]
  | none => [row]

def bareCell (t : Tree) (cell : Link) : Link :=
  if t.isCall cell [.naming] then t.operand cell 0 else cell

variable (scope : ScopeId)

def columnType (node : NodeId) (cells : List Link) : AnalysisM SqlType := do
  let t := (← get).tree
  let typed := (cells.map (bareCell t)).filter fun c => !(t.isNull c) && (t.parameter? c).isNone
  let ts ← typed.mapM (e.derive scope)
  match ts.filter fun t => !t.isUnknown with
  | [] => return .unknown
  | known =>
    match ← building (TypeTable.leastRestrictive known) with
    | some t => return t
    | none => refuse node .rowTypes

def columnField (node : NodeId) (expected : SqlType) (place : Nat)
    (cells : List Link) : AnalysisM Field := do
  let t := (← get).tree
  let ts ← cells.mapM fun cell => do
    e.infer scope (bareCell t cell) expected
    e.derive scope cell
  match ← building (TypeTable.leastRestrictive ts) with
  | some type => return ((splitAlias t (cells.head?.join) place).2, type)
  | none => refuse node .rowTypes

def checkRowLengths (t : Tree) (rows : List Link) : AnalysisM Unit :=
  let width := (rows.head?.elim [] (cellsOf t)).length
  if rows.isEmpty then throw (.faulted .outOfRange)
  else rows.forM fun row =>
    if (cellsOf t row).length = width then pure () else refuse row .rowLengths

/-- Validates a table constructor. Each column has the type that its cells have in common, null
constants and parameters taking the type of their column; the first row names the columns. -/
def validateValues (node : NodeId) (target : SqlType) : AnalysisM SqlType := do
  let t := (← get).tree
  let rows := (t.call? node).elim [] Call.operands
  checkRowLengths t rows
  let width := (rows.head?.elim [] (cellsOf t)).length
  let columns := (List.range width).map fun k => rows.map fun row => ((cellsOf t row)[k]?).join
  let expected ← if target.isRow && target.fields.length == width then pure target.fieldTypes
    else columns.mapM (columnType e scope node)
  let fields ← (columns.zip expected).zipIdx.mapM fun ((cells, type), k) =>
    columnField e scope node type k cells
  let type ← building (TypeTable.row fields)
  rows.forM fun row => match row with
    | some r => if t.isCall r [.row] then setType r type else pure ()
    | none => pure ()
  return type

/-- The columns at one place of the branches of a set operation; `branches` are the nodes of those
after the first. -/
def branchColumn (op : String) (width place : Nat) :
    List (Link × SqlType) → AnalysisM (List SqlType)
  | [] => return []
  | (branch, row) :: rest => do
    if row.fields.length ≠ width then refuse branch (.branchColumns op)
    let ts ← branchColumn op width place rest
    return ((row.fieldTypes[place]?).getD .unknown) :: ts

def validateSetOp (node : NodeId) (target : SqlType) : AnalysisM SqlType := do
  let t := (← get).tree
  let op := (t.call? node).elim "" fun c => c.operator.name
  let branches := (t.call? node).elim [] Call.operands
  let rows ← branches.mapM fun branch => do
    match (← get).namespaceAt branch with
    | none => refuse branch (.branchUnregistered op)
    | some ns => e.rowOf ns target
  if rows.isEmpty then throw (.faulted .outOfRange)
  let first := rows.head?.getD .unknown
  let fields ← first.fields.zipIdx.mapM fun ((name, type), k) => do
    let others ← branchColumn op first.fields.length k (branches.tail.zip rows.tail)
    match ← building (TypeTable.leastRestrictive (type :: others)) with
    | some t => return (name, t)
    | none => refuse node (.branchTypes (k + 1) op)
  building (TypeTable.row fields)

def validateUnnest (node : NodeId) : AnalysisM SqlType := do
  let arg := (← get).tree.operand node 0
  e.infer scope arg .unknown
  let t ← e.derive scope arg
  match t with
  | .multiset (.row fields _) _ => building (TypeTable.row fields)
  | .multiset element _ => building (TypeTable.row [(columnName 0, element)])
  | _ => refuse arg (.notAMultiset t.toText)

def validateCollect (node : NodeId) : AnalysisM SqlType := do
  let query := (← get).tree.operand node 0
  match (← get).namespaceAt query with
  | none => refuse query .multisetUnregistered
  | some ns =>
    let row ← e.rowOf ns
    building do
      let t ← TypeTable.multiset row
      TypeTable.row [(columnName 0, t)]

end SqlAnalysis.Analysis

import SqlAnalysis.Analysis.Relation

/-!
Statements that change a table: the target table, the query for the rows and the assignment of its
columns to those of the table.
-/

namespace SqlAnalysis.Analysis

def changeTarget (c : Call) : Link :=
  match c.kind with
  | .insert => (InsertParts.ofCall c).target
  | .update => (UpdateParts.ofCall c).target
  | _ => (DeleteParts.ofCall c).target

variable (e : Engine)

/-- Validates the target of a change. The statement itself gives the number of rows. -/
def validateTarget (ns : NamespaceId) (node : NodeId) : AnalysisM SqlType := do
  let c := ((← get).tree.call? node).getD default
  match (← get).namespaceAt (changeTarget c) with
  | none => refuse node (.targetUnregistered c.operator.name)
  | some target =>
    e.validate target .unknown
    let table := (← namespaceOfId target).table
    modifyNamespace ns fun n => { n with table }
    building do
      let t ← TypeTable.scalar .bigint
      TypeTable.row [("ROWCOUNT", t)]

def validateSource (id : Link) (target : SqlType) : AnalysisM SqlType := do
  match (← get).namespaceAt id with
  | none => refuse id .changeUnregistered
  | some ns => e.rowOf ns target

def listedColumns (table : SqlType) : List String → List Link → AnalysisM (List Field)
  | _, [] => return []
  | seen, col :: rest => do
    match col, (← get).tree.identifier? col with
    | some id, some i =>
      match ← field? table i.last with
      | none => refuse col (.unknownTarget i.last) (← similar i.last table.fieldNames)
      | some f =>
        if seen.contains f.1 then refuse col (.duplicateTarget f.1)
        setType id f.2
        let fs ← listedColumns table (f.1 :: seen) rest
        return f :: fs
    | _, _ => refuse col .columnNotAName

def targetColumns (table : SqlType) (list : Link) : AnalysisM SqlType := do
  if list.isNone then return table
  let fields ← listedColumns table [] ((← get).tree.elements list)
  building (TypeTable.row fields)

def checkAssign (id : Link) (column source : Field) : AnalysisM Unit :=
  if column.2.canAssign source.2 then pure ()
  else refuse id (.notAssignable column.1 column.2.fullText source.1 source.2.fullText)

def validateInsert (c : Call) (table : SqlType) : AnalysisM Unit := do
  let p := InsertParts.ofCall c
  let target ← targetColumns table p.columns
  let row ← validateSource e p.query target
  if row.fields.length ≠ target.fields.length then
    refuse p.query (.targetCount "INSERT" target.fields.length row.fields.length)
  (target.fields.zip row.fields).forM fun (column, source) => checkAssign p.query column source

/-- Validates an update. Its query gives the columns of the table and then the new values. -/
def validateUpdate (c : Call) (table : SqlType) : AnalysisM Unit := do
  let p := UpdateParts.ofCall c
  let target ← targetColumns table p.columns
  let sources := (← get).tree.elements p.sources
  if sources.length ≠ target.fields.length then
    refuse p.sources (.targetCount "UPDATE" target.fields.length sources.length)
  let expected ← building (TypeTable.row (table.fields ++ target.fields))
  let row ← validateSource e p.query expected
  let values := row.fields.drop table.fields.length
  (sources.zip (target.fields.zip values)).forM fun (id, column, source) =>
    checkAssign id column source
  if values.length < target.fields.length then throw (.faulted .outOfRange)

def validateChange (id : NodeId) : AnalysisM Unit := do
  let a ← get
  match a.namespaceAt id, a.relation? id, a.tree.call? id with
  | some ns, some n, some c =>
    if n.kind ≠ .change then refuse id .statementUnregistered
    e.validate ns .unknown
    let table := ((← get).relation? (changeTarget c)).elim .unknown Namespace.row
    match c.kind with
    | .insert => validateInsert e c table
    | .update => validateUpdate e c table
    | _ => let _ ← validateSource e (DeleteParts.ofCall c).query .unknown
  | _, _, _ => refuse id .statementUnregistered

end SqlAnalysis.Analysis

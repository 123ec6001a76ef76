import SqlAnalysis.Analysis.State
import SqlAnalysis.Tree.Parts

/-!
Types from the context. What a context expects of an expression is pushed down to its parameters and
null constants, which have no type of their own. Nested queries are left out: they are given their
types when they are validated.
-/

namespace SqlAnalysis.Analysis

variable (e : Engine)

variable (scope : ScopeId)

def inferOperands (c : Call) (target : SqlType) : AnalysisM Unit := do
  let t := (← get).tree
  let expected ← match c.operator.expects with
    | none => pure (c.operands.map fun _ => SqlType.unknown)
    | some rule => do
      let ts ← c.operands.mapM fun arg =>
        if arg.isNone || (t.kind arg).isQuery then pure .unknown else e.deriveSoft scope arg
      building (rule.expected ts target)
  (c.operands.zip expected).forM fun (arg, type) => e.infer scope arg type

def inferCase (id : NodeId) (c : Call) : AnalysisM Unit := do
  let t := (← get).tree
  let p := CaseParts.ofCall c
  let condition ← boolean
  (t.elements p.whens).forM fun w => e.infer scope w condition
  let type ← e.derive scope id
  (t.elements p.thens).forM fun b => e.infer scope b type
  match p.otherwise with
  | none => return ()
  | some b => if t.isNull b then setType b type else e.infer scope b type

def inferCast (c : Call) : AnalysisM Unit := do
  let type ← e.derive scope (c.operand 1)
  match c.operand 0 with
  | none => return ()
  | some source =>
    if (← get).tree.isNull source then
      setType source (← building (TypeTable.withNullable true type))
    else e.infer scope source type

def inferOver (c : Call) (target : SqlType) : AnalysisM Unit := do
  if let some inner := (← get).tree.call? (c.operand 0) then inferOperands e scope inner target
  e.infer scope (c.operand 1) .unknown

def inferCall (id : NodeId) (c : Call) (target : SqlType) : AnalysisM Unit := do
  if c.kind.isStatement then return ()
  match c.kind with
  | .multisetQuery | .scalarQuery | .existsRows | .preceding | .following => return ()
  | .naming | .descending => e.infer scope (c.operand 0) target
  | .caseOf => inferCase e scope id c
  | .cast => inferCast e scope c
  | .over => inferOver e scope c target
  | .window =>
    let p := WindowParts.ofCall c
    e.infer scope p.partition .unknown
    e.infer scope p.order .unknown
  | _ =>
    let store := (← get).store
    inferOperands e (if c.operator.isAggregate then store.ungrouped scope else scope) c target

/-- Pushes a type into a list: a row type field by field, where the numbers agree, any other type
into each item. -/
def inferList (items : List Link) (target : SqlType) : AnalysisM Unit :=
  match target with
  | .row fields _ =>
    if fields.length = items.length then
      (items.zip fields).forM fun (item, f) => e.infer scope item f.2
    else return ()
  | _ => items.forM fun item => e.infer scope item target

def infer (id : Link) (target : SqlType) : AnalysisM Unit := do
  match id, (← get).tree.form? id with
  | some i, some (.parameter k) =>
    if target.isUnknown then refuse id .parameterUntyped
    let t ← building (TypeTable.withNullable true target)
    setType i t
    modify fun a => { a with parameters := a.parameters.insert k t }
  | some i, some (.literal .null) =>
    if target.isUnknown || target.isNull then refuse id .nullUntyped
    setType i (← building (TypeTable.withNullable true target))
  | some _, some (.list items) => inferList e scope items target
  | some i, some (.call c) => inferCall e scope i c target
  | _, _ => return ()

end SqlAnalysis.Analysis

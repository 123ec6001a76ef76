import SqlAnalysis.Fault
import SqlAnalysis.NameMatcher
import SqlAnalysis.SqlType.Table
import SqlAnalysis.Yaml.Decode
import SqlAnalysis.Yaml.Document

/-!
Catalogs held in memory, and the documents of schemas, tables and named types that they are built
from. A table is found by its schema and name, or by its name alone when it belongs to the default
schema.
-/

namespace SqlAnalysis.Catalog

structure ColumnSpec where
  name : String := ""
  type : String := ""
  precision : Option Int := none
  scale : Int := 0
  /-- Columns admit the null value unless they say otherwise. -/
  nullable : Option Bool := none
  collation : String := ""
  monotonic : Bool := false
deriving Repr, DecidableEq, Inhabited

structure TableSpec where
  name : String := ""
  columns : List ColumnSpec := []
deriving Repr, DecidableEq, Inhabited

structure SchemaSpec where
  name : String := ""
  tables : List TableSpec := []
  types : List ColumnSpec := []
deriving Repr, DecidableEq, Inhabited

structure Document where
  defaultSchema : String := ""
  schemas : List SchemaSpec := []
deriving Repr, DecidableEq, Inhabited

open Yaml

def ColumnSpec.shape : Shape ColumnSpec where
  type := "catalog.Column"
  field?
    | "name" => field string fun c name => { c with name }
    | "type" => field string fun c type => { c with type }
    | "precision" => field int fun c n => { c with precision := some n }
    | "scale" => field int fun c scale => { c with scale }
    | "nullable" => field bool fun c b => { c with nullable := some b }
    | "collation" => field string fun c collation => { c with collation }
    | "monotonic" => field bool fun c monotonic => { c with monotonic }
    | _ => none

def columnList : Decoder (List ColumnSpec) :=
  list ColumnSpec.shape.type (ColumnSpec.shape.record {})

def TableSpec.shape : Shape TableSpec where
  type := "catalog.TableSpec"
  field?
    | "name" => field string fun t name => { t with name }
    | "columns" => field columnList fun t columns => { t with columns }
    | _ => none

def SchemaSpec.shape : Shape SchemaSpec where
  type := "catalog.Schema"
  field?
    | "name" => field string fun s name => { s with name }
    | "tables" => field (list TableSpec.shape.type (TableSpec.shape.record {})) fun s tables =>
      { s with tables }
    | "types" => field columnList fun s types => { s with types }
    | _ => none

def Document.shape : Shape Document where
  type := "catalog.Document"
  field?
    | "default_schema" => field string fun d defaultSchema => { d with defaultSchema }
    | "schemas" =>
      field (list SchemaSpec.shape.type (SchemaSpec.shape.record {})) fun d schemas =>
        { d with schemas }
    | _ => none

end SqlAnalysis.Catalog

namespace SqlAnalysis

structure Relation where
  names : List String
  row : SqlType
  /-- The columns whose values never decrease from row to row. -/
  monotonic : List String := []
deriving Inhabited

structure Catalog where
  defaultSchema : String := ""
  matcher : NameMatcher := {}
  tables : Table String Relation := {}
  types : Table String SqlType := {}
  /-- The names directly below a qualified name, in the order of the document. -/
  below : Table String (List String) := {}
deriving Inhabited

namespace Catalog

inductive ColumnError where
  | unknownType (column type : String)
  | collation (e : CollationError)
  | notCharacter (column : String) (type : TypeName)
  | faulted (f : Fault)
deriving Repr, DecidableEq

def ColumnError.message : ColumnError → String
  | .unknownType column type => "column " ++ column ++ ": unknown type " ++ Text.quote type
  | .collation e => e.message
  | .notCharacter column type =>
    "column " ++ column ++ ": collation on non-character type " ++ type.toText
  | .faulted f => f.message

inductive Error where
  | yaml (e : YamlError)
  | duplicateTable (schema table : String)
  | inTable (schema table : String) (e : ColumnError)
  | inType (schema type : String) (e : ColumnError)
deriving Repr, DecidableEq

def Error.message : Error → String
  | .yaml e => "catalog: " ++ e.message
  | .duplicateTable schema table => "catalog: duplicate table " ++ schema ++ "." ++ table
  | .inTable schema table e => "catalog: table " ++ schema ++ "." ++ table ++ ": " ++ e.message
  | .inType schema type e => "catalog: type " ++ schema ++ "." ++ type ++ ": " ++ e.message

open TypeTable

def ColumnSpec.baseType (c : ColumnSpec) (name : TypeName) :
    TypeM (Except ColumnError SqlType) := do
  let precision := c.precision.getD name.defaultPrecision
  if name = .scalar .decimal then return .ok (← decimal precision c.scale)
  if c.collation = "" then
    if name = .multiset then return .error (.faulted .absent)
    return .ok (← ofNamePrecision name precision)
  match Collation.ofName c.collation .implicit, name with
  | .error e, _ => return .error (.collation e)
  | .ok collation, .scalar n =>
    if n.isChar then return .ok (← char n precision collation)
    else return .error (.notCharacter c.name name)
  | .ok _, _ => return .error (.notCharacter c.name name)

def ColumnSpec.sqlType (c : ColumnSpec) : TypeM (Except ColumnError SqlType) := do
  match TypeName.ofText? c.type with
  | none => return .error (.unknownType c.name c.type)
  | some name =>
    match ← c.baseType name with
    | .error e => return .error e
    | .ok t => return .ok (← withNullable (c.nullable.getD true) t)

def fieldsOf : List ColumnSpec → TypeM (Except ColumnError (List Field))
  | [] => return .ok []
  | c :: cs => do
    match ← c.sqlType with
    | .error e => return .error e
    | .ok t =>
      let t ← if c.collation = "" && t.isChar then withCollation (.default .implicit) t else pure t
      match ← fieldsOf cs with
      | .error e => return .error e
      | .ok fs => return .ok ((c.name, t) :: fs)

def key (c : Catalog) (names : List String) : String := Text.join "." (names.map c.matcher.key)

variable (c : Catalog)

def addBelow (key name : String) : Catalog :=
  { c with below := c.below.insert key ((c.below.get? key).getD [] ++ [name]) }

def addTable (schema : String) (c : Catalog) (spec : TableSpec) : TypeM (Except Error Catalog) := do
  let names := [schema, spec.name]
  if c.tables.contains (c.key names) then return .error (.duplicateTable schema spec.name)
  match ← fieldsOf spec.columns with
  | .error e => return .error (.inTable schema spec.name e)
  | .ok fields =>
    let row ← row fields
    let monotonic := (spec.columns.filter (fun s => s.monotonic)).map ColumnSpec.name
    let c := { c with tables := c.tables.insert (c.key names) { names, row, monotonic } }
    return .ok (c.addBelow (c.key [schema]) spec.name)

def addType (schema : String) (c : Catalog) (spec : ColumnSpec) : TypeM (Except Error Catalog) := do
  match ← spec.sqlType with
  | .error e => return .error (.inType schema spec.name e)
  | .ok t => return .ok { c with types := c.types.insert (c.key [schema, spec.name]) t }

def addAll {α : Type} (add : Catalog → α → TypeM (Except Error Catalog)) :
    Catalog → List α → TypeM (Except Error Catalog)
  | c, [] => return .ok c
  | c, a :: as => do
    match ← add c a with
    | .error e => return .error e
    | .ok c => addAll add c as

def addSchema (s : SchemaSpec) : TypeM (Except Error Catalog) := do
  let c := c.addBelow "" s.name
  match ← addAll (addTable s.name) c s.tables with
  | .error e => return .error e
  | .ok c => addAll (addType s.name) c s.types

def ofDocument (matcher : NameMatcher) (d : Document) : TypeM (Except Error Catalog) :=
  addAll addSchema { defaultSchema := d.defaultSchema, matcher } d.schemas

def ofYaml (matcher : NameMatcher) (y : YamlDocument) : TypeM (Except Error Catalog) :=
  match Document.shape.decodeOver {} y with
  | .error e => pure (.error (.yaml e))
  | .ok d => ofDocument matcher d

def parse (matcher : NameMatcher) (text : String) : TypeM (Except Error Catalog) :=
  match Yaml.parse text with
  | .error e => pure (.error (.yaml e))
  | .ok y => ofYaml matcher y

def qualify (names : List String) : List String :=
  match names with
  | [name] => if c.defaultSchema = "" then names else [c.defaultSchema, name]
  | _ => names

def table? (names : List String) : Option Relation :=
  c.tables.get? (c.key (c.qualify names))

def type? (names : List String) : Option SqlType :=
  c.types.get? (c.key (c.qualify names))

def belowKey (key : String) : List String := (c.below.get? key).getD []

/-- The names directly below a qualified name, sorted and without repetition; below the empty name
also the tables of the default schema. -/
def objects (path : List String) : List String :=
  let defaults :=
    if path.isEmpty && c.defaultSchema != "" then c.belowKey (c.key [c.defaultSchema]) else []
  (defaults ++ c.belowKey (c.key path)).eraseDups.mergeSort (fun a b => decide (a ≤ b))

end Catalog

end SqlAnalysis

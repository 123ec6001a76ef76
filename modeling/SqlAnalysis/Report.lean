import SqlAnalysis.Json
import SqlAnalysis.Script.Writer
import SqlAnalysis.Validator

/-!
Reports on statements: the type of a valid one, the place and cause of a failure, a canonical form
or a list of completions, as text for people or as JSON with one object a statement.
-/

namespace SqlAnalysis

inductive Report where
  | validated (type : Option SqlType) (parameters : SqlType)
  | failed (source : Source) (f : Failure)
  | canonical (s : Statement)
  | hints (names : List String)

structure ReportFormat where
  json : Bool := false
  pretty : Bool := false
deriving Repr, DecidableEq

def Text.ended (s : String) : String := if s.endsWith "\n" then s else s ++ "\n"

namespace Report

def typeText (t : Option SqlType) : String := t.elim "<nil>" SqlType.toText

def fieldTexts (t : SqlType) : List (String × String) :=
  t.fields.map fun (name, type) => (name, type.toText)

/-! ### Text -/

def lines (ls : List String) : String := Text.join "" (ls.map (· ++ "\n"))

def toText : Report → String
  | .validated type parameters =>
    lines (typeText type :: (fieldTexts parameters).map fun (name, type) => name ++ " " ++ type)
  | .failed source f => Text.ended (f.render source)
  | .canonical s => Script.write s.tree s.root ++ "\n"
  | .hints names => lines names

/-! ### JSON -/

open JsonValue

def text (name value : String) : List (String × JsonValue) :=
  if value = "" then [] else [(name, string value)]

def texts (name : String) (values : List String) : List (String × JsonValue) :=
  if values.isEmpty then [] else [(name, array (values.map string))]

def fields (name : String) (values : List (String × String)) : List (String × JsonValue) :=
  if values.isEmpty then []
  else [(name,
    array (values.map fun (name, type) => object [("name", string name), ("type", string type)]))]

def number (name : String) (value : Int) : List (String × JsonValue) :=
  if value = 0 then [] else [(name, .number value)]

def failureFields (source : Source) (f : Failure) : List (String × JsonValue) :=
  match f.diagnostic? with
  | none => text "message" f.message
  | some d =>
    let place := d.located.position (some source)
    text "code" d.code.toText ++ text "message" d.cause.message ++
      (if place.isValid then number "line" place.line ++ number "column" place.column else []) ++
      texts "suggestions" d.suggestions ++ texts "signatures" d.signatures

def toJson (name : String) (r : Report) : JsonValue :=
  object (text "name" name ++ match r with
    | .validated type parameters =>
      ("valid", .bool true) :: text "type" (typeText type) ++
        fields "fields" (type.elim [] fieldTexts) ++ fields "parameters" (fieldTexts parameters)
    | .failed source f => ("valid", .bool false) :: failureFields source f
    | .canonical s => ("valid", .bool true) :: text "tree" (Script.write s.tree s.root)
    | .hints names => [("hints", array (names.map string))])

end Report

/-- Writes the report on a statement. As text it starts with the statement's name, if it has one,
when there are `several`. -/
def ReportFormat.write (format : ReportFormat) (several : Bool) (name : String)
    (r : Report) : String :=
  if format.json then
    (r.toJson name).toText (if format.pretty then .indented else .compact) ++ "\n"
  else
    (if several && name != "" then "== " ++ name ++ " ==\n" else "") ++ r.toText

end SqlAnalysis

import SqlAnalysis.CommandLine.Command
import SqlAnalysis.LineDiff

/-!
Tests written as documents. A statement test says what is reported about a statement and which error
it meets; a script test names the files that a script reads and writes. A test is loaded, checked
and run in turn, so that a document that cannot be a test is told apart from a test that fails.
-/

namespace SqlAnalysis

open CommandLine

structure TestFile where
  name : String := ""
  data : Option String := none
  source : String := ""
  regexp : String := ""
deriving Repr, DecidableEq

inductive TestMode where
  | validate
  | canonical
  | hints
deriving Repr, DecidableEq

structure StatementTest where
  skip : String := ""
  tag : String := ""
  statement : String := ""
  catalog : String := ""
  config : String := ""
  mode : String := ""
  pos : Int := 0
  output : String := ""
  outputFlags : String := ""
  error : String := ""
  script : String := ""
  inputs : List TestFile := []
  outputs : Option (List TestFile) := none
  env : List String := []
deriving Repr, DecidableEq

/-! ### Loading -/

inductive TestLoadError where
  | file (e : FileError)
  | yaml (e : YamlError)
  | empty
  | severalDocuments
deriving Repr, DecidableEq

def TestLoadError.message : TestLoadError → String
  | .file e => e.message
  | .yaml e => e.message
  | .empty => "EOF"
  | .severalDocuments => "file must contain one YAML document"

open Yaml in
def TestFile.shape : Shape TestFile where
  type := "ztest.File"
  closed := true
  field?
    | "name" => field string fun f name => { f with name }
    | "data" => field string fun f data => { f with data := some data }
    | "source" => field string fun f source => { f with source }
    | "regexp" => field string fun f regexp => { f with regexp }
    | _ => none

namespace StatementTest

open Yaml in
def shape : Shape StatementTest where
  type := "ztest.ZTest"
  closed := true
  field?
    | "skip" => field string fun t skip => { t with skip }
    | "tag" => field string fun t tag => { t with tag }
    | "statement" => field string fun t statement => { t with statement }
    | "catalog" => field string fun t catalog => { t with catalog }
    | "config" => field string fun t config => { t with config }
    | "mode" => field string fun t mode => { t with mode }
    | "pos" => field int fun t pos => { t with pos }
    | "output" => field string fun t output => { t with output }
    | "output-flags" => field string fun t outputFlags => { t with outputFlags }
    | "error" => field string fun t error => { t with error }
    | "script" => field string fun t script => { t with script }
    | "inputs" => field (list TestFile.shape.type (TestFile.shape.record {})) fun t inputs =>
      { t with inputs }
    | "outputs" =>
      field (list TestFile.shape.type (TestFile.shape.record {})) fun t fs =>
        { t with outputs := some fs }
    | "env" => field (list "string" string) fun t env => { t with env }
    | _ => none

/-- A test is the only document of its text. -/
def parse (text : String) : Except TestLoadError StatementTest := do
  match ← (Yaml.firstDocument text).mapError .yaml with
  | none => throw .empty
  | some (y, isOnly) =>
    let t ← (shape.decodeOver {} y).mapError .yaml
    if isOnly then return t else throw .severalDocuments

def load (files : Files) (name : String) : Except TestLoadError StatementTest := do
  parse (← (files.read name).mapError .file)

def loadAll (files : Files) : List (String × Except TestLoadError StatementTest) :=
  (files.names.filter (·.endsWith ".yaml")).map fun name => (name, load files name)

/-! ### Checking -/

inductive FormatError where
  | noOutputs
  | twoSources (file : String)
  | inputPattern (file : String)
  | nothingToRun
  | noCatalog
  | unknownMode (name : String)
deriving Repr, DecidableEq

def FormatError.message : FormatError → String
  | .noOutputs => "outputs field missing in a sh test"
  | .twoSources file => file ++ ": must specify at most one of data or source"
  | .inputPattern file => file ++ ": cannot use regexp in an input"
  | .nothingToRun => "either a statement field or script field must be present"
  | .noCatalog => "catalog field missing"
  | .unknownMode name => "unknown mode " ++ Text.quote name

variable (t : StatementTest)

def isScript : Bool := t.script != ""

def checkFile (f : TestFile) : Except FormatError Unit :=
  if f.data.isSome && f.source != "" then .error (.twoSources f.name) else .ok ()

def checkScript : Except FormatError Unit :=
  match t.outputs with
  | none => .error .noOutputs
  | some outputs => do
    t.inputs.forM fun f => do
      checkFile f
      if f.regexp != "" then throw (.inputPattern f.name)
    outputs.forM checkFile

/-- The mode of a statement test. Only the canonical form can do without a catalog. -/
def checkMode : Except FormatError TestMode :=
  let analysing (m : TestMode) : Except FormatError TestMode :=
    if t.catalog = "" then .error .noCatalog else .ok m
  match t.mode with
  | "" | "validate" => analysing .validate
  | "hints" => analysing .hints
  | "rewrite" => .ok .canonical
  | name => .error (.unknownMode name)

def check : Except FormatError (Option TestMode) := do
  if t.isScript then
    checkScript t
    return none
  if t.statement = "" then throw .nothingToRun
  return some (← checkMode t)

/-- Why a test is passed over, if it is. With a `path` to run scripts by, only scripts are run, else
only statements; a tag has to be the one that is asked for. -/
def skipReason (path tag : String) (t : StatementTest) : String :=
  if t.isScript && path = "" then "script test on in-process run"
  else if t.statement ≠ "" ∧ path ≠ "" then "in-process test on script run"
  else if t.skip ≠ "" then t.skip
  else if t.tag ≠ "" ∧ t.tag ≠ tag then
    "tag " ++ Text.quote t.tag ++ " does not match ZTEST_TAG=" ++ Text.quote tag
  else ""

/-! ### Running -/

inductive RunError where
  | command (e : CommandError)
  | settings (e : YamlError)
  | invalid (source : Source) (f : Failure)

def RunError.message : RunError → String
  | .command e => e.message
  | .settings e => e.message
  | .invalid source f => f.render source

def report (t : StatementTest) (files : Files) (mode : TestMode) : Except RunError String := do
  let flags ← (readArguments reportFlags {} (Text.words t.outputFlags)).mapError fun e =>
    .command (.flag e)
  let format ← (reportFormat flags).mapError .command
  let config ← (Yaml.parse t.config >>= Config.ofYaml {}).mapError .settings
  let q ← (Query.read "" (.ofText "" t.statement)).mapError .command
  let o : Options := { config, format, catalog := Path.clean t.catalog, pos := t.pos }
  let write (r : Report) : String := format.write false "" r
  match mode with
  | .canonical =>
    let s ← (q.statement.canonicalForm .standard).mapError fun e => .command (.canonical e)
    return write (.canonical s)
  | .hints =>
    let (catalog, types) ← (o.openCatalog files).mapError .command
    let (names, _) := Validator.hints q.statement t.pos (o.validator catalog types)
    return write (.hints (← names.mapError fun f => .command (.hints f)))
  | .validate =>
    let (catalog, types) ← (o.openCatalog files).mapError .command
    let ((result, report), _) := validationReport q (o.validator catalog types)
    result.mapError (.invalid q.source)
    return write report

inductive TestFailure where
  | format (e : FormatError)
  /-- What was expected and what was found, under the name of what is compared. -/
  | different (found : List (String × String × String))
  | file (e : FileError)
  | noData (file : String)

def contextLines : Nat := 5

def differenceText (name expected actual : String) : String :=
  "expected and actual " ++ name ++ " differ:\n" ++
    LineDiff.unified contextLines "expected" "actual" expected actual

def TestFailure.message : TestFailure → String
  | .format e => "bad yaml format: " ++ e.message
  | .different found =>
    Text.join "\n" (found.map fun (name, expected, actual) => differenceText name expected actual)
  | .file e => e.message
  | .noData name => name ++ ": no data source"

/-- Compares what a statement test expects with what is reported. An error leaves no output. -/
def compare (r : Except RunError String) : Except TestFailure Unit :=
  let (output, error) := match r with
    | .ok output => (output, "")
    | .error e => ("", Text.ended e.message)
  let found :=
    [("output", t.output, output), ("error", t.error, error)].filter fun (_, expected, actual) =>
    expected != actual
  if found.isEmpty then .ok () else .error (.different found)

def inputText (files : Files) (f : TestFile) : Except TestFailure String :=
  match f.data with
  | some text => .ok text
  | none =>
    if f.source ≠ "" then (files.read (Path.clean f.source)).mapError .file
    else match files.read (Path.clean f.name) with
      | .ok text => .ok text
      | .error (.notFound _) => .error (.noData f.name)
      | .error e => .error (.file e)

def inputTexts (files : Files) : Except TestFailure (List (String × String)) := do
  discard ((check t).mapError .format)
  t.inputs.mapM fun f => do return (f.name, ← inputText files f)

def run (files : Files) : Except TestFailure Unit := do
  match ← (check t).mapError .format with
  | none => return ()
  | some mode => compare t (report t files mode)

end StatementTest

end SqlAnalysis

import SqlAnalysis.CommandLine.Flag
import SqlAnalysis.Completion
import SqlAnalysis.Operator.Standard
import SqlAnalysis.Report
import SqlAnalysis.Script.Reader

/-!
The commands of the program, as functions of the files they read, standard input and their
arguments. A command answers with what it prints, the files it writes and why it failed, if it did.
-/

namespace SqlAnalysis.CommandLine

inductive Command where
  | validate
  | canonical
  | hints
deriving Repr, DecidableEq

namespace Command

def all : List Command := [.validate, .canonical, .hints]

def name : Command → String
  | .validate => "validate"
  | .canonical => "rewrite"
  | .hints => "hints"

def ofName? (s : String) : Option Command := all.find? fun c => c.name == s

end Command

def programName : String := "sqlsem"

/-! ### Flags -/

def reportFlags : List Flag := [{ name := "format" }, { name := "pretty", kind := .switch }]

def sharedFlags : List Flag :=
  [{ name := "config" }, { name := "catalog" },
    { name := "catalog-case-insensitive", kind := .switch },
    { name := "log-level", kind := .level }, { name := "log-path" },
    { name := "log-max-size", kind := .integer }] ++ reportFlags

def helpFlag : Flag := { name := "help", letter := some 'h', kind := .switch }

def queryFlags : List Flag :=
  [{ name := "query", letter := some 'c' },
    { name := "include", letter := some 'I', kind := .texts }]

def Command.flags : Command → List Flag
  | .validate => sharedFlags ++ queryFlags ++ [{ name := "metrics-file" }, helpFlag]
  | .canonical => sharedFlags ++ queryFlags ++ [helpFlag]
  | .hints => sharedFlags ++ queryFlags ++ [{ name := "pos", kind := .integer }, helpFlag]

/-! ### Errors -/

inductive CommandError where
  | flag (e : FlagError)
  | unknownCommand (name : String) (similar : List String)
  | unknownFormat (name : String)
  | config (e : Config.Error)
  | file (e : FileError)
  | statement (source : Source) (e : Script.Error)
  | noStatement
  | noCatalog
  | catalog (e : Catalog.Error)
  | invalid (failed total : Nat)
  | canonical (e : CanonicalError)
  | noPosition
  | severalStatements
  | hints (f : Failure)

def formats : List String := ["text", "json"]

def CommandError.message : CommandError → String
  | .flag e => e.message
  | .unknownCommand name similar =>
    "unknown command " ++ Text.quote name ++ " for " ++ Text.quote programName ++
      (if similar.isEmpty then ""
      else "\n\nDid you mean this?\n" ++ Text.join "" (similar.map fun s => "\t" ++ s ++ "\n"))
  | .unknownFormat name =>
    "invalid format " ++ Text.quote name ++ ": must be one of [" ++ Text.join " " formats ++ "]"
  | .config e => e.message
  | .file e => e.message
  | .statement source e => e.located.render (some source)
  | .noStatement => "no statement specified"
  | .noCatalog => "no catalog specified (use --catalog)"
  | .catalog e => e.message
  | .invalid failed total =>
    Number.natText failed ++ " of " ++ Number.natText total ++ " statements failed validation"
  | .canonical e => e.message
  | .noPosition => "--pos is required"
  | .severalStatements => "hints takes a single statement"
  | .hints f => f.message

/-! ### The command among the arguments -/

/-- Whether an argument is a flag whose value is the next argument; a flag that is not defined
counts as one. A letter is a single byte. -/
def takesNext (flags : List Flag) (arg : String) : Bool :=
  !arg.contains '=' && match arg.toList with
    | '-' :: '-' :: name => !flags.any fun f => f.name == String.ofList name && f.implied?.isSome
    | ['-', c] => c.toNat < 0x80 && !flags.any fun f => f.letter == some c && f.implied?.isSome
    | _ => false

/-- The arguments that are neither flags nor their values, up to `--`. A flag takes no value when a
single argument is left. -/
def freeArguments (flags : List Flag) : List String → List String
  | [] => []
  | arg :: rest =>
    if arg = "--" then []
    else if takesNext flags arg then
      match rest with
      | _ :: next :: rest => freeArguments flags (next :: rest)
      | _ => []
    else if arg = "" || arg.startsWith "-" then freeArguments flags rest
    else arg :: freeArguments flags rest

def withoutFree (flags : List Flag) (name : String) : List String → List String
  | [] => []
  | arg :: rest =>
    if arg = "--" then arg :: rest
    else if takesNext flags arg then
      match rest with
      | value :: rest => arg :: value :: withoutFree flags name rest
      | [] => [arg]
    else if arg = name then rest
    else arg :: withoutFree flags name rest

/-- Commands that start with a name or differ from it by at most two edits of bytes, ignoring
case. -/
def similarCommands (name : String) : List String :=
  let name := Text.lower name
  (Command.all.map Command.name ++ ["completion"]).filter fun c =>
    Text.distance (String.ofList (Text.bytesOf name.toList)) c ≤ 2 ||
      name.toList.isPrefixOf c.toList

inductive Request where
  | run (c : Command) (arguments : Arguments)
  | help

def Request.ofCommand (c : Command) (args : List String) : Except CommandError Request := do
  let a ← (readArguments c.flags {} args).mapError .flag
  return if a.isOn "help" then .help else .run c a

def Request.ofArguments (args : List String) : Except CommandError Request :=
  match freeArguments sharedFlags args with
  | [] => do
    discard ((readArguments (sharedFlags ++ [helpFlag]) {} args).mapError .flag)
    return .help
  | name :: _ =>
    match Command.ofName? name with
    | some c => Request.ofCommand c (withoutFree sharedFlags name args)
    | none =>
      if name = "help" ∨ name = "completion" then .ok .help
      else .error (.unknownCommand name (similarCommands name))

/-! ### Options -/

structure Options where
  config : Config := {}
  catalog : String := ""
  ignoreCase : Bool := false
  format : ReportFormat := {}
  query : String := ""
  includes : List String := []
  metricsFile : String := ""
  pos : Int := -1
  operands : List String := []

def reportFormat (a : Arguments) : Except CommandError ReportFormat := do
  let name := (a.value? "format").getD "text"
  if !formats.contains name then throw (.unknownFormat name)
  return { json := name == "json", pretty := a.isOn "pretty" }

def Options.ofArguments (files : Files) (a : Arguments) : Except CommandError Options := do
  let format ← reportFormat a
  let path := a.text "config"
  let config ← if path = "" then pure {} else (Config.load files path).mapError .config
  return {
    config, format
    catalog := a.text "catalog"
    ignoreCase := a.isOn "catalog-case-insensitive"
    query := a.text "query"
    includes := a.values "include"
    metricsFile := a.text "metrics-file"
    pos := a.integer "pos" (-1)
    operands := a.operands }

/-! ### Statements and catalogs -/

structure Query where
  name : String := ""
  source : Source
  statement : Statement

def Query.read (name : String) (source : Source) : Except CommandError Query := do
  let statement ← (Script.parse .standard source.text).mapError (.statement source)
  return { name, source, statement }

/-- One query per file; `-` is standard input, which is empty once it has been read. -/
def readQueries (files : Files) : String → List String → Except CommandError (List Query)
  | _, [] => .ok []
  | stdin, name :: names => do
    if name = "-" then
      let q ← Query.read name (.ofText "" stdin)
      return q :: (← readQueries files "" names)
    else
      let included ← (files.readAll [name]).mapError .file
      let q ← Query.read name (.concat included "")
      return q :: (← readQueries files stdin names)

def Options.queries (o : Options) (files : Files) (stdin : String) :
    Except CommandError (List Query) := do
  let given ← if o.query = "" && o.includes.isEmpty then pure [] else do
    let included ← (files.readAll o.includes).mapError .file
    let q ← Query.read "" (.concat included o.query)
    pure [q]
  let queries := given ++ (← readQueries files stdin o.operands)
  if queries.isEmpty then throw .noStatement
  return queries

def Options.openCatalog (o : Options) (files : Files) :
    Except CommandError (CatalogReader × TypeTable) := do
  if o.catalog = "" then throw .noCatalog
  let text ← (files.read o.catalog).mapError .file
  match (Catalog.parse { caseSensitive := !o.ignoreCase } text).run {} with
  | (.ok c, types) => return (.ofCatalog c, types)
  | (.error e, _) => throw (.catalog e)

def Options.validator (o : Options) (catalog : CatalogReader) (types : TypeTable) : Validator :=
  .start { operators := .standard, catalog, config := o.config } types

/-! ### Running a command -/

structure Outcome where
  output : String := ""
  written : List (String × String) := []
  failure : Option CommandError := none

namespace Outcome

def ofExcept : Except CommandError Outcome → Outcome
  | .ok o => o
  | .error e => { failure := some e }

end Outcome

def validationReport (q : Query) : ValidatorM (Except Failure Unit × Report) := do
  match ← Validator.validate q.statement with
  | .error f => return (.error f, .failed q.source f)
  | .ok r =>
    let parameters ← modifyGet fun v =>
      let (row, types) := r.parameterRow v.types
      (row, { v with types })
    return (.ok (), .validated r.type parameters)

def validateAll (o : Options) (catalog : CatalogReader) :
    TypeTable → Metrics → List Query → List (Bool × Query × Report) × Metrics
  | _, metrics, [] => ([], metrics)
  | types, metrics, q :: qs =>
    let v := { o.validator catalog types with metrics }
    let ((result, report), v) := validationReport q v
    let (reports, metrics) := validateAll o catalog v.types v.metrics qs
    ((result.toBool, q, report) :: reports, metrics)

def Options.validate (o : Options) (files : Files) (stdin : String) :
    Except CommandError Outcome := do
  let queries ← o.queries files stdin
  let (catalog, types) ← o.openCatalog files
  let (reports, metrics) := validateAll o catalog types {} queries
  let several := decide (1 < queries.length)
  let failed := (reports.filter fun r => !r.1).length
  return {
    output := Text.join "" (reports.map fun (_, q, report) => o.format.write several q.name report)
    written := if o.metricsFile = "" then [] else [(o.metricsFile, metrics.toText)]
    failure := if failed = 0 then none else some (.invalid failed queries.length) }

def Options.canonical (o : Options) (files : Files) (stdin : String) :
    Except CommandError Outcome := do
  let queries ← o.queries files stdin
  let several := decide (1 < queries.length)
  return queries.foldl (fun out q =>
    if out.failure.isSome then out
    else match q.statement.canonicalForm .standard with
      | .ok s => { out with output := out.output ++ o.format.write several q.name (.canonical s) }
      | .error e => { out with failure := some (.canonical e) }) {}

def Options.hints (o : Options) (files : Files) (stdin : String) : Except CommandError Outcome := do
  if o.pos < 0 then throw .noPosition
  match ← o.queries files stdin with
  | [q] =>
    let (catalog, types) ← o.openCatalog files
    match ((Validator.hints q.statement o.pos) (o.validator catalog types)).1 with
    | .ok names => return { output := o.format.write false q.name (.hints names) }
    | .error f => throw (.hints f)
  | _ => throw .severalStatements

def usage : String :=
  "The \"sqlsem\" command checks SQL statements written in tree notation\n" ++
  "against a catalog of schemas and tables.\n\n" ++
  "Usage:\n  sqlsem [command]\n\nAvailable Commands:\n" ++
  "  hints       list completions for the identifier at an offset\n" ++
  "  rewrite     print statements in canonical form\n" ++
  "  validate    validate statements and print their types\n"

def run (files : Files) (stdin : String) (args : List String) : Outcome :=
  .ofExcept do
    match ← Request.ofArguments args with
    | .help => return { output := usage }
    | .run c a =>
      let o ← Options.ofArguments files a
      match c with
      | .validate => o.validate files stdin
      | .canonical => o.canonical files stdin
      | .hints => o.hints files stdin

def inputNames (args : List String) : List String :=
  match Request.ofArguments args with
  | .ok (.run _ a) => (["config", "catalog", "include"].flatMap a.values ++ a.operands).eraseDups
  | _ => []

end SqlAnalysis.CommandLine

import SqlAnalysis.Collation
import SqlAnalysis.Files
import SqlAnalysis.NameMatcher
import SqlAnalysis.Yaml.Decode
import SqlAnalysis.Yaml.Document

/-!
Settings of an analysis.
-/

namespace SqlAnalysis

structure Config where
  caseSensitive : Bool := true
  defaultCharset : String := Collation.defaultCharset
  defaultCollation : String := Collation.defaultName
  /-- Whether names in select lists are replaced by their qualified forms. -/
  expandIdentifiers : Bool := true
  /-- How many similar names a message about an unknown name offers at most. -/
  suggestions : Int := 3
  catalogCacheSize : Int := 128
deriving Repr, DecidableEq, Inhabited

namespace Config

inductive Error where
  | file (e : FileError)
  | yaml (path : String) (e : YamlError)
  | collation (e : CollationError)
  | negativeSuggestions (n : Int)
deriving Repr, DecidableEq

def Error.message : Error → String
  | .file e => e.message
  | .yaml path e => path ++ ": " ++ e.message
  | .collation e => e.message
  | .negativeSuggestions n => "suggestions must not be negative: " ++ Number.intText n

open Yaml

def shape : Shape Config where
  type := "semantic.Config"
  field?
    | "case_sensitive" => field bool fun c caseSensitive => { c with caseSensitive }
    | "default_charset" => field string fun c defaultCharset => { c with defaultCharset }
    | "default_collation" => field string fun c defaultCollation => { c with defaultCollation }
    | "expand_identifiers" => field bool fun c expandIdentifiers => { c with expandIdentifiers }
    | "suggestions" => field int fun c suggestions => { c with suggestions }
    | "catalog_cache_size" => field int fun c catalogCacheSize => { c with catalogCacheSize }
    | _ => none

def ofYaml (base : Config) (y : YamlDocument) : Except YamlError Config := shape.decodeOver base y

def validate (c : Config) : Except Error Unit := do
  if c.defaultCharset ≠ "" then
    match Charset.canonical c.defaultCharset with
    | .error e => throw (.collation e)
    | .ok _ => pure ()
  if c.defaultCollation ≠ "" then
    match Collation.ofName c.defaultCollation .coercible with
    | .error e => throw (.collation e)
    | .ok _ => pure ()
  if c.suggestions < 0 then throw (.negativeSuggestions c.suggestions)

def load (files : Files) (path : String) : Except Error Config := do
  let text ← (files.read path).mapError .file
  let config ← (Yaml.parse text >>= ofYaml {}).mapError (.yaml path)
  config.validate
  return config

def literalCollation (c : Config) : Collation :=
  let named := if c.defaultCollation = "" then none
    else (Collation.ofName c.defaultCollation .coercible).toOption
  match named with
  | some collation => collation
  | none =>
    let base := Collation.default .coercible
    match (if c.defaultCharset = "" then none else Charset.canonical? c.defaultCharset) with
    | some charset => { base with charset }
    | none => base

def matcher (c : Config) : NameMatcher := { caseSensitive := c.caseSensitive }

end Config

end SqlAnalysis

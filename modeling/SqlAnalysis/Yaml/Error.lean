import SqlAnalysis.Number.Digits
import SqlAnalysis.Text.Byte
import SqlAnalysis.Text.Quoted

/-!
What can be wrong with a document: its text is malformed, a name in it stands for nothing, or its
values are not those that are asked for. Values are taken as far as possible, so that one message
tells all that is wrong with them.
-/

namespace SqlAnalysis

inductive YamlProblem where
  | controlCharacter
  | noToken
  | tooDeep
  | noColon
  | misplacedItem | misplacedKey | misplacedValue
  | noDirectiveName | directiveNameEnd | unknownDirective
  | noVersion | longVersion | noVersionPoint
  | noExclamation | noBlank | noBlankOrLineEnd | noCommentOrLineEnd
  | noTagText | noTagEnd | noOctet | leadingOctet | trailingOctet
  | noAnchorName
  | zeroIndentation | tabIndentation | tabBeforeText
  | documentMark | endOfText
  | unknownEscape | noHexadecimal | noCharacter
  | noDocumentStart | repeatedVersion | otherVersion | repeatedHandle | unknownHandle
  | noNode | noItem | noKey | noCommaOrBracket | noCommaOrBrace
deriving Repr, DecidableEq

def YamlProblem.message : YamlProblem → String
  | .controlCharacter => "control characters are not allowed"
  | .noToken => "found character that cannot start any token"
  | .tooDeep => "exceeded max depth of 10000"
  | .noColon => "could not find expected ':'"
  | .misplacedItem => "block sequence entries are not allowed in this context"
  | .misplacedKey => "mapping keys are not allowed in this context"
  | .misplacedValue => "mapping values are not allowed in this context"
  | .noDirectiveName => "could not find expected directive name"
  | .directiveNameEnd => "found unexpected non-alphabetical character"
  | .unknownDirective => "found unknown directive name"
  | .noVersion => "did not find expected version number"
  | .longVersion => "found extremely long version number"
  | .noVersionPoint => "did not find expected digit or '.' character"
  | .noExclamation => "did not find expected '!'"
  | .noBlank => "did not find expected whitespace"
  | .noBlankOrLineEnd => "did not find expected whitespace or line break"
  | .noCommentOrLineEnd => "did not find expected comment or line break"
  | .noTagText => "did not find expected tag URI"
  | .noTagEnd => "did not find the expected '>'"
  | .noOctet => "did not find URI escaped octet"
  | .leadingOctet => "found an incorrect leading UTF-8 octet"
  | .trailingOctet => "found an incorrect trailing UTF-8 octet"
  | .noAnchorName => "did not find expected alphabetic or numeric character"
  | .zeroIndentation => "found an indentation indicator equal to 0"
  | .tabIndentation => "found a tab character where an indentation space is expected"
  | .tabBeforeText => "found a tab character that violates indentation"
  | .documentMark => "found unexpected document indicator"
  | .endOfText => "found unexpected end of stream"
  | .unknownEscape => "found unknown escape character"
  | .noHexadecimal => "did not find expected hexdecimal number"
  | .noCharacter => "found invalid Unicode character escape code"
  | .noDocumentStart => "did not find expected <document start>"
  | .repeatedVersion => "found duplicate %YAML directive"
  | .otherVersion => "found incompatible YAML document"
  | .repeatedHandle => "found duplicate %TAG directive"
  | .unknownHandle => "found undefined tag handle"
  | .noNode => "did not find expected node content"
  | .noItem => "did not find expected '-' indicator"
  | .noKey => "did not find expected key"
  | .noCommaOrBracket => "did not find expected ',' or ']'"
  | .noCommaOrBrace => "did not find expected ',' or '\x7d'"

/-- A value that is not the one that is asked for, with the line that it stands on. -/
inductive YamlMismatch where
  | wrongType (line : Nat) (tag text wanted : String)
  | repeatedKey (line : Nat) (key : String) (first : Nat)
  | repeatedField (line : Nat) (name type : String)
  | unknownField (line : Nat) (name type : String)
deriving Repr, DecidableEq

namespace YamlMismatch

/-- A value as it is shown. A long one is cut after seven bytes. -/
def shownText (text : String) : String :=
  let bytes := Text.bytesOf text.toList
  if bytes.length > 10 then String.ofList (Text.ofBytes (bytes.take 7)) ++ "..." else text

/-- Sequences and mappings are not shown. -/
def shown (tag text : String) : String :=
  if tag = "!!seq" ∨ tag = "!!map" then tag else tag ++ " `" ++ shownText text ++ "`"

def message : YamlMismatch → String
  | .wrongType line tag text wanted =>
    "line " ++ Number.natText line ++ ": cannot unmarshal " ++ shown tag text ++ " into " ++ wanted
  | .repeatedKey line key first =>
    "line " ++ Number.natText line ++ ": mapping key " ++ Text.quote key ++
      " already defined at line " ++ Number.natText first
  | .repeatedField line name type =>
    "line " ++ Number.natText line ++ ": field " ++ name ++ " already set in type " ++ type
  | .unknownField line name type =>
    "line " ++ Number.natText line ++ ": field " ++ name ++ " not found in type " ++ type

end YamlMismatch

/-- What is wrong with a document. The line of a problem is not always known. -/
inductive YamlError where
  | malformed (line : Option Nat) (problem : YamlProblem)
  | unknownAnchor (name : String)
  | endlessAnchor (name : String)
  | excessiveReferences
  | wrongTag (own text tag : String)
  | badBinary
  | badMerge
  | mismatches (ms : List YamlMismatch)
deriving Repr, DecidableEq

def YamlError.message : YamlError → String
  | .malformed none problem => "yaml: " ++ problem.message
  | .malformed (some line) problem =>
    "yaml: line " ++ Number.natText line ++ ": " ++ problem.message
  | .unknownAnchor name => "yaml: unknown anchor '" ++ name ++ "' referenced"
  | .endlessAnchor name => "yaml: anchor '" ++ name ++ "' value contains itself"
  | .excessiveReferences => "yaml: document contains excessive aliasing"
  | .wrongTag own text tag => "yaml: cannot decode " ++ own ++ " `" ++ text ++ "` as a " ++ tag
  | .badBinary => "yaml: !!binary value contains invalid base64 data"
  | .badMerge => "yaml: map merge requires map or sequence of maps as the value"
  | .mismatches ms => "yaml: unmarshal errors:" ++ String.join (ms.map fun m => "\n  " ++ m.message)

end SqlAnalysis

import SqlAnalysis.Yaml.Scalar

/-!
Tokens of a document. Indentation becomes tokens that open and close blocks. Whether a scalar or a
collection is a key shows only at the colon after it, so the tokens for a key are put before tokens
that have been read already. Tokens are read no further than is needed to know the next one.
-/

namespace SqlAnalysis.Yaml

inductive Token where
  | streamEnd
  | version (major minor : Nat)
  | tagHandle (handle meaning : String)
  | documentStart | documentEnd
  | sequenceStart | mappingStart | blockEnd
  | flowSequenceStart | flowSequenceEnd
  | flowMappingStart | flowMappingEnd
  | item | comma | key | value
  | reference (anchor : String)
  | anchor (name : String)
  | tag (handle suffix : String)
  | scalar (text : String) (plain : Bool)
deriving Repr, DecidableEq, Inhabited

structure Lexeme where
  token : Token
  line : Nat
deriving Repr, DecidableEq, Inhabited

/-- A token that a colon may turn into a key: the number of tokens before it, and where it starts. A
required key is the only thing that may stand where it stands. -/
structure KeyCandidate where
  place : Nat
  start : Cursor
  required : Bool
deriving Repr, DecidableEq

structure Scan where
  cursor : Cursor
  /-- The tokens that have not been taken, and the number of those that have. -/
  queue : List Lexeme := []
  taken : Nat := 0
  /-- The columns of the open blocks, the innermost one first. -/
  indents : List Int := []
  /-- The candidate of each open bracket or brace, the innermost one first, and that of the
  block. -/
  candidates : List (Option KeyCandidate) := [none]
  keyAllowed : Bool := true
deriving Repr, DecidableEq

abbrev Scanned := Except YamlError Scan

namespace Scan

def refuse {α : Type} (s : Scan) (problem : YamlProblem) : Except YamlError α :=
  s.cursor.refuse s.cursor problem

variable (s : Scan)

def inFlow : Bool :=
  match s.candidates with
  | _ :: _ :: _ => true
  | _ => false

/-- How many blocks, or brackets and braces, may be open. -/
def depthLimit : Nat := 10000

def indent : Int := s.indents.head?.getD (-1)

def emitAt (line : Nat) (t : Token) : Scan := { s with queue := s.queue ++ [⟨t, line⟩] }

def emit (width : Nat) (t : Token) : Scan :=
  { s.emitAt s.cursor.line t with cursor := s.cursor.skip width }

def afterToken : Scan := { s with cursor := s.cursor.skipLineComment }

/-- Puts tokens that start on the given line before those from number `place` on. -/
def insertAt (place line : Nat) (ts : List Token) : Scan :=
  let before := place - s.taken
  { s with queue := s.queue.take before ++ ts.map (⟨·, line⟩) ++ s.queue.drop before }

/-! ### Blocks -/

/-- Closes the blocks that are indented deeper than `column`, as of the given line. -/
def closeBlocks (line : Nat) (column : Int) : Scan :=
  if s.inFlow then s
  else
    let closed := (s.indents.takeWhile (· > column)).length
    { s with
      queue := s.queue ++ List.replicate closed ⟨.blockEnd, line⟩
      indents := s.indents.drop closed }

def opens (column : Int) : Bool := !s.inFlow && s.indent < column

def withBlock (column : Int) : Scanned :=
  if s.indents.length ≥ depthLimit then s.refuse .tooDeep
  else .ok { s with indents := column :: s.indents }

def openBlock (t : Token) : Scanned :=
  if s.opens s.cursor.column then (s.emit 0 t).withBlock s.cursor.column else .ok s

/-! ### Keys -/

def setCandidate (k : Option KeyCandidate) : Scan :=
  { s with candidates := k :: s.candidates.tail }

def candidate? : Option KeyCandidate := s.candidates.head?.join

/-- Gives the candidate up, which must not be a required key. -/
def dropCandidate : Scanned :=
  match s.candidate? with
  | none => .ok s
  | some k => if k.required then k.start.refuse s.cursor .noColon else .ok (s.setCandidate none)

def saveCandidate : Scanned :=
  if !s.keyAllowed then .ok s
  else do
    let s ← s.dropCandidate
    return s.setCandidate (some
      { place := s.taken + s.queue.length, start := s.cursor
        required := !s.inFlow && s.indent == s.cursor.column })

def keyReach : Nat := 1024

/-- Whether a candidate may end here as a key. A key stands on one line. -/
def mayEnd (k : KeyCandidate) : Except YamlError Bool :=
  if k.start.line = s.cursor.line && s.cursor.index ≤ k.start.index + keyReach then .ok true
  else if k.required then k.start.refuse s.cursor .noColon
  else .ok false

def endingKey? : Except YamlError (Option KeyCandidate) := do
  match s.candidate? with
  | none => return none
  | some k => return if ← s.mayEnd k then some k else none

/-! ### Marks -/

def leaveBlocks : Scanned := do
  let s ← (s.closeBlocks s.cursor.line (-1)).dropCandidate
  return { s with keyAllowed := false }

def documentMark (t : Token) : Scanned := do
  let s ← s.leaveBlocks
  return s.emit 3 t

def flowStart (t : Token) : Scanned := do
  let s ← s.saveCandidate
  if s.candidates.length > depthLimit then s.refuse .tooDeep
  return { s with candidates := none :: s.candidates, keyAllowed := true }.emit 1 t

def flowEnd (t : Token) : Scanned := do
  let s ← s.dropCandidate
  let candidates := if s.inFlow then s.candidates.tail else s.candidates
  return { s with candidates, keyAllowed := false }.emit 1 t

def commaMark : Scanned := do
  let s ← s.dropCandidate
  return { s with keyAllowed := true }.emit 1 .comma

def itemMark : Scanned := do
  if !s.inFlow && !s.keyAllowed then s.refuse .misplacedItem
  let s ← s.openBlock .sequenceStart
  let s ← s.dropCandidate
  return { s with keyAllowed := true }.emit 1 .item

def keyMark : Scanned := do
  if !s.inFlow && !s.keyAllowed then s.refuse .misplacedKey
  let s ← s.openBlock .mappingStart
  let s ← s.dropCandidate
  return { s with keyAllowed := !s.inFlow }.emit 1 .key

/-- The colon before a value. It makes the candidate a key, which opens a mapping if it is indented
deeper than the block around it. -/
def valueMark : Scanned := do
  match ← s.endingKey? with
  | some k =>
    let opens := s.opens k.start.column
    let s := s.insertAt k.place k.start.line (if opens then [.mappingStart, .key] else [.key])
    let s ← if opens then s.withBlock k.start.column else pure s
    return { s.setCandidate none with keyAllowed := false }.emit 1 .value
  | none =>
    if !s.inFlow && !s.keyAllowed then s.refuse .misplacedValue
    let s ← (s.setCandidate none).openBlock .mappingStart
    return { s with keyAllowed := !s.inFlow }.emit 1 .value

/-! ### Names -/

def anchorToken (token : String → Token) : Scanned := do
  let s ← s.saveCandidate
  let name := (s.cursor.rest.drop 1).takeWhile isWordChar
  let ends := (s.cursor.rest.drop (name.length + 1)).head?.elim true fun c =>
    isSpace c || ['?', ':', ',', ']', '\x7d', '%', '@', '\x60'].contains c
  if name.isEmpty || !ends then s.refuse .noAnchorName
  return { s with keyAllowed := false }.emit (name.length + 1) (token (String.ofList name))

def isTagChar (c : Char) : Bool := isWordChar c || ";/?:@&=+$,.!~*'()[]%".toList.contains c

def octet? : List Char → Option Nat
  | '%' :: a :: b :: _ => readBase? 16 [a, b]
  | _ => none

/-- How many bytes a character has whose first byte is `n`. -/
def encodedLength? (n : Nat) : Option Nat :=
  if n < 0x80 then some 1
  else if 0xC0 ≤ n ∧ n < 0xE0 then some 2
  else if 0xE0 ≤ n ∧ n < 0xF0 then some 3
  else if 0xF0 ≤ n ∧ n < 0xF8 then some 4
  else none

def trailingOctets : Nat → List Char → Except YamlProblem (List Char)
  | 0, _ => .ok []
  | count + 1, cs => do
    match octet? cs with
    | none => throw .noOctet
    | some n =>
      if n < 0x80 ∨ 0xC0 ≤ n then throw .trailingOctet
      return Char.ofNat n :: (← trailingOctets count (cs.drop 3))

variable (cs : List Char)

def octets : Except YamlProblem (List Char) := do
  match octet? cs with
  | none => throw .noOctet
  | some n =>
    match encodedLength? n with
    | none => throw .leadingOctet
    | some length => return Char.ofNat n :: (← trailingOctets (length - 1) (cs.drop 3))

def tagText : Nat → List Char → Except YamlProblem (List Char × List Char)
  | 0, cs => .ok ([], cs)
  | _, [] => .ok ([], [])
  | fuel + 1, c :: cs => do
    if !isTagChar c then return ([], c :: cs)
    if c = '%' then
      let bytes ← octets (c :: cs)
      let (text, rest) ← tagText fuel ((c :: cs).drop (3 * bytes.length))
      return (Text.ofBytes bytes ++ text, rest)
    else
      let (text, rest) ← tagText fuel cs
      return (c :: text, rest)

def someTagText : Except YamlProblem (List Char × List Char) := do
  let (text, rest) ← tagText cs.length cs
  if text.isEmpty then throw .noTagText
  return (text, rest)

/-- The handle of a tag and the rest of it, from a text that starts with an exclamation mark, and
what follows them. -/
def tagParts : Except YamlProblem (String × String × List Char) := do
  match cs with
  | '!' :: '<' :: cs =>
    let (suffix, rest) ← someTagText cs
    if rest.head? != some '>' then throw .noTagEnd
    return ("", String.ofList suffix, rest.drop 1)
  | _ =>
    let name := (cs.drop 1).takeWhile isWordChar
    let rest := cs.drop (name.length + 1)
    if rest.head? == some '!' then
      let (suffix, rest) ← someTagText (rest.drop 1)
      return (String.ofList ('!' :: name ++ ['!']), String.ofList suffix, rest)
    else
      let (suffix, rest) ← tagText rest.length rest
      let suffix := name ++ suffix
      return if suffix.isEmpty then ("", "!", rest) else ("!", String.ofList suffix, rest)

def tagToken : Scanned := do
  let s ← s.saveCandidate
  match tagParts s.cursor.rest with
  | .error problem => s.refuse problem
  | .ok (handle, suffix, rest) =>
    if !endsWord rest then s.refuse .noBlankOrLineEnd
    return { s with keyAllowed := false }.emit (s.cursor.left - rest.length) (.tag handle suffix)

/-! ### Directives -/

def shortNumber : Except YamlProblem (Nat × List Char) :=
  let digits := cs.takeWhile Number.isDigit
  if digits.length > 2 then .error .longVersion
  else if digits.isEmpty then .error .noVersion
  else .ok (Number.ofDigits digits, cs.drop digits.length)

def versionDirective : Except YamlProblem (Token × List Char) := do
  let (major, rest) ← shortNumber (cs.dropWhile isBlank)
  if rest.head? != some '.' then throw .noVersionPoint
  let (minor, rest) ← shortNumber (rest.drop 1)
  return (.version major minor, rest)

def tagDirective : Except YamlProblem (Token × List Char) := do
  let cs := cs.dropWhile isBlank
  if cs.head? != some '!' then throw .noExclamation
  let name := (cs.drop 1).takeWhile isWordChar
  let rest := cs.drop (name.length + 1)
  let (handle, rest) ←
    if rest.head? == some '!' then pure ('!' :: name ++ ['!'], rest.drop 1)
    else if name.isEmpty then pure (['!'], rest)
    else throw .noExclamation
  if !rest.head?.any isBlank then throw .noBlank
  let (meaning, rest) ← someTagText (rest.dropWhile isBlank)
  if !endsWord rest then throw .noBlankOrLineEnd
  return (.tagHandle (String.ofList handle) (String.ofList meaning), rest)

def directiveToken : Except YamlProblem Token := do
  let name := cs.takeWhile isWordChar
  let rest := cs.drop name.length
  if name.isEmpty then throw .noDirectiveName
  if !endsWord rest then throw .directiveNameEnd
  let (t, rest) ← match String.ofList name with
    | "YAML" => versionDirective rest
    | "TAG" => tagDirective rest
    | _ => throw .unknownDirective
  match (rest.dropWhile isBlank).head? with
  | none | some '#' => return t
  | some c => if isBreak c then return t else throw .noCommentOrLineEnd

def directive : Scanned := do
  let s ← s.leaveBlocks
  match directiveToken (s.cursor.rest.drop 1) with
  | .error problem => s.refuse problem
  | .ok t =>
    let cursor := s.cursor.skipLine
    return { s.emit 0 t with cursor := (cursor.lineEnd?.map Prod.snd).getD cursor }

/-! ### Scalars -/

def emitScalar (r : ScalarRead) (plain : Bool) : Scan :=
  { s.emit 0 (.scalar r.text plain) with cursor := r.cursor }

def quotedToken (quote : Char) : Scanned := do
  let s ← s.saveCandidate
  let r ← quotedScalar quote s.cursor
  return { s with keyAllowed := false }.emitScalar r false

/-- A plain scalar. After a line end a key may start. -/
def plainToken : Scanned := do
  let s ← s.saveCandidate
  let r ← plainScalar s.inFlow (s.indent + 1) s.cursor
  let s := { s with keyAllowed := r.broken }.emitScalar r true
  return if r.broken then s else s.afterToken

def blockToken (folded : Bool) : Scanned := do
  let s ← s.dropCandidate
  let r ← blockScalar folded s.indent s.cursor
  return { s with keyAllowed := true }.emitScalar r false

/-! ### Reading on -/

def isIndicator (c : Char) : Bool :=
  [',', '[', ']', '\x7b', '\x7d', '#', '&', '*', '!', '|', '>', '\'', '"',
    '%', '@', '\x60'].contains c

/-- Passes space and comments up to the next token. A tab does not indent what may be a key. -/
def approachUpTo : Nat → Scan → Scan
  | 0, s => s
  | fuel + 1, s =>
    let c := if s.cursor.column = 0 && s.cursor.isAt '\ufeff' then s.cursor.skip 1 else s.cursor
    let tabs := s.inFlow || !s.keyAllowed
    let c := c.skipWhile fun x => x = ' ' || (tabs && x = '\t')
    let c := if c.isAt '#' then c.skipComments c.left else c
    match c.lineEnd? with
    | some (_, c) =>
      approachUpTo fuel { s with cursor := c, keyAllowed := s.keyAllowed || !s.inFlow }
    | none => { s with cursor := c }

/-- The token that starts with the character `x`, other text following it. -/
def tokenAt (x : Char) (rest : List Char) : Scanned := do
  let ends := endsWord rest
  match x with
  | '[' => return (← s.flowStart .flowSequenceStart).afterToken
  | '\x7b' => return (← s.flowStart .flowMappingStart).afterToken
  | ']' => return (← s.flowEnd .flowSequenceEnd).afterToken
  | '\x7d' => return (← s.flowEnd .flowMappingEnd).afterToken
  | ',' => return (← s.commaMark).afterToken
  | '*' => return (← s.anchorToken .reference).afterToken
  | '&' => return (← s.anchorToken .anchor).afterToken
  | '!' => return (← s.tagToken).afterToken
  | '\'' => return (← s.quotedToken x).afterToken
  | '"' => return (← s.quotedToken x).afterToken
  | _ =>
    if x = '-' && ends then s.itemMark
    else if x = '?' && (s.inFlow || ends) then return (← s.keyMark).afterToken
    else if x = ':' && (s.inFlow || ends) then return (← s.valueMark).afterToken
    else if (x = '|' || x = '>') && !s.inFlow then s.blockToken (x = '>')
    else if isSpace x || isIndicator x then s.refuse .noToken
    else s.plainToken

def endText : Scanned := do
  let c := s.cursor
  let s :=
    if c.column = 0 then s else { s with cursor := { c with line := c.line + 1, column := 0 } }
  return (← s.leaveBlocks).emit 0 .streamEnd

def step : Scanned := do
  let line := s.cursor.line
  let s := s.approachUpTo (s.cursor.left + 1)
  let s := s.closeBlocks line s.cursor.column
  match s.cursor.rest with
  | [] => s.endText
  | x :: rest =>
    if s.cursor.column = 0 && x = '%' then s.directive
    else if s.cursor.atMark '-' then s.documentMark .documentStart
    else if s.cursor.atMark '.' then s.documentMark .documentEnd
    else s.tokenAt x rest

/-- Whether the next token is known: two more have been read, and no colon can make it a key any
more. -/
def isReady : Except YamlError Bool :=
  match s.queue with
  | _ :: _ :: _ :: _ => do
    match (s.candidates.find? fun k => k.any (·.place == s.taken)).join with
    | some k => return !(← s.mayEnd k)
    | none => return true
  | _ => .ok false

def fillUpTo : Nat → Scan → Scanned
  | 0, s => .ok s
  | fuel + 1, s => do
    if ← s.isReady then return s else fillUpTo fuel (← s.step)

/-- Reads on until the next token is known. Each token takes a character, but for those at the
end. -/
def fill : Scanned := do
  if ← s.isReady then return s else s.fillUpTo (s.cursor.left + 4)

def next : Lexeme := s.queue.head?.getD ⟨.streamEnd, s.cursor.line⟩

def take : Scan := { s with queue := s.queue.drop 1, taken := s.taken + 1 }

end Scan

end SqlAnalysis.Yaml

import SqlAnalysis.Yaml.Token

/-!
Documents from their tokens. A text may hold several documents; a value is taken from the first of
them.
-/

namespace SqlAnalysis.Yaml

/-- What is left of the tokens, and what names stand for: the number of the newest anchor of each
name, the parts at the anchors that are complete, and the meaning of handles of tags. -/
structure Reading where
  scan : Scan
  anchors : List (String × Nat) := []
  anchored : List (Nat × Yaml) := []
  references : Nat := 0
  handles : List (String × String) := []
deriving Repr

abbrev ReadM := StateT Reading (Except YamlError)

def fail {α : Type} (start here : Nat) (problem : YamlProblem) : ReadM α :=
  let line := Cursor.namedLine start here
  throw (.malformed (if line = 0 then none else some line) problem)

def peek : ReadM Lexeme := do
  let r ← get
  let scan ← r.scan.fill
  set { r with scan }
  return scan.next

def advance : ReadM Unit := modify fun r => { r with scan := r.scan.take }

def advanceToNext : ReadM Lexeme := do
  advance
  peek

/-- The number of the line of a token, as parts of documents have it: from one on. -/
def Lexeme.place (l : Lexeme) : Nat := l.line + 1

/-! ### Tags and anchors -/

def standardHandles : List (String × String) := [("!", "!"), ("!!", standardTags)]

/-- The tag that a handle and a suffix stand for, if the handle stands for something. -/
def resolveTag? (handle suffix : String) (handles : List (String × String)) : Option String :=
  if handle == "" then some suffix
  else ((handles ++ standardHandles).lookup handle).map (· ++ suffix)

structure Properties where
  line : Nat
  tag : Option String := none
  anchor : Option String := none
deriving Repr, DecidableEq

/-- Gives the part its tag, which stands on the line `here`. -/
def Properties.withTag (p : Properties) (handle suffix : String) (here : Nat) :
    ReadM Properties := do
  match resolveTag? handle suffix (← get).handles with
  | some tag => return { p with tag := some tag }
  | none => fail p.line here .unknownHandle

def readProperties : ReadM Properties := do
  let first ← peek
  let p : Properties := { line := first.line }
  match first.token with
  | .anchor name =>
    let second ← advanceToNext
    let p := { p with anchor := some name }
    match second.token with
    | .tag handle suffix =>
      let _ ← advanceToNext
      p.withTag handle suffix second.line
    | _ => return p
  | .tag handle suffix =>
    let second ← advanceToNext
    match second.token with
    | .anchor name =>
      let _ ← advanceToNext
      { p with anchor := some name }.withTag handle suffix first.line
    | _ => p.withTag handle suffix first.line
  | _ => return p

/-- The tag of a collection that has the tag `own` unless it is given another. -/
def Properties.tagOr (p : Properties) (own : String) : String :=
  match p.tag with
  | none | some "!" => own
  | some tag => shortTag tag

def Properties.scalar (p : Properties) (text : String) (plain : Bool) : Yaml :=
  .scalar (p.line + 1) (p.tagOr (if plain then plainTag text else "!!str")) text

def Properties.sequence (p : Properties) (items : List Yaml) : Yaml :=
  .sequence (p.line + 1) (p.tagOr "!!seq") items

def Properties.mapping (p : Properties) (entries : List (Yaml × Yaml)) : Yaml :=
  .mapping (p.line + 1) (p.tagOr "!!map") entries

def openAnchor (p : Properties) : ReadM (Option Nat) := do
  match p.anchor with
  | none => return none
  | some name =>
    let r ← get
    set { r with anchors := (name, r.anchors.length) :: r.anchors }
    return some r.anchors.length

def closeAnchor (anchor : Option Nat) (y : Yaml) : ReadM Yaml := do
  match anchor with
  | some n => modify fun r => { r with anchored := (n, y) :: r.anchored }
  | none => pure ()
  return y

def referenceTo (name : String) (line : Nat) : ReadM Yaml := do
  let r ← get
  match r.anchors.lookup name with
  | some place =>
    set { r with references := r.references + 1 }
    return .reference line r.references place name
  | none => throw (.unknownAnchor name)

/-! ### Parts -/

mutual
/-- A part of a document. In a block it may be a block itself; `unindented` admits a sequence that
is not indented. -/
def node (block unindented : Bool) : Nat → ReadM Yaml
  | 0 => fail 0 0 .tooDeep
  | fuel + 1 => do
    let first ← peek
    if let .reference name := first.token then
      let y ← referenceTo name first.place
      advance
      return y
    let p ← readProperties
    let anchor ← openAnchor p
    let l ← peek
    let nothing : ReadM Yaml :=
      if p.tag.isNone && p.anchor.isNone then fail p.line l.line .noNode
      else pure (p.scalar "" true)
    let y ← match l.token with
      | .item => if unindented then p.sequence <$> unindentedItems [] fuel else nothing
      | .scalar text plain => do
        advance
        pure (p.scalar text plain)
      | .flowSequenceStart => do
        advance
        p.sequence <$> flowItems l.line true [] fuel
      | .flowMappingStart => do
        advance
        p.mapping <$> flowEntries l.line true [] fuel
      | .sequenceStart =>
        if block then do
          advance
          p.sequence <$> blockItems l.line [] fuel
        else nothing
      | .mappingStart =>
        if block then do
          advance
          p.mapping <$> blockEntries l.line [] fuel
        else nothing
      | _ => nothing
    closeAnchor anchor y
termination_by structural fuel => fuel

def blockItems (start : Nat) (done : List Yaml) : Nat → ReadM (List Yaml)
  | 0 => fail 0 0 .tooDeep
  | fuel + 1 => do
    let l ← peek
    match l.token with
    | .item =>
      match (← advanceToNext).token with
      | .item | .blockEnd => blockItems start (empty l.place :: done) fuel
      | _ =>
        let y ← node true false fuel
        blockItems start (y :: done) fuel
    | .blockEnd =>
      advance
      return done.reverse
    | _ => fail start l.line .noItem
termination_by structural fuel => fuel

def unindentedItems (done : List Yaml) : Nat → ReadM (List Yaml)
  | 0 => fail 0 0 .tooDeep
  | fuel + 1 => do
    let l ← peek
    match l.token with
    | .item =>
      match (← advanceToNext).token with
      | .item | .key | .value | .blockEnd => unindentedItems (empty l.place :: done) fuel
      | _ =>
        let y ← node true false fuel
        unindentedItems (y :: done) fuel
    | _ => return done.reverse
termination_by structural fuel => fuel

/-- The key or the value that the next token announces, in a block. -/
def blockEntryPart : Nat → ReadM Yaml
  | 0 => fail 0 0 .tooDeep
  | fuel + 1 => do
    let l ← peek
    match (← advanceToNext).token with
    | .key | .value | .blockEnd => return empty l.place
    | _ => node true true fuel
termination_by structural fuel => fuel

def blockEntries (start : Nat) (done : List (Yaml × Yaml)) : Nat → ReadM (List (Yaml × Yaml))
  | 0 => fail 0 0 .tooDeep
  | fuel + 1 => do
    let l ← peek
    match l.token with
    | .key =>
      let key ← blockEntryPart fuel
      let after ← peek
      let value ← if after.token = .value then blockEntryPart fuel else pure (empty after.place)
      blockEntries start ((key, value) :: done) fuel
    | .blockEnd =>
      advance
      return done.reverse
    | _ => fail start l.line .noKey
termination_by structural fuel => fuel

def flowValue (closing : Token) : Nat → ReadM Yaml
  | 0 => fail 0 0 .tooDeep
  | fuel + 1 => do
    let l ← peek
    if l.token ≠ .value then return empty l.place
    let l ← advanceToNext
    if l.token = .comma ∨ l.token = closing then return empty l.place
    node false false fuel
termination_by structural fuel => fuel

/-- The items up to the closing bracket; before each but the first there is a comma. A key makes an
item a mapping of one entry. -/
def flowItems (start : Nat) (first : Bool) (done : List Yaml) : Nat → ReadM (List Yaml)
  | 0 => fail 0 0 .tooDeep
  | fuel + 1 => do
    let l ← peek
    let l ← match l.token with
      | .flowSequenceEnd => pure l
      | .comma => if first then pure l else advanceToNext
      | _ => if first then pure l else fail start l.line .noCommaOrBracket
    match l.token with
    | .flowSequenceEnd =>
      advance
      return done.reverse
    | .key =>
      let after ← advanceToNext
      let key ← match after.token with
        | .value | .comma | .flowSequenceEnd => do
          advance
          pure (empty after.place)
        | _ => node false false fuel
      let value ← flowValue .flowSequenceEnd fuel
      flowItems start false (.mapping l.place "!!map" [(key, value)] :: done) fuel
    | _ =>
      let y ← node false false fuel
      flowItems start false (y :: done) fuel
termination_by structural fuel => fuel

def flowEntries (start : Nat) (first : Bool) (done : List (Yaml × Yaml)) :
    Nat → ReadM (List (Yaml × Yaml))
  | 0 => fail 0 0 .tooDeep
  | fuel + 1 => do
    let l ← peek
    let l ← match l.token with
      | .flowMappingEnd => pure l
      | .comma => if first then pure l else advanceToNext
      | _ => if first then pure l else fail start l.line .noCommaOrBrace
    match l.token with
    | .flowMappingEnd =>
      advance
      return done.reverse
    | .key =>
      let after ← advanceToNext
      let key ← match after.token with
        | .value | .comma | .flowMappingEnd => pure (empty after.place)
        | _ => node false false fuel
      let value ← flowValue .flowMappingEnd fuel
      flowEntries start false ((key, value) :: done) fuel
    | _ =>
      let key ← node false false fuel
      let after ← peek
      flowEntries start false ((key, empty after.place) :: done) fuel
termination_by structural fuel => fuel
end

/-- Enough steps for a text: it has at most four tokens a character, and each call takes a token or
is for a part that does. -/
def stepsFor (text : List Char) : Nat := 16 * (text.length + 1)

/-! ### Documents -/

/-- The directives before a document: one version at most, which is the known one, and the meaning
of each handle once. -/
def directives : Nat → Bool → ReadM Unit
  | 0, _ => fail 0 0 .tooDeep
  | fuel + 1, versioned => do
    let l ← peek
    match l.token with
    | .version major minor =>
      if versioned then fail 0 l.line .repeatedVersion
      if major ≠ 1 || minor ≠ 1 then fail 0 l.line .otherVersion
      advance
      directives fuel true
    | .tagHandle handle meaning =>
      if ((← get).handles.lookup handle).isSome then fail 0 l.line .repeatedHandle
      modify fun r => { r with handles := (handle, meaning) :: r.handles }
      advance
      directives fuel versioned
    | _ => return ()

def firstNode (steps : Nat) : ReadM (Option Yaml) := do
  let y ← match (← peek).token with
    | .streamEnd => return none
    | .version .. | .tagHandle .. | .documentStart => do
      directives steps false
      let l ← peek
      if l.token ≠ .documentStart then fail 0 l.line .noDocumentStart
      let l ← advanceToNext
      match l.token with
      | .version .. | .tagHandle .. | .documentStart | .documentEnd
        | .streamEnd => pure (empty l.place)
      | _ => node true false steps
    | _ => node true false steps
  if (← peek).token = .documentEnd then advance
  return some y

/-- Whether nothing follows a document but marks of its end. -/
def atStreamEnd : Nat → ReadM Bool
  | 0 => return false
  | fuel + 1 => do
    match (← peek).token with
    | .documentEnd =>
      advance
      atStreamEnd fuel
    | .streamEnd => return true
    | _ => return false

/-- The first document of a text, where there is one, and whether it is the only one. -/
def firstDocument (text : String) : Except YamlError (Option (YamlDocument × Bool)) := do
  let cs := text.toList
  let cs := if cs.head? = some '\ufeff' then cs.drop 1 else cs
  if !cs.all isAllowed then throw (.malformed none .controlCharacter)
  let steps := stepsFor cs
  match ← (firstNode steps).run { scan := { cursor := { rest := cs } } } with
  | (none, _) => return none
  | (some root, r) =>
    let isOnly := match (atStreamEnd steps).run r with
      | .ok (isOnly, _) => isOnly
      | .error _ => false
    return some ({ root, anchored := r.anchored, depth := steps * (r.references + 1) }, isOnly)

/-- The first document of a text; a text without documents is empty. -/
def parse (text : String) : Except YamlError YamlDocument := do
  return ((← firstDocument text).map Prod.fst).getD { root := empty 0 }

end SqlAnalysis.Yaml

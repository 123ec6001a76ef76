import SqlAnalysis.Yaml.Cursor

/-!
Scalars. A plain scalar ends at a comment, at a colon before a space or where the indentation ends;
a quoted scalar at its quote; a block scalar, which follows a bar or an angle, at a line that is
less indented. In plain and quoted scalars a line end is a blank, and `n` more line ends are `n`
line ends.
-/

namespace SqlAnalysis.Yaml

/-- What is read between two words: blanks, or line ends with the blanks around them left out. -/
structure Gap where
  blanks : List Char := []
  first : Option Char := none
  more : List Char := []
  /-- Whether a line has ended. -/
  broken : Bool := false
deriving Repr, DecidableEq

namespace Gap

/-- The text that a gap stands for. A first line end that was escaped stands for nothing. -/
def text (g : Gap) : List Char :=
  if !g.broken then g.blanks
  else match g.first with
    | some '\n' => if g.more.isEmpty then [' '] else g.more
    | some x => x :: g.more
    | none => g.more

/-- Reads on to the next word of the scalar at `start`. Tabs may not indent a line up to column
`indent`. -/
def readUpTo (start : Cursor) (indent : Int) : Nat → Gap → Cursor → Except YamlError (Gap × Cursor)
  | 0, g, c => .ok (g, c)
  | fuel + 1, g, c =>
    match c.lineEnd?, c.rest.head? with
    | some (x, after), _ =>
      if g.broken then readUpTo start indent fuel { g with more := g.more ++ [x] } after
      else readUpTo start indent fuel { blanks := [], first := some x, broken := true } after
    | none, some x =>
      if !isBlank x then .ok (g, c)
      else if !g.broken then
        readUpTo start indent fuel { g with blanks := g.blanks ++ [x] } (c.skip 1)
      else if x = '\t' && c.column < indent then start.refuse c .tabBeforeText
      else readUpTo start indent fuel g (c.skip 1)
    | none, none => .ok (g, c)

def read (start : Cursor) (indent : Int) (g : Gap) (c : Cursor) : Except YamlError (Gap × Cursor) :=
  g.readUpTo start indent c.left c

end Gap

structure ScalarRead where
  text : String
  cursor : Cursor
  broken : Bool := false
deriving Repr, DecidableEq

/-! ### Plain scalars -/

def isFlowMark (c : Char) : Bool := [',', '?', '[', ']', '\x7b', '\x7d'].contains c

def plainWord (inFlow : Bool) : List Char → List Char
  | [] => []
  | c :: cs =>
    if isSpace c || (c = ':' && endsWord cs) || (inFlow && isFlowMark c) then []
    else c :: plainWord inFlow cs

/-- Words of the scalar at `start` and the gaps between them, of which `gap` is the one before the
next word; `out` is the text before it. -/
def plainUpTo (inFlow : Bool) (start : Cursor) (indent : Int) :
    Nat → String → Gap → Cursor → Except YamlError ScalarRead
  | 0, _, _, c => start.refuse c .endOfText
  | fuel + 1, out, gap, c =>
    if c.atDocumentMark || c.isAt '#' then .ok ⟨out, c, gap.broken⟩
    else
      let word := plainWord inFlow c.rest
      if word.isEmpty then .ok ⟨out, c, gap.broken⟩
      else
        let out := out ++ String.ofList (gap.text ++ word)
        let c := c.skip word.length
        if !c.atSpace then .ok ⟨out, c, false⟩
        else do
          let (gap, c) ← Gap.read start indent {} c
          if !inFlow && c.column < indent then return ⟨out, c, gap.broken⟩
          plainUpTo inFlow start indent fuel out gap c

/-- A plain scalar, whose further lines reach column `indent` unless it stands inside brackets or
braces. -/
def plainScalar (inFlow : Bool) (indent : Int) (c : Cursor) : Except YamlError ScalarRead :=
  plainUpTo inFlow c indent (c.left + 1) "" {} c

/-! ### Quoted scalars -/

def escaped? : Char → Option Nat
  | '0' => some 0
  | 'a' => some 7
  | 'b' => some 8
  | 't' => some 9
  | '\t' => some 9
  | 'n' => some 10
  | 'v' => some 11
  | 'f' => some 12
  | 'r' => some 13
  | 'e' => some 27
  | ' ' => some 32
  | '"' => some 34
  | '\'' => some 39
  | '\\' => some 92
  | 'N' => some 0x85
  | '_' => some 0xA0
  | 'L' => some 0x2028
  | 'P' => some 0x2029
  | _ => none

def hexWidth? : Char → Option Nat
  | 'x' => some 2
  | 'u' => some 4
  | 'U' => some 8
  | _ => none

/-- The character that an escape stands for, and the length of the escape after the backslash. -/
def escape : List Char → Except YamlProblem (Char × Nat)
  | [] => .error .unknownEscape
  | c :: cs =>
    match escaped? c, hexWidth? c with
    | some n, _ => .ok (Char.ofNat n, 1)
    | none, some width =>
      match readBase? 16 (cs.take width) with
      | some n =>
        if cs.length < width then .error .noHexadecimal
        else if Text.isCharNumber n then .ok (Char.ofNat n, width + 1)
        else .error .noCharacter
      | none => .error .noHexadecimal
    | none, none => .error .unknownEscape

/-- The rest of the scalar at `start` in the given quotes. -/
def quotedUpTo (quote : Char) (start : Cursor) : Nat → String → Cursor → Except YamlError ScalarRead
  | 0, _, c => start.refuse c .endOfText
  | fuel + 1, out, c =>
    let afterGap (gap : Gap) (c : Cursor) : Except YamlError (String × Cursor) := do
      let (gap, c) ← gap.read start 0 c
      if c.atDocumentMark then start.refuse c .documentMark
      else return (out ++ String.ofList gap.text, c)
    match c.rest with
    | [] => start.refuse c .endOfText
    | x :: cs =>
      if x = quote then
        if quote = '\'' && cs.head? = some '\'' then
          quotedUpTo quote start fuel (out.push '\'') (c.skip 2)
        else .ok ⟨out, c.skip 1, false⟩
      else if isSpace x then do
        let (out, c) ← afterGap {} c
        quotedUpTo quote start fuel out c
      else if quote = '"' && x = '\\' then
        match (c.skip 1).lineEnd?, escape cs with
        | some (_, c), _ => do
          let (out, c) ← afterGap { broken := true } c
          quotedUpTo quote start fuel out c
        | none, .ok (y, width) => quotedUpTo quote start fuel (out.push y) (c.skip (width + 1))
        | none, .error problem => start.refuse c problem
      else quotedUpTo quote start fuel (out.push x) (c.skip 1)

def quotedScalar (quote : Char) (c : Cursor) : Except YamlError ScalarRead :=
  quotedUpTo quote c c.left "" (c.skip 1)

/-! ### Block scalars -/

/-- How the line ends at the end of a block are treated: one is kept, none, or all. -/
inductive Chomp where
  | clip | strip | keep
deriving Repr, DecidableEq

def Chomp.ofChar? : Char → Option Chomp
  | '+' => some .keep
  | '-' => some .strip
  | _ => none

/-- The marks after the bar: what happens to line ends, and by how much the block is indented where
that is not left to its first line. Either mark may come first. -/
structure BlockHeader where
  chomp : Chomp := .clip
  increment : Nat := 0
deriving Repr, DecidableEq

/-- An indentation mark; the indentation is not zero. -/
def readIncrement : List Char → Except YamlProblem (Nat × List Char)
  | [] => .ok (0, [])
  | c :: cs =>
    if !Number.isDigit c then .ok (0, c :: cs)
    else if c = '0' then .error .zeroIndentation
    else .ok (c.toNat - 48, cs)

def readChomp : List Char → Chomp × List Char
  | [] => (.clip, [])
  | c :: cs => match Chomp.ofChar? c with
    | some chomp => (chomp, cs)
    | none => (.clip, c :: cs)

def blockHeader (c : Cursor) : Except YamlProblem (BlockHeader × Cursor) := do
  let marks := c.rest.head?.bind Chomp.ofChar?
  let (chomp, rest) := readChomp c.rest
  let (increment, rest) ← readIncrement rest
  let (chomp, rest) := if marks.isSome || increment = 0 then (chomp, rest) else readChomp rest
  return ({ chomp, increment }, c.skip (c.left - rest.length))

/-- Skips indentation and empty lines of the block at `start`. A block whose indentation is not
known yet has `indent` zero. Gives the line ends, the deepest indentation and the place after it. -/
def blockBreaks (start : Cursor) (indent : Nat) : Nat → List Char → Nat → Cursor →
    Except YamlError (List Char × Nat × Cursor)
  | 0, breaks, deepest, c => .ok (breaks, deepest, c)
  | fuel + 1, breaks, deepest, c =>
    let reach := if indent = 0 then c.rest else c.rest.take (indent - c.column)
    let c := c.skip (reach.takeWhile (· = ' ')).length
    let deepest := max deepest c.column
    if (indent = 0 || c.column < indent) && c.isAt '\t' then start.refuse c .tabIndentation
    else match c.lineEnd? with
      | some (x, c) => blockBreaks start indent fuel (breaks ++ [x]) deepest c
      | none => .ok (breaks, deepest, c)

/-- What has been read of a block. `pending` is the line end of the last line, `breaks` are those of
the empty lines after it, and `indented` says that the last line started with a blank. -/
structure BlockRead where
  text : String := ""
  pending : List Char := []
  breaks : List Char := []
  indented : Bool := false
deriving Repr, DecidableEq

/-- The line ends before a line of a block. A folded line end between two lines without further
indentation is a blank, unless empty lines follow it. -/
def BlockRead.joint (b : BlockRead) (folded indented : Bool) : List Char :=
  if folded && !b.indented && !indented && b.pending == ['\n'] then
    if b.breaks.isEmpty then [' '] else b.breaks
  else b.pending ++ b.breaks

def blockLines (folded : Bool) (start : Cursor) (indent : Nat) : Nat → BlockRead → Cursor →
    Except YamlError (BlockRead × Cursor)
  | 0, b, c => .ok (b, c)
  | fuel + 1, b, c =>
    if c.column ≠ indent || c.rest.isEmpty then .ok (b, c)
    else do
      let indented := c.rest.head?.elim false isBlank
      let line := c.rest.takeWhile (!isBreak ·)
      let text := b.text ++ String.ofList (b.joint folded indented ++ line)
      let c := c.skip line.length
      let (pending, c) := match c.lineEnd? with
        | some (x, c) => ([x], c)
        | none => ([], c)
      let (breaks, _, c) ← blockBreaks start indent (c.left + 1) [] 0 c
      blockLines folded start indent fuel { text, pending, breaks, indented } c

def BlockRead.finish (b : BlockRead) : Chomp → String
  | .strip => b.text
  | .clip => b.text ++ String.ofList b.pending
  | .keep => b.text ++ String.ofList (b.pending ++ b.breaks)

/-- A block inside a block of indentation `outer`, the cursor being at the bar or angle. -/
def blockScalar (folded : Bool) (outer : Int) (start : Cursor) : Except YamlError ScalarRead := do
  let (header, c) ← match blockHeader (start.skip 1) with
    | .ok r => pure r
    | .error problem => start.refuse start problem
  let c := (c.skipWhile isBlank)
  let c := if c.isAt '#' then c.skipLine else c
  if !c.rest.isEmpty && c.lineEnd?.isNone then start.refuse c .noCommentOrLineEnd
  let c := (c.lineEnd?.map Prod.snd).getD c
  let given := if header.increment = 0 then 0 else header.increment + outer.toNat
  let fuel := c.left + 1
  let (breaks, deepest, c) ← blockBreaks start given fuel [] 0 c
  let indent := if given = 0 then max deepest (max (outer + 1).toNat 1) else given
  let (b, c) ← blockLines folded start indent fuel { breaks } c
  return ⟨b.finish header.chomp, c, true⟩

end SqlAnalysis.Yaml

import SqlAnalysis.Yaml.Basic

/-!
Places in the text of a document. A line ends at a line feed, at a carriage return, at both together
or at one of the three line ends beyond ASCII; columns count characters.
-/

namespace SqlAnalysis.Yaml

def isBlank (c : Char) : Bool := c = ' ' || c = '\t'

/-- Line ends that are no ASCII characters and are kept in the text that they divide. -/
def isSeparator (c : Char) : Bool := c = '\u2028' || c = '\u2029'

def isBreak (c : Char) : Bool := c = '\n' || c = '\r' || c = '\x85' || isSeparator c

def isSpace (c : Char) : Bool := isBlank c || isBreak c

def endsWord (cs : List Char) : Bool := cs.head?.elim true isSpace

def isWordChar (c : Char) : Bool := c.isAlphanum || c = '_' || c = '-'

def isAllowed (c : Char) : Bool :=
  let n := c.toNat
  c = '\t' || c = '\n' || c = '\r' || (0x20 ≤ n && n ≤ 0x7E) || n =
    0x85 || (0xA0 ≤ n && n ≤ 0xFFFD) || 0x10000 ≤ n

/-- A place in a text: what follows it, how much that is, and where it is. -/
structure Cursor where
  rest : List Char
  left : Nat := rest.length
  index : Nat := 0
  line : Nat := 0
  column : Nat := 0
deriving Repr, DecidableEq

namespace Cursor

variable (c : Cursor)

def isAt (x : Char) : Bool := c.rest.head? == some x

def atSpace : Bool := c.rest.head?.elim false isSpace

def skip (n : Nat) : Cursor :=
  { c with rest := c.rest.drop n, left := c.left - n, index := c.index + n, column := c.column + n }

def skipWhile (p : Char → Bool) : Cursor := c.skip (c.rest.takeWhile p).length

def skipLine : Cursor := c.skipWhile (!isBreak ·)

/-- The start of the next line, at the end of a line, and the line end as it is kept. -/
def lineEnd? : Option (Char × Cursor) :=
  let next (width : Nat) : Cursor :=
    { rest := c.rest.drop width, left := c.left - width, index := c.index + width,
      line := c.line + 1
      column := 0 }
  match c.rest with
  | [] => none
  | '\r' :: '\n' :: _ => some ('\n', next 2)
  | x :: _ =>
    if isSeparator x then some (x, next 1) else if isBreak x then some ('\n', next 1) else none

def next : Cursor :=
  match c.lineEnd? with
  | some (_, c) => c
  | none => c.skip 1

def atMark (mark : Char) : Bool :=
  c.column = 0 && c.rest.take 3 == [mark, mark, mark] && endsWord (c.rest.drop 3)

def atDocumentMark : Bool := c.atMark '-' || c.atMark '.'

def isPlainSpace (x : Char) : Bool := isBlank x || x = '\n' || x = '\r'

def skipPlainSpace : Nat → Cursor → Cursor
  | 0, c => c
  | fuel + 1, c => if c.rest.head?.elim false isPlainSpace then skipPlainSpace fuel c.next else c

def commentReach : Nat := 512

/-- The place after a group of comments, at the end of the line of the last; the cursor is at the
first of them. Between two comments of a group there is nothing but space. -/
def skipComments : Nat → Cursor → Cursor
  | 0, c => c
  | fuel + 1, c =>
    let c := c.skipLine
    if ((c.rest.take commentReach).dropWhile isPlainSpace).head? == some '#' then
      skipComments fuel (skipPlainSpace commentReach c)
    else c

/-- The place after blanks and a comment on the same line, where there is a comment. -/
def skipLineComment : Cursor :=
  let after := c.skipWhile isBlank
  if after.isAt '#' then after.skipLine else c

/-- The line that a message about a place names: that of the start of the part that the place is in,
or its own where that part starts on the first line. -/
def namedLine (start here : Nat) : Nat := if start = 0 then here else start

/-- Refuses what follows `c` in a part that starts at `start`. The first line is not named. -/
def refuse {α : Type} (start c : Cursor) (problem : YamlProblem) : Except YamlError α :=
  let line := namedLine start.line c.line
  .error (.malformed (if line = 0 then none else some (line + 1)) problem)

end Cursor

end SqlAnalysis.Yaml

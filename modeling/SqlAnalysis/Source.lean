import SqlAnalysis.Number.Digits
import SqlAnalysis.Text.Blank

/-!
Source texts. A statement may be put together from several files; a place in the whole text is an
offset in bytes, and a message about a place shows the file, line and column with the line itself.
-/

namespace SqlAnalysis

structure Span where
  first : Nat
  last : Nat
deriving Repr, DecidableEq, Inhabited

namespace Span

def contains (s : Span) (pos : Int) : Bool := (s.first : Int) ≤ pos && pos < (s.last : Int)

def width (s : Span) : Int := (s.last : Int) - s.first

end Span

/-- A place for a reader: the offset in the whole text and in the file, then line and column, which
count from one. -/
structure Position where
  pos : Int
  offset : Int
  line : Int
  column : Int
deriving Repr, DecidableEq

def Position.none : Position := ⟨-1, -1, -1, -1⟩

def Position.isValid (p : Position) : Bool := 0 ≤ p.pos

/-- A file of a source. Its lines start at `lines`, counted from its own start, which is `start` in
the whole text. -/
structure SourceFile where
  name : String
  lines : List Nat
  size : Nat
  start : Nat
deriving Repr, DecidableEq, Inhabited

namespace SourceFile

/-- The places behind the newlines of a text that stands at `offset`. A newline at the very end
starts no further line. -/
def lineStarts (offset : Nat) : List Char → List Nat
  | [] => []
  | c :: cs =>
    let starts := lineStarts (offset + c.utf8Size) cs
    if c = '\n' ∧ cs ≠ [] then (offset + 1) :: starts else starts

def ofText (name : String) (start : Nat) (text : String) : SourceFile where
  name
  lines := 0 :: lineStarts 0 text.toList
  size := text.utf8ByteSize
  start

variable (f : SourceFile)

def lineIndex (offset : Int) : Nat :=
  (f.lines.takeWhile (fun (l : Nat) => (l : Int) ≤ offset)).length - 1

def lineStart (offset : Int) : Nat := (f.lines[f.lineIndex offset]?).getD 0

def position (pos : Int) : Position :=
  if pos < 0 then .none
  else
    let offset := pos - f.start
    { pos, offset, line := f.lineIndex offset + 1, column := offset - f.lineStart offset + 1 }

/-- The line around a place, cut out of the whole text, without its newline. -/
def lineOfPos (whole : String) (pos : Int) : String :=
  let offset := pos - f.start
  let first := f.lineStart offset
  let last := (f.lines[f.lineIndex offset + 1]?).getD f.size
  let line := Text.takeBytes (last - first) (Text.dropBytes (f.start + first) whole.toList)
  String.ofList (if line.getLast? = some '\n' then line.dropLast else line)

end SourceFile

structure Source where
  text : String
  files : List SourceFile
deriving Repr, DecidableEq, Inhabited

namespace Source

def ofText (name text : String) : Source := { text, files := [.ofText name 0 text] }

/-- Puts a text behind the others. What ends it is not in its file. -/
def add (s : Source) (name text ending : String) : Source :=
  { text := s.text ++ text ++ ending, files := s.files ++ [.ofText name s.text.utf8ByteSize text] }

/-- Puts the included texts one after the other, a newline after each, and then the statement. The
statement has no name; it is left out when it is empty and something is included. -/
def concat (includes : List (String × String)) (statement : String) : Source :=
  let included := includes.foldl (fun s g => s.add g.1 g.2 "\n") { text := "", files := [] }
  if statement = "" ∧ included.files ≠ [] then included else included.add "" statement ""

/-- The last file that starts at or before `pos`, or the first one. -/
def fileOf? (s : Source) (pos : Int) : Option SourceFile :=
  match (s.files.takeWhile (fun f => (f.start : Int) ≤ pos)).getLast? with
  | some f => some f
  | none => s.files.head?

end Source

/-- A message about the bytes from `pos` up to `stop`; a negative `pos` is no place. -/
structure Located where
  message : String
  pos : Int := -1
  stop : Int := -1
deriving Repr, DecidableEq, Inhabited

namespace Located

def file? (e : Located) (source : Option Source) : Option SourceFile :=
  if e.pos < 0 then none else source.bind (·.fileOf? e.pos)

def position (e : Located) (source : Option Source) : Position :=
  match e.file? source with
  | some f => f.position e.pos
  | none => .none

def markIndent (start : Position) : Int := start.column - 1

def markWidth (line : String) (start stop : Position) : Int :=
  if start.line = stop.line then stop.column - start.column + 1
  else (line.utf8ByteSize : Int) - start.column + 1

def spanMark (line : String) (start stop : Position) : String :=
  String.ofList (List.replicate (markIndent start).toNat ' ' ++
    List.replicate (markWidth line start stop).toNat '~')

def pointMark (start : Position) : String :=
  let col := markIndent start
  let mark (k : Nat) : Char := if (k : Int) ≥ col - 4 ∧ (k : Int) ≠ col - 1 then '=' else ' '
  String.ofList ((List.range col.toNat).map mark) ++ "^ ==="

def render (e : Located) (source : Option Source) : String :=
  match e.file? source with
  | none => e.message
  | some f =>
    let start := f.position e.pos
    let stop := f.position (e.stop - 1)
    let line := f.lineOfPos (source.elim "" Source.text) e.pos
    let head := if f.name = "" then e.message else e.message ++ " in " ++ f.name
    head ++ " at line " ++ Number.intText start.line ++ ", column " ++
      Number.intText start.column ++ ":\n" ++ line ++ "\n" ++
      (if e.stop > e.pos ∧ stop.isValid then spanMark line start stop else pointMark start)

end Located

end SqlAnalysis

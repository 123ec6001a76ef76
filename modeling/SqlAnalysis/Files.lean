import SqlAnalysis.Text.Blank

/-!
Named texts in one folder, as a command reads and writes them.
-/

namespace SqlAnalysis

namespace Path

/-- Takes one step further; an empty step and `.` stay, and `..` takes back the step before it. -/
def follow (steps : List String) (step : String) : List String :=
  if step = "" ∨ step = "." then steps
  else if step = ".." ∧ steps.getLast?.any (· != "..") then steps.dropLast
  else steps ++ [step]

def steps (path : String) : List String := (Text.split '/' path).foldl follow []

def clean (path : String) : String :=
  match steps path with
  | [] => "."
  | ss => Text.join "/" ss

end Path

/-- The files of a folder; of two entries with one name the last counts. -/
structure Files where
  entries : List (String × String) := []
deriving Repr, DecidableEq, Inhabited

inductive FileError where
  | notFound (name : String)
  | isFolder (name : String)
deriving Repr, DecidableEq

def FileError.message : FileError → String
  | .notFound name => "open " ++ name ++ ": no such file or directory"
  | .isFolder name => "read " ++ name ++ ": is a directory"

namespace Files

variable (fs : Files)

def read? (name : String) : Option String :=
  (fs.entries.reverse.find? (fun e => Path.steps e.1 == Path.steps name)).map Prod.snd

def isFolder (name : String) : Bool :=
  let steps := Path.steps name
  name != "" && (steps.isEmpty || fs.entries.any fun e => steps.isPrefixOf (Path.steps e.1))

def read (fs : Files) (name : String) : Except FileError String :=
  match fs.read? name with
  | some text => if name = "" then .error (.notFound name) else .ok text
  | none => .error (if fs.isFolder name then .isFolder name else .notFound name)

def readAll (names : List String) : Except FileError (List (String × String)) :=
  names.mapM fun name => do return (name, ← fs.read name)

def write (name text : String) : Files := { entries := fs.entries ++ [(name, text)] }

def names : List String :=
  ((fs.entries.map Prod.fst).eraseDups.filter fun name => (Path.steps name).length == 1).mergeSort

end Files

end SqlAnalysis

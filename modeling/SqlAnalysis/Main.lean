import SqlAnalysis.CommandLine.Command

/-!
The program: it reads the files that its arguments name, runs the command, writes what the command
leaves behind and prints what it has to say.
-/

namespace SqlAnalysis.CommandLine

def readText? (name : String) : IO (Option (String × String)) := do
  try
    return some (name, ← IO.FS.readFile name)
  catch _ =>
    return none

def readInputs (names : List String) : IO Files := do
  return { entries := (← names.mapM readText?).filterMap id }

def readStandardInput (names : List String) : IO String := do
  if names.contains "-" then (← IO.getStdin).readToEnd else return ""

def execute (args : List String) : IO UInt32 := do
  let names := inputNames args
  let outcome := run (← readInputs names) (← readStandardInput names) args
  IO.print outcome.output
  for (name, text) in outcome.written do
    IO.FS.writeFile name text
  match outcome.failure with
  | none => return 0
  | some e =>
    IO.eprintln (programName ++ ": " ++ e.message)
    return 1

end SqlAnalysis.CommandLine

def main (args : List String) : IO UInt32 := SqlAnalysis.CommandLine.execute args

/-!
Faults: places where the program takes for granted what its input does not promise. A fault is no
answer to a statement; the program breaks off at it.
-/

namespace SqlAnalysis

inductive Fault where
  /-- An element is read past the end of a list. -/
  | outOfRange
  /-- A part is read of something that is absent. -/
  | absent
deriving Repr, DecidableEq

def Fault.message : Fault → String
  | .outOfRange => "index out of range"
  | .absent => "invalid memory address or nil pointer dereference"

end SqlAnalysis

/-!
Sets of characters as texts: the runs of code points in order, with blanks between them. A run is
written in hexadecimal as how far it starts after the end of the one before and, when there is more
than one code point in it, a dash and how far it goes on.
-/

namespace SqlAnalysis.Text

def capitalHex (c : Char) : Nat :=
  if c.isDigit then c.toNat - '0'.toNat else c.toNat - 'A'.toNat + 10

/-- Reads runs on: `first` is where the run at hand starts, when that is known, `last` how far the
text has come and `n` the number read so far. -/
def runsFrom (first : Option Nat) (last n : Nat) : List Char → List (Nat × Nat)
  | [] => [(first.getD (last + n), last + n)]
  | '-' :: cs => runsFrom (some (last + n)) (last + n) 0 cs
  | ' ' :: cs | '\n' :: cs => (first.getD (last + n), last + n) :: runsFrom none (last + n) 0 cs
  | c :: cs => runsFrom first last (16 * n + capitalHex c) cs

def runs (s : String) : List (Nat × Nat) := runsFrom none 0 0 s.toList

end SqlAnalysis.Text

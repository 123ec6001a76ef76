import SqlAnalysis.Text.Case

/-!
Similar names. Both the names offered in place of an unknown one and those offered to complete a
name are sorted by their edit distance without regard to case, then by themselves, so they depend
only on the set of candidates. How distances are measured is a parameter; names are measured by the
least number of characters to insert, delete or replace to turn one into the other.
-/

namespace SqlAnalysis.Text

/-- The next row of the table for a character `c`: `left` is the entry just computed, `diagonal` the
entry above it, and the lists hold the other text and the entries above it. -/
def distanceRow (c : Char) (left diagonal : Nat) : List Char → List Nat → List Nat
  | d :: ds, above :: row =>
    let here := min (min (left + 1) (above + 1)) (if c = d then diagonal else diagonal + 1)
    here :: distanceRow c here above ds row
  | _, _ => []

def distanceRows (t : List Char) : List Char → List Nat → List Nat
  | [], row => row
  | c :: cs, row =>
    match row with
    | [] => []
    | first :: above => distanceRows t cs ((first + 1) :: distanceRow c (first + 1) first t above)

def distance (s t : String) : Nat :=
  (distanceRows t.toList s.toList (List.range (t.length + 1))).getLastD 0

end SqlAnalysis.Text

namespace SqlAnalysis.Suggestion

variable (measure : String → String → Nat)

def distance (name candidate : String) : Nat := measure (Text.upper name) (Text.upper candidate)

variable (name : String)

/-- The distance up to which a candidate is similar; long names may differ more. -/
def tolerance : Nat := max 2 (name.utf8ByteSize / 3)

/-- Nearer to `name`, or as near and not later in the order of names. -/
def precedes (a b : String) : Bool :=
  distance measure name a < distance measure name b ||
    (distance measure name a == distance measure name b && decide (a ≤ b))

def ranked (candidates : List String) : List String :=
  ((candidates.filter (· != "")).eraseDups).mergeSort (precedes measure name)

/-- The nearest of the similar candidates, at most `limit` of them. -/
def closestBy (limit : Int) (candidates : List String) : List String :=
  (ranked measure name (candidates.filter fun c => distance measure name c ≤ tolerance name)).take
    limit.toNat

def startsWith (start candidate : String) : Bool :=
  (Text.upper start).toList.isPrefixOf (Text.upper candidate).toList

/-- The candidates that start with `start`, nearest first. -/
def completionsBy (start : String) (candidates : List String) : List String :=
  ranked measure start (candidates.filter (startsWith start))

def closest : String → Int → List String → List String := closestBy Text.distance

def completions : String → List String → List String := completionsBy Text.distance

end SqlAnalysis.Suggestion

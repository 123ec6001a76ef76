/-!
Patterns of `LIKE` as regular expressions. In a pattern `_` stands for one character and `%` for any
number of them; the escape character takes from the one after it its meaning.
-/

namespace SqlAnalysis.Pattern

def special : List Char :=
  ['\\', '.', '+', '*', '?', '(', ')', '|', '[', ']', '\x7b', '\x7d', '^', '$']

def quoteChar (c : Char) : List Char := if special.contains c then ['\\', c] else [c]

def isWildcard (c : Char) : Bool := c = '_' || c = '%'

def wildcard (c : Char) : List Char :=
  if c = '_' then ['.'] else if c = '%' then ['.', '*', '?'] else quoteChar c

/-- The expression for a pattern. The escape character itself is kept unless it stands before a
wildcard; before itself both are kept. -/
def body (escape : Char) : List Char → List Char
  | [] => []
  | [c] => if c = escape then quoteChar c else wildcard c
  | c :: d :: rest =>
    if c = escape then
      if isWildcard d then quoteChar d ++ body escape rest
      else if d = escape then quoteChar c ++ quoteChar d ++ body escape rest
      else quoteChar c ++ body escape (d :: rest)
    else wildcard c ++ body escape (d :: rest)

def regexp (pattern : String) (escape : Char) : String :=
  "(?s)^" ++ String.ofList (body escape pattern.toList) ++ "$"

end SqlAnalysis.Pattern

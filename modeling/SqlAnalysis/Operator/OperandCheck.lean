import SqlAnalysis.Operator.Kind
import SqlAnalysis.SqlType.Conversion
import SqlAnalysis.SqlType.Family

/-!
Which operand types an operator accepts, and how the accepted calls are described to a reader.
-/

namespace SqlAnalysis

/-- The call of `name` on the described operands, written in its form, such as
`<NUMERIC> + <NUMERIC>` or `ABS(<NUMERIC>)`. -/
def CallForm.template (form : CallForm) (name : String) (operands : List String) : String :=
  match form, operands with
  | .binary, [a, b] => a ++ " " ++ name ++ " " ++ b
  | .prefixed, [a] => name ++ " " ++ a
  | .postfixed, [a] => a ++ " " ++ name
  | .functionId, [] => name
  | _, _ => name ++ "(" ++ Text.join ", " operands ++ ")"

inductive OperandPattern where
  /-- Each operand belongs to the family at its place; the last family repeats. -/
  | families (fs : List Family)
  /-- That many operands, each comparable with each; `ordered` excludes types without an order. -/
  | comparable (count : Nat) (ordered : Bool)
  /-- That many operands, all character strings or all binary strings. -/
  | sameString (count : Nat)
  | sameInterval
deriving Repr, DecidableEq

namespace OperandPattern

def inFamilies (last : Family) : List Family → List SqlType → Bool
  | _, [] => true
  | [], t :: ts => last.contains t && inFamilies last [] ts
  | f :: fs, t :: ts => f.contains t && inFamilies f fs ts

def allComparable : List SqlType → Bool
  | [] => true
  | t :: ts => ts.all (SqlType.canCompare t) && allComparable ts

/-- The family of a string type; `none` for a type that is no string. `NULL` and `ANY` are strings
of either family and left out beforehand. -/
def stringFamily? (t : SqlType) : Option Family :=
  if t.isChar then some .character else if t.isBinary then some .binary else none

def allOneString (ts : List SqlType) : Bool :=
  match (ts.filter (fun t => !(t.isNull || t.isAny))).mapM stringFamily? with
  | none => false
  | some [] => true
  | some (f :: fs) => fs.all (· == f)

def accepts (p : OperandPattern) (ts : List SqlType) : Bool :=
  match p with
  | .families [] => ts.isEmpty
  | .families (f :: fs) => inFamilies f (f :: fs) ts
  | .comparable n ordered =>
    ts.length == n && !(ordered && ts.any SqlType.isMultiset) && allComparable ts
  | .sameString n => ts.length == n && allOneString ts
  | .sameInterval =>
    match ts with
    | [a, b] =>
      Family.interval.contains a && Family.interval.contains b &&
        (a.isNull || b.isNull || a.name == b.name || a.isAny || b.isAny)
    | _ => false

def operandTexts : OperandPattern → List String
  | .families fs => fs.map fun f => "<" ++ f.toText ++ ">"
  | .comparable n ordered =>
    List.replicate n (if ordered then "<COMPARABLE_ORDERED_TYPE>" else "<COMPARABLE_TYPE>")
  | .sameString n => List.replicate n "<STRING>"
  | .sameInterval => ["<INTERVAL>", "<INTERVAL>"]

end OperandPattern

abbrev OperandCheck := List OperandPattern

namespace OperandCheck

def accepts (c : OperandCheck) (ts : List SqlType) : Bool := c.any (OperandPattern.accepts · ts)

def signatures (c : OperandCheck) (form : CallForm) (name : String) : List String :=
  c.map fun p => form.template name p.operandTexts

end OperandCheck

end SqlAnalysis

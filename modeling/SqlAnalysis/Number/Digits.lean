/-!
Digit lists and the numbers they write, shared by every reader and printer of numerals.
-/

namespace SqlAnalysis.Number

def isDigit (c : Char) : Bool := '0' ≤ c && c ≤ '9'

def ofDigits (cs : List Char) : Nat := cs.foldl (fun n c => 10 * n + (c.toNat - 48)) 0

def digits (n : Nat) : List Char := (Nat.toDigits 10 n)

def digitCount (n : Nat) : Nat := (digits n).length

def natText (n : Nat) : String := String.ofList (digits n)

def intText (n : Int) : String :=
  if n < 0 then "-" ++ natText n.natAbs else natText n.natAbs

def padded (width n : Nat) : String :=
  let ds := digits n
  String.ofList (List.replicate (width - ds.length) '0' ++ ds)

def readNat? (cs : List Char) : Option Nat :=
  if cs ≠ [] ∧ cs.all isDigit then some (ofDigits cs) else none

def readInt? : List Char → Option Int
  | '-' :: cs => (readNat? cs).map fun n => -(n : Int)
  | '+' :: cs => (readNat? cs).map fun n => (n : Int)
  | cs => (readNat? cs).map fun n => (n : Int)

def fits (bits : Nat) (n : Int) : Bool :=
  -(Nat.pow 2 (bits - 1) : Int) ≤ n && n < (Nat.pow 2 (bits - 1) : Int)

/-- The number of `bits` bits with a sign that agrees with `n` in its lowest bits. -/
def wrap (bits : Nat) (n : Int) : Int := n.bmod (Nat.pow 2 bits)

def total : List Nat → Nat
  | [] => 0
  | n :: ns => n + total ns

end SqlAnalysis.Number

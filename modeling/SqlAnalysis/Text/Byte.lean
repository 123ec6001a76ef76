/-!
Texts as the bytes of their encoding, each byte a character below 256.
-/

namespace SqlAnalysis.Text

def bytesOf (cs : List Char) : List Char :=
  (cs.flatMap String.utf8EncodeChar).map fun b => Char.ofNat b.toNat

/-- The value of a byte that continues a character. -/
def continuation? (c : Char) : Option Nat :=
  if 0x80 ≤ c.toNat ∧ c.toNat < 0xC0 then some (c.toNat - 0x80) else none

def isCharNumber (n : Nat) : Bool := n < 0xD800 || (0xE000 ≤ n && n < 0x110000)

/-- The character of more than one byte that bytes start with and its length. -/
def firstWideChar? : List Char → Option (Char × Nat)
  | a :: b :: rest => do
    let n := a.toNat
    let first ← continuation? b
    if 0xC2 ≤ n ∧ n < 0xE0 then return (Char.ofNat ((n - 0xC0) * 64 + first), 2)
    let second ← rest.head?.bind continuation?
    if 0xE0 ≤ n ∧ n < 0xF0 then
      let n := ((n - 0xE0) * 64 + first) * 64 + second
      if 0x800 ≤ n ∧ isCharNumber n then return (Char.ofNat n, 3) else none
    else
      let third ← (rest.drop 1).head?.bind continuation?
      let n := (((n - 0xF0) * 64 + first) * 64 + second) * 64 + third
      if 0xF0 ≤ a.toNat ∧ 0x10000 ≤ n ∧ isCharNumber n then return (Char.ofNat n, 4) else none
  | _ => none

/-- The character that bytes start with and its length; a byte that starts none counts as the
replacement character. -/
def firstChar (bs : List Char) : Char × Nat :=
  match bs with
  | [] => ('\ufffd', 1)
  | b :: _ => if b.toNat < 0x80 then (b, 1) else (firstWideChar? bs).getD ('\ufffd', 1)

/-- The characters of bytes, of which at most `fuel` are read. -/
def charsUpTo : Nat → List Char → List Char
  | 0, _ => []
  | _, [] => []
  | fuel + 1, b :: bs =>
    let (c, length) := firstChar (b :: bs)
    c :: charsUpTo fuel (bs.drop (length - 1))

def ofBytes (bs : List Char) : List Char := charsUpTo bs.length bs

end SqlAnalysis.Text

import SqlAnalysis.Locale.SubtagData
import SqlAnalysis.Text.Blank

/-!
Look-ups of registered subtags. A subtag is looked up in the letter case that it is registered in.
-/

namespace SqlAnalysis.Locale

abbrev Subtag := List Char

def entriesOf (table : String) : List Subtag := Text.runsOf (!Text.isBlank ·) table.toList

def pairOf? (table : String) (s : Subtag) : Option Subtag :=
  ((entriesOf table).find? fun e => e.takeWhile (· ≠ ':') == s).map fun e =>
    (e.dropWhile (· ≠ ':')).drop 1

def undetermined : Subtag := ['u', 'n', 'd']

def listsLetter (c : Char) : List Char → Bool
  | first :: '-' :: last :: rest => (first ≤ c && c ≤ last) || listsLetter c rest
  | d :: rest => d == c || listsLetter c rest
  | [] => false

/-- Whether a letter may come last, by what is written after those before it. -/
def mayFollow (letters : List Char) (c : Char) : Bool :=
  match letters with
  | '-' :: others => c.isLower && !listsLetter c others
  | letters => listsLetter c letters

/-- Whether a code is listed, where the codes that have the first `k` letters in common are one
entry. -/
def listsCode (k : Nat) (table : String) (code : Subtag) : Bool :=
  (entriesOf table).any fun e => e.take k == code.take k && (code.drop k).all (mayFollow (e.drop k))

def longCode (e : Subtag) : Subtag :=
  let code := e.takeWhile Char.isAlpha
  if code.length = 3 then code else code.drop 2

/-- The language that has a code of two or three letters, under its shorter code where it has
two. -/
def language? (code : Subtag) : Option Subtag :=
  if code.length = 2 then
    ((entriesOf shortLanguages).find? fun e => e.take 2 == code).map fun _ => code
  else if code == undetermined then some code
  else if listsCode 2 longLanguages code then some code
  else ((entriesOf shortLanguages).find? fun e => longCode e == code).map (·.take 2)

def languageReplacement? (language : Subtag) : Option Subtag :=
  pairOf? languageReplacements language

def isScript (s : Subtag) : Bool := s.length = 4 && listsCode 3 scripts s

def region? (code : Subtag) : Option Subtag :=
  ((entriesOf regions).find? fun e =>
    if code.length = 2 then e.take 2 == code else longCode e == code).map (·.take 2)

def numberedRegion? (number : Subtag) : Option Subtag :=
  if (entriesOf regionGroups).contains number then some number
  else ((entriesOf regions).find? fun e => e.dropWhile Char.isAlpha == number).map (·.take 2)

def regionReplacement? (region : Subtag) : Option Subtag := pairOf? regionReplacements region

def variantPlace? (s : Subtag) : Option Nat := (entriesOf registeredVariants).findIdx? (· == s)

def wholeTag? (tag : List Char) : Option (List Char) := pairOf? wholeTags tag

end SqlAnalysis.Locale

import SqlAnalysis.Locale.Subtag
import SqlAnalysis.Text.Quoted

/-!
Locale tags: a language, then optionally a script, a region, variants and extensions, each in its
own letter case. Subtags that are no longer used are replaced by those in use.
-/

namespace SqlAnalysis

/-- A locale. A tag that is private as a whole has no language. -/
structure Locale where
  language : Option Locale.Subtag := none
  script : Option Locale.Subtag := none
  region : Option Locale.Subtag := none
  variants : List Locale.Subtag := []
  extensions : List (List Locale.Subtag) := []
deriving Repr, DecidableEq

inductive LocaleError where
  | malformed
  | unknown (subtag : String)
  | conflictingKeys
deriving Repr, DecidableEq

def LocaleError.message : LocaleError → String
  | .malformed => "language: tag is not well-formed"
  | .unknown subtag => "language: subtag " ++ Text.quote subtag ++ " is well-formed but unknown"
  | .conflictingKeys => "language: different values for same key in -u extension"

namespace Locale

def isLetter (c : Char) : Bool := c.isAlpha

variable (s : Subtag)

def isSubtag : Bool := 1 ≤ s.length && s.length ≤ 8 && s.all Char.isAlphanum

def lowerCase : Subtag := s.map Char.toLower

def upperCase : Subtag := s.map Char.toUpper

def titleCase : Subtag → Subtag
  | [] => []
  | c :: cs => c.toUpper :: lowerCase cs

/-! ### Problems

Reading goes on after an unknown subtag, since a tag that is not well formed is reported as that. -/

abbrev Noted (α : Type) := α × Option LocaleError

/-- The problem to report of two, found in this order: the first, unless the second says that the
tag is not well formed. -/
def worse (a b : Option LocaleError) : Option LocaleError :=
  if a.isNone || b == some .malformed then b else a

def unknown (s : Subtag) : Option LocaleError := some (.unknown (String.ofList s))

/-- A look-up of a subtag of letters, which is unknown if nothing is found and not well formed if it
has digits. -/
def lookUp (read : Subtag → Option Subtag) (s : Subtag) : Noted (Option Subtag) :=
  if !s.all isLetter then (none, some .malformed)
  else match read s with
    | some found => (some found, none)
    | none => (none, unknown s)

/-! ### Parts -/

def isExtending : Bool := s.length = 3 && s.head?.elim false isLetter

/-- A language and the languages after it that it is extended by, of which the last known one
counts. -/
def readExtended (language : Subtag) : List Subtag → Noted (Subtag × List Subtag)
  | [] => ((language, []), none)
  | s :: rest =>
    if isExtending s then
      let (found, problem) := lookUp language? (lowerCase s)
      let next := (found.filter (· != undetermined)).getD language
      let (result, later) := readExtended next rest
      (result, worse problem later)
    else ((language, s :: rest), none)

def readLanguage (rest : List Subtag) : Noted (Subtag × List Subtag) :=
  let (found, problem) := lookUp language? (lowerCase s)
  let (result, later) := readExtended (found.getD undetermined) rest
  (result, worse problem later)

def readScript : List Subtag → Noted (Option Subtag × List Subtag)
  | [] => ((none, []), none)
  | s :: rest =>
    if s.length = 4 && s.head?.elim false isLetter then
      let (found, problem) := lookUp (fun s => if isScript s then some s else none) (titleCase s)
      ((found, rest), problem)
    else ((none, s :: rest), none)

def readRegion : List Subtag → Noted (Option Subtag × List Subtag)
  | [] => ((none, []), none)
  | s :: rest =>
    if s.length = 2 || s.length = 3 then
      if s.length = 3 && s.all Char.isDigit then
        match numberedRegion? s with
        | some region => ((some region, rest), none)
        | none => ((none, rest), unknown [])
      else
        let (found, problem) := lookUp region? (upperCase s)
        ((found, rest), problem)
    else ((none, s :: rest), none)

def readVariants : List Subtag → Noted (List Subtag × List Subtag)
  | [] => (([], []), none)
  | s :: rest =>
    if s.length ≥ 4 then
      let ((variants, left), later) := readVariants rest
      match variantPlace? (lowerCase s) with
      | some _ => ((lowerCase s :: variants, left), later)
      | none => ((variants, left), worse (unknown (lowerCase s)) later)
    else (([], s :: rest), none)

def orderVariants (variants : List Subtag) : List Subtag :=
  let place (s : Subtag) : Nat := (variantPlace? s).getD 0
  (variants.mergeSort fun a b => place a ≤ place b).eraseDups

structure Details where
  script : Option Subtag
  region : Option Subtag
  variants : List Subtag

variable (rest : List Subtag)

def readDetails : Noted (Details × List Subtag) :=
  let ((script, rest), p₁) := readScript rest
  let ((region, rest), p₂) := readRegion rest
  let ((variants, rest), p₃) := readVariants rest
  (({ script, region, variants := orderVariants variants }, rest), worse (worse p₁ p₂) p₃)

/-! ### Extensions

The subtags of an extension and those after it are divided by their lengths. -/

def isBefore (n : Nat) (a b : Subtag) : Bool :=
  decide (String.ofList (a.take n) ≤ String.ofList (b.take n))

def readKeys : Nat → List Subtag → List (List Subtag) × List Subtag
  | 0, rest => ([], rest)
  | fuel + 1, key :: rest =>
    if key.length = 2 then
      let value := rest.takeWhile fun s => s.length > 2
      let (keys, left) := readKeys fuel (rest.drop value.length)
      ((key :: value) :: keys, left)
    else ([], key :: rest)
  | _ + 1, [] => ([], [])

def distinctKeys : List (List Subtag) → Noted (List (List Subtag))
  | [] => ([], none)
  | key :: rest =>
    let (keys, problem) := distinctKeys rest
    match keys with
    | [] => ([key], problem)
    | next :: more =>
      if next.head? != key.head? then (key :: keys, problem)
      else (key :: more, if next == key then problem else some .conflictingKeys)

def readAttributes : Noted (List Subtag × List Subtag) :=
  let attributes := rest.takeWhile fun s => s.length > 2
  let (keys, left) := readKeys rest.length (rest.drop attributes.length)
  let (keys, problem) := distinctKeys
    (keys.mergeSort fun a b => isBefore 2 (a.head?.getD []) (b.head?.getD []))
  ((attributes.mergeSort (isBefore 3) ++ keys.flatten, left), problem)

def readFields : Nat → List Subtag → List Subtag × List Subtag
  | fuel + 1, key :: rest =>
    if key.length = 2 && !(key.getLast?.elim false isLetter) then
      let value := rest.takeWhile fun s => s.length ≥ 3
      let (fields, left) := readFields fuel (rest.drop value.length)
      (key :: value ++ fields, left)
    else ([], key :: rest)
  | _, rest => ([], rest)

def readSourceLanguage : List Subtag → Noted (List Subtag × List Subtag)
  | [] => (([], []), none)
  | s :: rest =>
    if (s.length = 2 || s.length = 3) && (s.drop 1).head?.elim false isLetter then
      let (found, problem) := lookUp language? s
      let extending := rest.takeWhile isExtending
      let ((details, rest), later) := readDetails (rest.drop extending.length)
      let parts := details.script.toList ++ details.region.toList ++ details.variants
      ((found.getD undetermined :: extending ++ parts.map lowerCase, rest), worse problem later)
    else (([], s :: rest), none)

def readTransformation : Noted (List Subtag × List Subtag) :=
  let ((source, rest), problem) := readSourceLanguage rest
  let (fields, rest) := readFields rest.length rest
  ((source ++ fields, rest), problem)

def readExtension (mark : Char) (rest : List Subtag) : Noted (List Subtag × List Subtag) :=
  if mark = 'x' then ((rest, []), none)
  else if mark = 'u' then readAttributes rest
  else if mark = 't' then readTransformation rest
  else
    let taken := rest.takeWhile fun s => s.length ≥ 2
    ((taken, rest.drop taken.length), none)

def readExtensions : Nat → List Subtag → Noted (List (List Subtag) × List Subtag)
  | fuel + 1, [mark] :: rest =>
    let ((taken, left), problem) := readExtension mark rest
    let ((more, left), later) := readExtensions fuel left
    if taken.isEmpty then ((more, left), worse (some .malformed) later)
    else ((([mark] :: taken) :: more, left), worse problem later)
  | _, rest => (([], rest), none)

def orderExtensions (es : List (List Subtag)) : List (List Subtag) :=
  let isPrivate (e : List Subtag) : Bool := e.head? == some ['x']
  let shared := es.filter fun e => !isPrivate e
  (shared.mergeSort fun a b => isBefore 1 (a.head?.getD []) (b.head?.getD [])) ++
    es.filter isPrivate

/-! ### Tags -/

def readTag (rest : List Subtag) : Noted (Locale × List Subtag) :=
  let ((language, rest), p₁) := readLanguage s rest
  let (({ script, region, variants }, rest), p₂) := readDetails rest
  let isExtended := rest.head?.elim true fun s => s.length = 1
  let ((extensions, left), p₃) := readExtensions rest.length (rest.map lowerCase)
  let p₃ := if isExtended then p₃ else some .malformed
  (({ language := some language, script, region, variants
      extensions := orderExtensions extensions }, left), worse (worse p₁ p₂) p₃)

/-- The locale of the subtags of a tag, as they stand. Of the subtags that are passed over, only the
first has been looked at. -/
def ofSubtags (subtags : List Subtag) : Except LocaleError Locale :=
  let settled (r : Noted (Locale × List Subtag)) : Except LocaleError Locale :=
    let ((locale, left), problem) := r
    if !(subtags.take (subtags.length + 1 - left.length)).all isSubtag then .error .malformed
    else match problem with
      | some e => .error e
      | none => .ok locale
  match subtags with
  | [] => .error .malformed
  | s :: rest =>
    if lowerCase s == ['x'] then
      let ((extensions, left), problem) := readExtensions 1 (subtags.map lowerCase)
      settled (({ extensions }, left), problem)
    else if s.length ≤ 1 || s.length ≥ 4 then .error .malformed
    else settled (readTag s rest)

/-- The locale with subtags in use. What was one language may need a script or a region to tell it
from others that are now the same. -/
def canonical (l : Locale) : Locale :=
  let language := (l.language.bind languageReplacement?).or l.language
  let script := if l.language == some ['s', 'h'] && l.script.isNone then some ['L', 'a', 't', 'n']
    else if l.script == some ['Q', 'a', 'a', 'i'] then some ['Z', 'i', 'n', 'h'] else l.script
  let region := if l.language == some ['m', 'o'] && l.region.isNone then some ['M', 'D']
    else (l.region.bind regionReplacement?).or l.region
  { l with language, script, region }

def parse (tag : String) : Except LocaleError Locale :=
  let cs := (wholeTag? (lowerCase tag.toList)).getD tag.toList
  if cs.isEmpty then .error .malformed else (ofSubtags (Text.splitAt '-' cs)).map canonical

def toText (l : Locale) : String :=
  let subtags := l.language.toList ++ l.script.toList ++ l.region.toList ++ l.variants ++
    l.extensions.flatten
  Text.join "-" (subtags.map String.ofList)

end Locale

end SqlAnalysis

import SqlAnalysis.Text.CompositionData

/-!
Canonical composition of texts. A text is taken apart into bases and marks, the marks of each base
are put into the order of their classes, and bases and marks that have a composed character are
joined again, so that two canonically equivalent texts get one form.
-/

namespace SqlAnalysis.Text

namespace Hangul

def firstSyllable : Nat := 0xAC00
def firstLead : Nat := 0x1100
def firstVowel : Nat := 0x1161
def firstTrail : Nat := 0x11A7
def leads : Nat := 19
def vowels : Nat := 21
def trails : Nat := 28
def syllables : Nat := leads * vowels * trails

def decompose (n : Nat) : Option (List Nat) :=
  if firstSyllable ≤ n ∧ n < firstSyllable + syllables then
    let k := n - firstSyllable
    let lead := firstLead + k / (vowels * trails)
    let vowel := firstVowel + k % (vowels * trails) / trails
    let trail := k % trails
    some (if trail = 0 then [lead, vowel] else [lead, vowel, firstTrail + trail])
  else none

/-- The syllable of a lead and a vowel, or of an open syllable and a trail. -/
def compose (a b : Nat) : Option Nat :=
  if firstLead ≤ a ∧ a < firstLead + leads ∧ firstVowel ≤ b ∧ b < firstVowel + vowels then
    some (firstSyllable + ((a - firstLead) * vowels + (b - firstVowel)) * trails)
  else if firstSyllable ≤ a ∧ a < firstSyllable + syllables ∧ (a - firstSyllable) % trails = 0 ∧
      firstTrail < b ∧ b < firstTrail + trails then
    some (a + (b - firstTrail))
  else none

end Hangul

/-- The class by which marks on one base are ordered; `0` for characters that are no such marks. -/
def combiningClass (n : Nat) : Nat :=
  if n < 0x300 then 0
  else match combiningRuns.find? (fun r => r.1 ≤ n && n ≤ r.2.1) with
    | some (_, _, k) => k
    | none => 0

def singleton? (n : Nat) : Option Nat :=
  match singletons.find? (·.1 == n) with
  | some (_, m) => some m
  | none =>
    (singletonBlocks.find? (fun b => b.1 ≤ n && n < b.1 + b.2.length)).bind fun b =>
      (b.2.toList[n - b.1]?).map Char.toNat

/-- Takes `n` apart. Decompositions nest no deeper than the first argument of any use here. -/
def decomposeCode : Nat → Nat → List Nat
  | 0, n => [n]
  | depth + 1, n =>
    if n < 0xC0 then [n]
    else match Hangul.decompose n with
      | some ns => ns
      | none => match (composable ++ decomposable).find? (·.1 == n) with
        | some (_, base, mark) => decomposeCode depth base ++ decomposeCode depth mark
        | none => match singleton? n with
          | some m => decomposeCode depth m
          | none => [n]

/-- Puts a mark behind the marks before it that have no higher class. The text is held last
character first. -/
def placeMark (n : Nat) : List Nat → List Nat
  | [] => [n]
  | m :: rest => if combiningClass n < combiningClass m then m ::
    placeMark n rest else n :: m :: rest

def orderMarks (ns : List Nat) : List Nat :=
  (ns.foldl (fun done n => if combiningClass n = 0 then n :: done else placeMark n done) []).reverse

def compose? (a b : Nat) : Option Nat :=
  match Hangul.compose a b with
  | some n => some n
  | none => (composable.find? (fun e => e.2.1 == a && e.2.2 == b)).map (·.1)

/-- Joins a base with the characters after it: `kept` holds the marks that did not join, last first,
and `blocked` is the class of the last of them. -/
def joinAfter (base : Nat) (kept : List Nat) (blocked : Option Nat) : List Nat → List Nat
  | [] => base :: kept.reverse
  | n :: rest =>
    let k := combiningClass n
    let free := match blocked with
      | none => true
      | some b => b < k && b != 0
    match (if free then compose? base n else none) with
    | some joined => joinAfter joined kept blocked rest
    | none =>
      if k = 0 then (base :: kept.reverse) ++ joinAfter n [] none rest
      else joinAfter base (n :: kept) (some k) rest

def composed (cs : List Char) : List Char :=
  if cs.all (·.toNat < 0x300) then cs
  else match orderMarks (cs.flatMap fun c => decomposeCode 8 c.toNat) with
    | [] => []
    | n :: rest => (joinAfter n [] none rest).map Char.ofNat

end SqlAnalysis.Text

import SqlAnalysis.Text.CaseData

/-!
Capital and small letters. A text is mapped letter by letter, so its length in characters never
changes; letters without a single partner, such as the sharp s, stay as they are. The caseless form
of a text may be longer: the sharp s and a double s have the same.
-/

namespace SqlAnalysis.Text

def partner (n : Nat) : List CaseRun → Option Nat
  | [] => none
  | r :: rs =>
    if r.first ≤ n ∧ n ≤ r.last ∧ (n - r.first) % r.step = 0 then some (Int.toNat (n + r.shift))
    else partner n rs

/-- Maps `c` by the runs, where ASCII letters follow `ascii`. -/
def mapCase (ascii : Char → Char) (runs : List CaseRun) (c : Char) : Char :=
  if c.toNat < 0x80 then ascii c
  else match partner c.toNat runs with
    | some n => Char.ofNat n
    | none => c

def upperChar : Char → Char := mapCase Char.toUpper upperRuns

def lowerChar : Char → Char := mapCase Char.toLower lowerRuns

def upper (s : String) : String := String.ofList (s.toList.map upperChar)

def lower (s : String) : String := String.ofList (s.toList.map lowerChar)

/-- The representative of the letters that differ from `c` only in case. The dotted capital and the
dotless small i have no such partner. -/
def caseless (c : Char) : Char :=
  if c.toNat = 0x130 ∨ c.toNat = 0x131 then c else lowerChar (upperChar c)

def sameLetters (s t : String) : Bool := s.toList.map caseless == t.toList.map caseless

/-- Letters with a caseless form of their own; that of any other letter is its small form. -/
def foldingRuns : List CaseRun := lone [
  (0xB5, 775), (0x17F, -268), (0x345, 116), (0x3C2, 1), (0x3D0, -30), (0x3D1, -25),
  (0x3D5, -15), (0x3D6, -22),
  (0x3F0, -54), (0x3F1, -48), (0x3F5, -64), (0x1C80, -6222), (0x1C81, -6221),
  (0x1C82, -6212), (0x1C83, -6210),
  (0x1C84, -6210), (0x1C85, -6211), (0x1C86, -6204), (0x1C87, -6180),
  (0x1C88, 35267), (0x1E9B, -58),
  (0x1FBE, -7173)] ++
  [⟨0x13A0, 0x13F5, 1, 0⟩, ⟨0x13F8, 0x13FD, 1, -8⟩, ⟨0xAB70, 0xABBF, 1, -38864⟩] ++ lowerRuns

/-- The letters from `first` on, whose caseless forms are the letters of the text with an iota. -/
def withIota (first : Nat) (s : String) : List (Nat × String) :=
  s.toList.zipIdx.map fun p => (first + p.2, p.1.toString ++ "ι")

/-- Letters with a caseless form of several letters, such as the sharp s. -/
def foldingExpansions : List (Nat × String) :=
  withIota 0x1F80 "ἀἁἂἃἄἅἆἇἀἁἂἃἄἅἆἇἠἡἢἣἤἥἦἧἠἡἢἣἤἥἦἧὠὡὢὣὤὥὦὧὠὡὢὣὤὥὦὧ" ++ [
  (0xDF, "ss"), (0x130, "i̇"), (0x149, "ʼn"), (0x1F0, "ǰ"), (0x390, "ΐ"),
  (0x3B0, "ΰ"), (0x587, "եւ"),
  (0x1E96, "ẖ"), (0x1E97, "ẗ"), (0x1E98, "ẘ"), (0x1E99, "ẙ"), (0x1E9A, "aʾ"), (0x1E9E, "ss"),
  (0x1F50, "ὐ"), (0x1F52, "ὒ"), (0x1F54, "ὔ"), (0x1F56, "ὖ"), (0x1FB2, "ὰι"), (0x1FB3, "αι"),
  (0x1FB4, "άι"), (0x1FB6, "ᾶ"), (0x1FB7, "ᾶι"), (0x1FBC, "αι"), (0x1FC2, "ὴι"), (0x1FC3, "ηι"),
  (0x1FC4, "ήι"), (0x1FC6, "ῆ"), (0x1FC7, "ῆι"), (0x1FCC, "ηι"), (0x1FD2, "ῒ"), (0x1FD3, "ΐ"),
  (0x1FD6, "ῖ"), (0x1FD7, "ῗ"), (0x1FE2, "ῢ"), (0x1FE3, "ΰ"), (0x1FE4, "ῤ"), (0x1FE6, "ῦ"),
  (0x1FE7, "ῧ"), (0x1FF2, "ὼι"), (0x1FF3, "ωι"), (0x1FF4, "ώι"), (0x1FF6, "ῶ"), (0x1FF7, "ῶι"),
  (0x1FFC, "ωι"), (0xFB00, "ff"), (0xFB01, "fi"), (0xFB02, "fl"), (0xFB03, "ffi"), (0xFB04, "ffl"),
  (0xFB05, "st"), (0xFB06, "st"), (0xFB13, "մն"), (0xFB14, "մե"), (0xFB15, "մի"), (0xFB16, "վն"),
  (0xFB17, "մխ")]

def foldChar (c : Char) : List Char :=
  if c.toNat < 0x80 then [c.toLower]
  else match foldingExpansions.find? (·.1 == c.toNat) with
    | some (_, s) => s.toList
    | none => match partner c.toNat foldingRuns with
      | some n => [Char.ofNat n]
      | none => [c]

def fold (cs : List Char) : List Char := cs.flatMap foldChar

end SqlAnalysis.Text

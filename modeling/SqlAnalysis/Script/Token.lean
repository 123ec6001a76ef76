import SqlAnalysis.Source

/-!
Tokens of the tree notation. Blanks, commas and comments, which run from two hyphens to the end of
the line, separate tokens. Whatever follows a text that is no token is never read, so a bad text
ends the tokens and is reported when the reader comes to it.
-/

namespace SqlAnalysis.Script

inductive TokenKind where
  | eof
  | opening | closing
  | openList | closeList
  | openBrace | closeBrace
  | keyword | symbol | string | parameter | word
deriving Repr, DecidableEq, Inhabited

structure Token where
  kind : TokenKind
  text : String
  span : Span
deriving Repr, DecidableEq, Inhabited

inductive BadToken where
  | unterminatedString
  | emptyName
deriving Repr, DecidableEq

inductive Ending where
  | endOfText (pos : Nat)
  | bad (cause : BadToken) (span : Span)
deriving Repr, DecidableEq

instance : Inhabited Ending := ⟨.endOfText 0⟩

structure Tokens where
  tokens : List Token
  ending : Ending
deriving Repr, DecidableEq, Inhabited

def isSeparator (c : Char) : Bool := [' ', '\t', '\n', '\r', ','].contains c

def bracket? : Char → Option TokenKind
  | '(' => some .opening
  | ')' => some .closing
  | '[' => some .openList
  | ']' => some .closeList
  | '\x7b' => some .openBrace
  | '\x7d' => some .closeBrace
  | _ => none

def isWordChar (c : Char) : Bool := !(isSeparator c || (bracket? c).isSome || c == '\'')

/-- Leaves out separators and comments; gives the offset of what follows. -/
def skipBlanks (inComment : Bool) (pos : Nat) : List Char → Nat × List Char
  | [] => (pos, [])
  | '-' :: '-' :: cs => skipBlanks true (pos + 2) cs
  | c :: cs =>
    if inComment then skipBlanks (c ≠ '\n') (pos + c.utf8Size) cs
    else if isSeparator c then skipBlanks false (pos + c.utf8Size) cs
    else (pos, c :: cs)

/-- The text up to the closing quote, a doubled quote standing for one, then the offset and text
after the closing quote. -/
def scanString (pos : Nat) : List Char → Option (List Char × Nat × List Char)
  | [] => none
  | '\'' :: '\'' :: cs => (scanString (pos + 2) cs).map fun (text, r) => ('\'' :: text, r)
  | '\'' :: cs => some ([], pos + 1, cs)
  | c :: cs => (scanString (pos + c.utf8Size) cs).map fun (text, r) => (c :: text, r)

/-- The result of scanning one token: the token with the offset and text after it, or what ends the
tokens. -/
abbrev Scanned := Except Ending (Token × Nat × List Char)

def scanWord (kind : TokenKind) (start pos : Nat) (cs : List Char) : Token × Nat × List Char :=
  let word := cs.takeWhile isWordChar
  let stop := pos + Text.byteLength word
  ({ kind, text := String.ofList word, span := ⟨start, stop⟩ }, stop, cs.dropWhile isWordChar)

def scanToken (pos : Nat) : List Char → Scanned
  | [] => .error (.endOfText pos)
  | c :: cs =>
    match bracket? c with
    | some kind => .ok ({ kind, text := String.singleton c, span := ⟨pos, pos + 1⟩ }, pos + 1, cs)
    | none =>
      if c = '\'' then
        match scanString (pos + 1) cs with
        | some (text, stop, rest) =>
          .ok ({ kind := .string, text := String.ofList text, span := ⟨pos, stop⟩ }, stop, rest)
        | none => .error (.bad .unterminatedString ⟨pos, pos + 1 + Text.byteLength cs⟩)
      else if c = '?' then
        .ok ({ kind := .parameter, text := "?", span := ⟨pos, pos + 1⟩ }, pos + 1, cs)
      else if c = ':' ∨ c = '#' then
        match cs.takeWhile isWordChar with
        | [] => .error (.bad .emptyName ⟨pos, pos + 1⟩)
        | _ => .ok (scanWord (if c = ':' then .keyword else .symbol) pos (pos + 1) cs)
      else .ok (scanWord .word pos pos (c :: cs))

def scanUpTo : (most : Nat) → (pos : Nat) → List Char → Tokens
  | 0, pos, _ => { tokens := [], ending := .endOfText pos }
  | most + 1, pos, cs =>
    let (pos, cs) := skipBlanks false pos cs
    match scanToken pos cs with
    | .error ending => { tokens := [], ending }
    | .ok (token, pos, cs) =>
      let rest := scanUpTo most pos cs
      { rest with tokens := token :: rest.tokens }

/-- The tokens of a text. A text has no more tokens than characters. -/
def scan (text : String) : Tokens := scanUpTo (text.toList.length + 1) 0 text.toList

end SqlAnalysis.Script

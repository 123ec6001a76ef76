import SqlAnalysis.Script.Error
import SqlAnalysis.Tree.Traversal

/-!
Reading the tree notation, for example

    (SELECT :list [ENAME (AS (+ SAL 1) BONUS)] :from EMP :where (> SAL 1000))

A call is written in parentheses, a list in brackets, `#NAME` is a symbol, `?` a parameter and `_`
an absent operand. A name of several words has underscores between them. Constants with a type and
other decorated nodes stand in braces: `DATE`, `TIME`, `TIMESTAMP`, `BINARY` and `INTERVAL`
constants, `QUALIFIER`, `TYPE`, `CHARSET` and `COLLATE`. Names of operators are bound while reading;
a name that the registry does not know becomes a function that is bound later.
-/

namespace SqlAnalysis.Script

structure ReadState where
  rest : List Token
  ending : Ending
  seen : Nat := 0
  parameters : Nat := 0
  tree : Tree := {}

abbrev ReadM := StateT ReadState (Except Error)

def failAt {α : Type} (tok : Token) (cause : Cause) : ReadM α :=
  throw { cause, span := some ⟨tok.span.first, max tok.span.last (tok.span.first + 1)⟩ }

def peek : ReadM Token := do
  let s ← get
  match s.rest with
  | tok :: _ =>
    set { s with seen := tok.span.last }
    return tok
  | [] =>
    match s.ending with
    | .endOfText pos =>
      set { s with seen := pos }
      return { kind := .eof, text := "", span := ⟨pos, pos⟩ }
    | .bad cause span => throw { cause := .bad cause, span := some span }

def next : ReadM Token := do
  let tok ← peek
  modify fun s => { s with rest := s.rest.tail }
  return tok

def addNode (form : Form) (span : Span) : ReadM NodeId :=
  modifyGet fun s =>
    let (id, tree) := s.tree.add { form, span := some span }
    (id, { s with tree })

/-! ### Words -/

/-- Digits with an optional point among them, or after or before them. -/
def isMantissa (cs : List Char) : Bool :=
  let whole := cs.takeWhile Number.isDigit
  match cs.dropWhile Number.isDigit with
  | [] => !whole.isEmpty
  | '.' :: places => places.all Number.isDigit && !(whole.isEmpty && places.isEmpty)
  | _ => false

def dropSign : List Char → List Char
  | '+' :: cs => cs
  | '-' :: cs => cs
  | cs => cs

def isNumber (s : String) : Bool :=
  let cs := dropSign s.toList
  let mantissa := cs.takeWhile (!Decimal.isExponentMark ·)
  isMantissa mantissa &&
    match cs.dropWhile (!Decimal.isExponentMark ·) with
    | [] => true
    | _ :: exponent =>
      let ds := dropSign exponent
      !ds.isEmpty && ds.all Number.isDigit

def readNumber (tok : Token) : ReadM Literal := do
  match Decimal.parse? tok.text.toList with
  | none => failAt tok (.malformedNumber tok.text)
  | some d => return if tok.text.toList.any Decimal.isExponentMark then .approximate d else .exact d

def readWord (tok : Token) : ReadM Link := do
  let constant (l : Literal) : ReadM Link := some <$> addNode (.literal l) tok.span
  match tok.text with
  | "_" => return none
  | "null" => constant .null
  | "true" => constant (.boolean .true)
  | "false" => constant (.boolean .false)
  | "unknown" => constant (.boolean .unknown)
  | text =>
    if isNumber text then
      constant (← readNumber tok)
    else
      let names := Text.split '.' text
      if names.contains "" then failAt tok (.malformedIdentifier text)
      some <$> addNode (.identifier { names }) tok.span

/-! ### Calls -/

/-- The forms in which a call with that many operands is looked for, in order. -/
def preferredForms : Nat → List CallForm
  | 1 => [.prefixed, .postfixed, .function, .special]
  | 2 => [.binary, .special, .function]
  | _ => [.special, .function, .functionId]

/-- The overload for `n` operands: the first that allows them, in the order of the preferred forms,
else the first in a preferred form, else the first of all. -/
def chooseOverload (candidates : List Operator) (n : Nat) : Option Operator :=
  let ordered := (preferredForms n).flatMap fun f => candidates.filter fun o => o.form == f
  match ordered.find? (fun o => o.arity.allows n || !o.slots.isEmpty) with
  | some o => some o
  | none => (ordered ++ candidates).head?

variable (ops : Registry)

/-- The operator that a call with `n` operands in place names; `slotted` if it has named operands
too. -/
def bindOperator (head : Token) (n : Nat) (slotted : Bool) : ReadM Operator := do
  let (name, candidates) :=
    match ops.overloads head.text with
    | [] =>
      let spaced := Text.replaceChar '_' ' ' head.text
      (spaced, ops.overloads spaced)
    | candidates => (head.text, candidates)
  if candidates.isEmpty then
    if slotted then failAt head (.unknownOperator head.text)
    return Operator.unresolved head.text head.span.first
  if slotted then
    match candidates.find? (fun o => !o.slots.isEmpty) with
    | some o => return o
    | none => failAt head (.noNamedOperands name)
  match chooseOverload candidates n with
  | some o => return o
  | none => failAt head (.unknownOperator head.text)

structure NamedOperand where
  keyword : Token
  name : String
  value : Link

structure Operands where
  placed : List Link := []
  named : List NamedOperand := []

/-- Puts the named operands at their places, over what stands there. -/
def fillSlots (op : Operator) : List NamedOperand → List Link → ReadM (List Link)
  | [], out => return out
  | operand :: named, out => do
    match op.slot? operand.name with
    | none => failAt operand.keyword (.noOperand op.name operand.name)
    | some k => fillSlots op named (out.set k operand.value)

def placeOperands (op : Operator) (operands : Operands) : ReadM (List Link) := do
  let padded := operands.placed ++ List.replicate (op.slots.length - operands.placed.length) none
  if operands.named.isEmpty then return padded
  if operands.placed.length > op.slots.length then
    throw { cause := .tooManyOperands op.name op.slots.length, span := none }
  fillSlots op operands.named padded

def readOperands (readExpr : Token → ReadM Link) :
    Nat → Operands → ReadM (Operands × Token)
  | 0, _ => do failAt (← peek) .unexpectedEnd
  | fuel + 1, operands => do
    let tok ← next
    match tok.kind with
    | .closing => return (operands, tok)
    | .keyword =>
      let value ← readExpr (← next)
      let name := Text.lower tok.text
      if operands.named.any (fun o => o.name == name) then failAt tok (.duplicateOperand name)
      readOperands readExpr fuel
        { operands with named := operands.named ++ [{ keyword := tok, name, value }] }
    | _ =>
      let value ← readExpr tok
      readOperands readExpr fuel { operands with placed := operands.placed ++ [value] }

def readCall (readExpr : Token → ReadM Link) (start : Token) :
    ReadM Link := do
  let head ← next
  if head.kind ≠ .word then failAt head .operatorNameExpected
  let (operands, stop) ← readOperands readExpr ((← get).rest.length + 1) {}
  let op ← bindOperator ops head operands.placed.length (!operands.named.isEmpty)
  let placed ← placeOperands op operands
  some <$> addNode (.call { operator := op, operands := placed }) ⟨start.span.first, stop.span.last⟩

/-! ### Lists -/

def readItems (readExpr : Token → ReadM Link) :
    Nat → List Link → ReadM (List Link × Token)
  | 0, _ => do failAt (← peek) .unexpectedEnd
  | fuel + 1, items => do
    let tok ← next
    match tok.kind with
    | .closeList => return (items, tok)
    | _ =>
      let item ← readExpr tok
      readItems readExpr fuel (items ++ [item])

def readList (readExpr : Token → ReadM Link) (start : Token) : ReadM Link := do
  let (items, stop) ← readItems readExpr ((← get).rest.length + 1) []
  some <$> addNode (.list items) ⟨start.span.first, stop.span.last⟩

/-! ### Forms in braces -/

def readString : ReadM Token := do
  let tok ← next
  if tok.kind ≠ .string then failAt tok .stringExpected
  return tok

def fractionLength (text : String) : Nat :=
  if text.toList.contains '.' then Text.byteLength (text.toList.reverse.takeWhile (· ≠ '.')) else 0

variable (start : Token)

def readDatetime (kind : String) : ReadM Link := do
  let tok ← readString
  let cs := tok.text.toList
  let places := fractionLength tok.text
  let literal? : Option Literal :=
    if kind = "TIME" then (Moment.parseTime? cs).map (.time · places)
    else if kind = "TIMESTAMP" then (Moment.parseDate? cs).map (.timestamp · places)
    else (Moment.parseDate? cs).map .date
  match literal? with
  | none => failAt tok (.malformedLiteral kind tok.text)
  | some l => some <$> addNode (.literal l) ⟨start.span.first, tok.span.last + 1⟩

def hexValue? (c : Char) : Option Nat :=
  if '0' ≤ c ∧ c ≤ '9' then some (c.toNat - 48)
  else if 'a' ≤ c ∧ c ≤ 'f' then some (c.toNat - 87)
  else if 'A' ≤ c ∧ c ≤ 'F' then some (c.toNat - 55)
  else none

def readBytes? : List Char → Option (List Nat)
  | [] => some []
  | a :: b :: cs => do
    let high ← hexValue? a
    let low ← hexValue? b
    let rest ← readBytes? cs
    return (16 * high + low) :: rest
  | [_] => none

def readBinary : ReadM Link := do
  let tok ← readString
  match readBytes? tok.text.toList with
  | none => failAt tok (.malformedLiteral "binary" tok.text)
  | some bytes => some <$> addNode (.literal (.binary bytes)) ⟨start.span.first, tok.span.last + 1⟩

def readUnit : ReadM TimeUnit := do
  let tok ← next
  match tok.kind, TimeUnit.ofText? tok.text with
  | .word, some u => return u
  | _, _ => failAt tok .unitExpected

def readQualifier : ReadM Qualifier := do
  let first ← readUnit
  let tok ← peek
  if tok.kind = .word ∧ Text.sameLetters tok.text "TO" then
    let _ ← next
    let last ← readUnit
    let q : Qualifier := { first, last }
    if last.rank < first.rank ∨ q.isYearMonth ≠ decide (last.rank ≤ TimeUnit.month.rank) then
      failAt tok (.invalidQualifier first last)
    return q
  else return { first, last := first }

def intervalValue? (q : Qualifier) (text : String) : Option IntervalValue := do
  let cs := Text.trimChars text.toList
  let (negative, cs) := match cs with
    | '-' :: cs => (true, cs)
    | cs => (false, cs)
  let fields := (Text.runsOf Number.isDigit cs).map fun ds => (Number.ofDigits ds : Int)
  if fields.isEmpty || fields.any (!Number.fits 64 ·) ||
      fields.length > q.last.rank - q.first.rank + 2 then none
  return { negative, fields, qualifier := q }

def readInterval : ReadM Link := do
  let tok ← readString
  let q ← readQualifier
  match intervalValue? q tok.text with
  | none => failAt tok (.malformedLiteral "interval" tok.text)
  | some v => some <$> addNode (.literal (.interval v)) ⟨start.span.first, (← get).seen⟩

/-- Reads words of a type up to the first other token: names, precision, scale and character set. -/
def readTypeWords : Nat → TypeSpec → ReadM TypeSpec
  | 0, spec => return spec
  | fuel + 1, spec => do
    let tok ← peek
    if tok.kind ≠ .word then return spec
    let _ ← next
    if Text.sameLetters tok.text "CHARSET" then
      let charset ← next
      readTypeWords fuel { spec with charset := charset.text }
    else if isNumber tok.text then
      match (Number.readInt? tok.text.toList).filter (Number.fits 64) with
      | none => failAt tok (.malformedPrecision tok.text)
      | some n =>
        if spec.precision = ScalarName.noPrecision then
          readTypeWords fuel { spec with precision := n }
        else readTypeWords fuel { spec with scale := n }
    else readTypeWords fuel { spec with names := spec.names ++ [tok.text] }

def readTypeSpec : ReadM Link := do
  let spec ← readTypeWords ((← get).rest.length + 1) { names := [] }
  if spec.names.isEmpty then failAt start .typeNameExpected
  some <$> addNode (.typeSpec spec) ⟨start.span.first, (← get).seen⟩

def readCharset : ReadM Link := do
  let tok ← readString
  let name ← next
  match Charset.canonical name.text with
  | .error e => failAt name (.collation e)
  | .ok charset =>
    some <$> addNode (.literal (.char { value := tok.text, charset }))
      ⟨start.span.first, name.span.last + 1⟩

/-- The node with the collation on it: a new one, since nodes do not change. -/
def collated? (form : Option Form) (c : Collation) : Option Form :=
  match form with
  | some (.literal (.char v)) =>
    some (.literal (.char
      { v with collation := some c, charset := if v.charset = "" then c.charset else v.charset }))
  | some (.identifier i) => some (.identifier { i with collation := some c })
  | _ => none

def readCollate (readExpr : Token → ReadM Link) (start : Token) : ReadM Link := do
  let tok ← next
  let operand ← readExpr tok
  let name ← next
  match Collation.ofName name.text .explicit with
  | .error e => failAt name (.collation e)
  | .ok c =>
    match collated? ((← get).tree.form? operand) c with
    | none => failAt tok .notCollatable
    | some form => some <$> addNode form ⟨start.span.first, name.span.last + 1⟩

def readNamed (readExpr : Token → ReadM Link) (start head : Token) : ReadM Link := do
  match Text.upper head.text with
  | "DATE" => readDatetime start "DATE"
  | "TIME" => readDatetime start "TIME"
  | "TIMESTAMP" => readDatetime start "TIMESTAMP"
  | "BINARY" => readBinary start
  | "INTERVAL" => readInterval start
  | "QUALIFIER" =>
    let q ← readQualifier
    some <$> addNode (.qualifier q) ⟨start.span.first, (← get).seen⟩
  | "TYPE" => readTypeSpec start
  | "CHARSET" => readCharset start
  | "COLLATE" => readCollate readExpr start
  | _ => failAt head (.unknownForm head.text)

def readForm (readExpr : Token → ReadM Link) (start : Token) : ReadM Link := do
  let head ← next
  let id ← readNamed readExpr start head
  let tok ← next
  if tok.kind ≠ .closeBrace then failAt tok .closeBraceExpected
  return id

/-! ### Statements -/

/-- Reads the expression that starts with a token; expressions nest no deeper than `depth`. -/
def readExpr (ops : Registry) : Nat → Token → ReadM Link
  | 0, tok => failAt tok .unexpectedEnd
  | depth + 1, tok => do
    match tok.kind with
    | .opening => readCall ops (readExpr ops depth) tok
    | .openList => readList (readExpr ops depth) tok
    | .openBrace => readForm (readExpr ops depth) tok
    | .string => some <$> addNode (.literal (.char { value := tok.text })) tok.span
    | .symbol => some <$> addNode (.literal (.symbol (Text.upper tok.text))) tok.span
    | .parameter =>
      let k := (← get).parameters
      modify fun s => { s with parameters := k + 1 }
      some <$> addNode (.parameter k) tok.span
    | .word => readWord tok
    | .eof => failAt tok .unexpectedEnd
    | _ => failAt tok (.unexpected tok.text)

def readStatement : ReadM Link := do
  let depth := (← get).rest.length + 1
  let tok ← next
  if tok.kind = .eof then failAt tok .emptyStatement
  let root ← readExpr ops depth tok
  let tok ← next
  if tok.kind ≠ .eof then failAt tok (.trailing tok.text)
  return root

def parse (text : String) : Except Error Statement := do
  let tokens := scan text
  let (root, s) ← (readStatement ops).run { rest := tokens.tokens, ending := tokens.ending }
  return { tree := s.tree, root }

end SqlAnalysis.Script

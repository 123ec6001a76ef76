import SqlAnalysis.Yaml.Basic

/-!
Values from documents. What a mapping says is laid over a record, entry by entry; an entry of the
wrong type is noted and leaves the record as it is, so that all such entries are found.
-/

namespace SqlAnalysis.Yaml

structure Site where
  document : YamlDocument
  isReferred : Bool := false

structure Progress where
  mismatches : List YamlMismatch := []
  /-- How many parts were read, the document itself among them. -/
  parts : Nat := 1
  /-- How many of them were read through a reference. -/
  referred : Nat := 0

/-- Whether nearly all that was read is repetition by references. Of many parts a smaller share may
be: up to 400,000 parts 99 in 100, from 4,000,000 on 10 in 100, and between them a share that falls
evenly. -/
def Progress.isExcessive (p : Progress) : Bool :=
  let few := 400000
  let many := 4000000
  p.referred > 100 && p.parts > 1000 &&
    if p.parts ≤ few then p.referred * 100 > p.parts * 99
    else if p.parts ≥ many then p.referred * 100 > p.parts * 10
    else p.referred * 100 * (many - few) > p.parts * (99 * (many - few) - 89 * (p.parts - few))

/-- Taking values from a document, noting what is not as asked for. -/
abbrev Decode := ReaderT Site (StateT Progress (Except YamlError))

/-- Takes a value from a part of a document. A part that says nothing, or not what is asked for, has
none. -/
abbrev Decoder (α : Type) := Yaml → Decode (Option α)

def note (m : YamlMismatch) : Decode Unit :=
  modify fun p => { p with mismatches := p.mismatches ++ [m] }

def countPart : Decode Unit := do
  let isReferred := (← read).isReferred
  modify fun p => { p with parts := p.parts + 1, referred := p.referred + isReferred.toNat }
  if (← get).isExcessive then throw .excessiveReferences

/-- Reads a part by `k`; for a reference that is the part it stands for. -/
def follow {α : Type} (y : Yaml) (k : Yaml → Decode α) : Decode α := do
  countPart
  match y with
  | .reference line _ place _ =>
    let referred := ((← read).document.anchored.lookup place).getD (empty line)
    withReader (fun site => { site with isReferred := true }) do
      countPart
      k referred
  | y => k y

/-! ### Keys -/

/-- Whether two keys are spelled alike. Collections as keys are not told apart. -/
def sameKey : Yaml → Yaml → Bool
  | .scalar _ _ a, .scalar _ _ b => a == b
  | .sequence .., .sequence .. => true
  | .mapping .., .mapping .. => true
  | .reference _ _ _ a, .reference _ _ _ b => a == b
  | _, _ => false

def keyText : Yaml → String
  | .scalar _ _ text => text
  | .reference _ _ _ anchor => anchor
  | _ => ""

/-- What is wrong with entries that have the same key as an earlier one, by the earlier ones. -/
def repeatedKeys : List (Yaml × Yaml) → List YamlMismatch
  | [] => []
  | (key, _) :: rest =>
    ((rest.filter fun e => sameKey key e.1).map fun e =>
      .repeatedKey e.1.line (keyText e.1) key.line) ++ repeatedKeys rest

def distinctKeys (entries : List (Yaml × Yaml)) : Decode Bool := do
  let repeated := repeatedKeys entries
  repeated.forM note
  return repeated.isEmpty

/-! ### Single values -/

def mismatch {α : Type} (wanted : String) : Yaml → Decode (Option α)
  | .scalar line tag text => do
    note (.wrongType line tag text wanted)
    return none
  | .sequence line tag _ | .mapping line tag _ => do
    note (.wrongType line tag "" wanted)
    return none
  | .reference .. => return none

/-- The value of a scalar by its meaning; any other part has none. -/
def scalarValue {α : Type} (wanted : String) (value : String → Meaning → Option α) : Decoder α :=
  fun y => do
  match y with
  | .scalar line tag text =>
    match ← meaning tag text with
    | .nothing => return none
    | m => match value text m with
      | some a => return some a
      | none => mismatch wanted (.scalar line tag text)
  | .mapping line tag entries =>
    if ← distinctKeys entries then mismatch wanted (.mapping line tag entries) else return none
  | y => mismatch wanted y

def byMeaning {α : Type} (wanted : String) (value : String → Meaning → Option α) : Decoder α :=
  fun y =>
  follow y (scalarValue wanted value)

def string : Decoder String := byMeaning "string" fun written m =>
  match m with
  | .text value => some value
  | _ => some written

def int : Decoder Int := byMeaning "int" fun _ m =>
  match m with
  | .number n => n.toInt?
  | _ => none

def bool : Decoder Bool := byMeaning "bool" fun _ m =>
  match m with
  | .truth value => some value
  | .text value =>
    if ["y", "Y", "yes", "on"].contains value then some true
    else if ["n", "N", "no", "off"].contains value then some false
    else none
  | _ => none

/-! ### Lists -/

def items {α : Type} (item : Decoder α) : List Yaml → Decode (List α)
  | [] => return []
  | y :: ys => do
    let a ← item y
    let as ← items item ys
    return a.toList ++ as

def list {α : Type} (type : String) (item : Decoder α) : Decoder (List α) := fun y => follow y fun
  | .sequence _ _ ys => some <$> items item ys
  | y => scalarValue ("[]" ++ type) (fun _ _ => none) y

/-! ### Records -/

/-- How the entries of a mapping are laid over a record. -/
structure Shape (α : Type) where
  type : String
  /-- Whether there may be no other entries than the fields. -/
  closed : Bool := false
  /-- Lays the value of the field of this name over a record, if there is such a field. -/
  field? : String → Option (Yaml → α → Decode α)

def field {α β : Type} (decode : Decoder β) (put : α → β → α) : Option (Yaml → α → Decode α) :=
  some fun y a => do
    match ← decode y with
    | some b => return put a b
    | none => return a

/-- A record that entries are laid over, the names of the entries, and the fields that the present
mapping has set. -/
structure Laying (α : Type) where
  value : α
  names : List String := []
  fields : List String := []

def isMerge : Yaml → Bool
  | .scalar _ tag text => text == "<<" && tag == mergeTag
  | _ => false

namespace Shape

/-- Lays one entry over a record. A name that is taken from another mapping is new. -/
def layEntry (s : Shape α) (taken : Bool) (l : Laying α) (entry : Yaml × Yaml) :
    Decode (Laying α) := do
  if isMerge entry.1 then return l
  let some name ← string entry.1 | return l
  if taken && l.names.contains name then return l
  let l := { l with names := name :: l.names }
  match s.field? name with
  | none =>
    if s.closed then note (.unknownField entry.1.line name s.type)
    return l
  | some lay =>
    if l.fields.contains name then
      note (.repeatedField entry.1.line name s.type)
      return l
    return { l with value := ← lay entry.2 l.value, fields := name :: l.fields }

mutual
/-- Lays entries over a record and then those that are taken from other mappings. The references in
`followed` are being followed. -/
def layEntries (s : Shape α) (taken : Bool) (entries : List (Yaml × Yaml)) (followed : List Nat) :
    Nat → Laying α → Decode (Laying α)
  | 0, l => return l
  | fuel + 1, l => do
    let l ← entries.foldlM (s.layEntry taken) { l with fields := [] }
    match (entries.filter fun e => isMerge e.1).getLast? with
    | none => return l
    | some (_, source) =>
      if !taken then entries.forM fun e => follow e.1 fun _ => pure ()
      match source with
      | .sequence _ _ sources => s.layAll sources followed fuel l
      | source => s.layTaken source followed fuel l

def layAll (s : Shape α) (sources : List Yaml) (followed : List Nat) :
    Nat → Laying α → Decode (Laying α)
  | 0, l => return l
  | fuel + 1, l =>
    match sources with
    | [] => return l
    | source :: rest => do
      let l ← s.layTaken source followed fuel l
      s.layAll rest followed fuel l

def layTaken (s : Shape α) (source : Yaml) (followed : List Nat) :
    Nat → Laying α → Decode (Laying α)
  | 0, l => return l
  | fuel + 1, l => do
    let followed' ← match source with
      | .reference _ number _ anchor =>
        if followed.contains number then throw (.endlessAnchor anchor)
        else pure (number :: followed)
      | _ => pure followed
    follow source fun
      | .mapping _ _ entries => do
        if ← distinctKeys entries then s.layEntries true entries followed' fuel l else return l
      | _ => throw .badMerge
end

def record (s : Shape α) (base : α) : Decoder α := fun y => follow y fun
  | .mapping _ _ entries => do
    if ← distinctKeys entries then
      return some (← s.layEntries false entries [] (← read).document.depth { value := base }).value
    else return none
  | y => scalarValue s.type (fun _ _ => none) y

/-- The record with what a document says laid over `base`. -/
def decodeOver (s : Shape α) (base : α) (d : YamlDocument) : Except YamlError α := do
  let (value, p) ← ((s.record base d.root).run { document := d }).run {}
  if p.mismatches.isEmpty then return value.getD base else throw (.mismatches p.mismatches)

end Shape

end SqlAnalysis.Yaml

import SqlAnalysis.Catalog.Basic
import SqlAnalysis.Catalog.Cache

/-!
Looking things up in a catalog that may fail, with a cache in front of it. The cache holds a limited
number of answers, absences included, and never a failure.
-/

namespace SqlAnalysis

structure CatalogFailure where
  message : String
deriving Repr, DecidableEq

structure CatalogReader where
  table : List String → Except CatalogFailure (Option Relation)
  type : List String → Except CatalogFailure (Option SqlType)
  objects : List String → Except CatalogFailure (List String)

namespace CatalogReader

def empty : CatalogReader where
  table _ := .ok none
  type _ := .ok none
  objects _ := .ok []

instance : Inhabited CatalogReader := ⟨empty⟩

def ofCatalog (c : Catalog) : CatalogReader where
  table names := .ok (c.table? names)
  type names := .ok (c.type? names)
  objects path := .ok (c.objects path)

end CatalogReader

/-- What a catalog needs of a cache for its answers. -/
class AnswerCache (C : Type → Type) where
  get? {α : Type} : C α → String → Option α
  /-- An answer that was found is used again. -/
  keep {α : Type} : C α → String → α → C α
  insert {α : Type} : C α → String → α → C α
  clear {α : Type} : C α → C α

instance : AnswerCache Cache := ⟨Cache.get?, Cache.keepOften, Cache.insert, Cache.clear⟩

structure CatalogUseOf (C : Type → Type) where
  tables : Option (C (Option Relation)) := none
  types : Option (C (Option SqlType)) := none
  tableReads : Nat := 0
  typeReads : Nat := 0

abbrev CatalogUse : Type := CatalogUseOf Cache

namespace CatalogUse

instance : Inhabited CatalogUse := ⟨{}⟩

def direct : CatalogUse := {}

def cached (size : Nat) : CatalogUse :=
  { tables := some { capacity := size }, types := some { capacity := size } }

def sizeMessage : String := "must provide a positive size"

def ofSize (size : Int) : Except String CatalogUse :=
  if size ≤ 0 then .error sizeMessage else .ok (cached size.toNat)

end CatalogUse

namespace CatalogUseOf

open AnswerCache

variable [AnswerCache C]

def purge (u : CatalogUseOf C) : CatalogUseOf C :=
  { u with
    tables := u.tables.map clear
    types := u.types.map clear }

def cacheKey (names : List String) : String := Text.join "\x00" names

/-- Looks a name up in what is remembered, else by `ask`; answers are remembered and failures are
not. Also tells whether `ask` was used. -/
def remember {α : Type} (remembered : Option (C α)) (names : List String)
    (ask : List String → Except CatalogFailure α) :
    Except CatalogFailure α × Option (C α) × Bool :=
  match remembered.bind (get? · (cacheKey names)) with
  | some a => (.ok a, remembered.map (keep · (cacheKey names) a), false)
  | none =>
    match ask names with
    | .error e => (.error e, remembered, true)
    | .ok a => (.ok a, remembered.map (insert · (cacheKey names) a), true)

def table (r : CatalogReader) (names : List String) (u : CatalogUseOf C) :
    Except CatalogFailure (Option Relation) × CatalogUseOf C :=
  let (answer, tables, asked) := remember u.tables names r.table
  (answer, { u with tables, tableReads := u.tableReads + asked.toNat })

def type (r : CatalogReader) (names : List String) (u : CatalogUseOf C) :
    Except CatalogFailure (Option SqlType) × CatalogUseOf C :=
  let (answer, types, asked) := remember u.types names r.type
  (answer, { u with types, typeReads := u.typeReads + asked.toNat })

end CatalogUseOf

end SqlAnalysis

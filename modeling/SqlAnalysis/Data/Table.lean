/-!
Finite maps as lists of entries. A key keeps the place at which it was first written, so the entries
are also the record of the order in which keys appeared. `get?_insert` is the one fact that readers
of a table need.
-/

namespace SqlAnalysis

/-- A finite map kept as its entries, oldest key first. -/
structure Table (κ : Type u) (α : Type v) where
  entries : List (κ × α) := []
deriving Repr

namespace Table

variable [DecidableEq κ]

instance : Inhabited (Table κ α) := ⟨{}⟩

def find (k : κ) : List (κ × α) → Option α
  | [] => none
  | (k', v) :: rest => if k' = k then some v else find k rest

/-- Replaces the value of the first entry with key `k`, or adds an entry at the end. -/
def write (k : κ) (v : α) : List (κ × α) → List (κ × α)
  | [] => [(k, v)]
  | (k', v') :: rest => if k' = k then (k', v) :: rest else (k', v') :: write k v rest

variable (t : Table κ α)

def get? (k : κ) : Option α := find k t.entries

def contains (k : κ) : Bool := (t.get? k).isSome

def insert (k : κ) (v : α) : Table κ α := ⟨write k v t.entries⟩

/-- Writes `v` only where the table has no value for `k` yet. -/
def insertNew (k : κ) (v : α) : Table κ α :=
  if t.contains k then t else t.insert k v

omit [DecidableEq κ] in
def keys : List κ := t.entries.map Prod.fst

theorem find_write (k k' : κ) (v : α) (es : List (κ × α)) :
    find k' (write k v es) = if k = k' then some v else find k' es := by
  induction es with
  | nil => simp [write, find]
  | cons e es ih =>
    obtain ⟨k₀, v₀⟩ := e
    by_cases h : k₀ = k
    · subst h
      simp only [write, if_true, find]
      split <;> simp_all
    · simp only [write, if_neg h, find, ih]
      by_cases hk : k = k'
      · subst hk
        simp [h]
      · simp [hk]

theorem get?_insert (k k' : κ) (v : α) :
    (t.insert k v).get? k' = if k = k' then some v else t.get? k' :=
  find_write k k' v t.entries

end Table

end SqlAnalysis

import SqlAnalysis.Analysis.Constant

/-!
Type tables over time. Types are built by steps that only add to the table, and a step that has been
taken gives the same type in every later table: `Steady` says both, and it is kept by all ways of
putting steps together.
-/

namespace SqlAnalysis

namespace TypeTable

variable {T : TypeTable}

def Keyed (T : TypeTable) : Prop := ∀ k t, T.get? k = some t → t.key = k

/-- The table `U` is a later one than `T`. -/
structure Extends (T U : TypeTable) : Prop where
  kept : ∀ k t, T.get? k = some t → U.get? k = some t
  keyed : T.Keyed → U.Keyed

theorem Extends.refl (T : TypeTable) : T.Extends T := ⟨fun _ _ h => h, id⟩

theorem Extends.trans (h : T.Extends U) (h' : U.Extends V) : T.Extends V :=
  ⟨fun k t ht => h'.kept k t (h.kept k t ht), h'.keyed ∘ h.keyed⟩

theorem keyed_empty : Keyed {} := nofun

end TypeTable

/-- The step only adds to the table, and from then on gives what it gave. -/
def TypeM.Steady {α : Type} (x : TypeM α) : Prop :=
  ∀ T : TypeTable, T.Extends (x T).2 ∧ ∀ U, (x T).2.Extends U → x U = ((x T).1, U)

namespace TypeM.Steady

@[grind .] theorem pure (v : α) : Steady (pure v) := fun T => ⟨.refl T, fun _ _ => rfl⟩

@[grind ←] theorem bind (hx : Steady x) (hf : ∀ v, Steady (f v)) : Steady (x >>= f) := by
  intro T
  obtain ⟨hT, hagain⟩ := hx T
  obtain ⟨hT', hagain'⟩ := hf (x T).1 (x T).2
  refine ⟨hT.trans hT', fun U hU => ?_⟩
  have hrun (V : TypeTable) : (x >>= f) V = f (x V).1 (x V).2 := rfl
  rw [hrun, hagain U (hT'.trans hU), hagain' U hU]
  rfl

@[grind ←] theorem map (f : α → β) (hx : Steady x) : Steady (f <$> x) := hx.bind fun v => pure (f v)

theorem mapM {l : List α} (hf : ∀ x, Steady (f x)) : Steady (l.mapM f) := by
  induction l with
  | nil => exact pure []
  | cons x l ih =>
    rw [List.mapM_cons]
    exact (hf x).bind fun _ => ih.bind fun _ => pure _

end TypeM.Steady

namespace TypeTable

open TypeM

@[grind .] theorem intern_steady : Steady (intern t) := by
  intro T
  unfold intern
  cases h : T.get? t.key with
  | some kept =>
    refine ⟨.refl T, fun U hU => ?_⟩
    dsimp only
    rw [hU.kept _ _ h]
  | none =>
    have hget (k : TypeKey) : (T.insert t.key t).get? k = if t.key = k then some t else T.get? k :=
      T.get?_insert _ _ _
    refine ⟨⟨fun k u hk => ?_, fun hkeyed k u hk => ?_⟩, fun U hU => ?_⟩
    · rw [hget, if_neg]
      · exact hk
      · rintro rfl
        rw [h] at hk
        cases hk
    · rw [hget] at hk
      split at hk
      · rename_i heq
        exact Option.some.inj hk ▸ heq
      · exact hkeyed k u hk
    · dsimp only
      rw [hU.kept t.key t (by rw [hget, if_pos rfl])]

@[grind .] theorem decimal_steady : Steady (decimal precision scale) := intern_steady

@[grind .] theorem char_steady : Steady (char name precision collation) := intern_steady

@[grind .] theorem null_steady : Steady null := intern_steady

@[grind .] theorem interval_steady : Steady (interval q) := intern_steady

@[grind .] theorem row_steady : Steady (row fields) := intern_steady

@[grind .] theorem multiset_steady : Steady (multiset element) := intern_steady

@[grind .] theorem scalarOf_steady : Steady (scalarOf name precision) := by
  unfold scalarOf
  split <;> exact intern_steady

@[grind .] theorem ofNamePrecision_steady (name : TypeName) (precision : Int) :
    Steady (ofNamePrecision name precision) := by
  unfold ofNamePrecision
  split
  · exact scalarOf_steady
  all_goals first | exact intern_steady | exact .pure _

@[grind .] theorem scalar_steady : Steady (scalar name) := ofNamePrecision_steady _ _

mutual
@[grind .] theorem withNullable_steady (nullable : Bool) (t : SqlType) :
    Steady (withNullable nullable t) := by
  cases t with
  | row fs n =>
    rw [withNullable]
    exact (fieldsWithNullable_steady nullable fs).bind fun _ => intern_steady
  | _ => grind [withNullable]

theorem fieldsWithNullable_steady (nullable : Bool) (fs : List Field) :
    Steady (fieldsWithNullable nullable fs) := by
  cases fs with
  | nil => exact .pure _
  | cons f fs =>
    rw [fieldsWithNullable]
    exact (withNullable_steady nullable f.2).bind fun _ =>
      (fieldsWithNullable_steady nullable fs).bind fun _ => .pure _
end

@[grind .] theorem withCollation_steady : Steady (withCollation collation t) := by
  unfold withCollation
  split
  · split
    · exact intern_steady
    · exact .pure _
  · exact .pure _

@[grind .] theorem withPrecision_steady : Steady (withPrecision precision t) := by
  unfold withPrecision
  split
  · split
    · exact intern_steady
    · exact .pure _
  · exact .pure _

mutual
theorem adopt_steady (t : SqlType) : Steady (adopt t) := by
  cases t with
  | row fs n =>
    rw [adopt]
    exact (adoptFields_steady fs).bind fun _ => intern_steady
  | multiset e n =>
    rw [adopt]
    exact (adopt_steady e).bind fun _ => intern_steady
  | _ => grind [adopt]

theorem adoptFields_steady (fs : List Field) : Steady (adoptFields fs) := by
  cases fs with
  | nil => exact .pure _
  | cons f fs =>
    rw [adoptFields]
    exact (adopt_steady f.2).bind fun _ => (adoptFields_steady fs).bind fun _ => .pure _
end

/-! ### What all types of a table have in common -/

/-- A property that a type has if its parts have it, whether or not it admits the null value. -/
structure Hereditary (H : SqlType → Prop) : Prop where
  scalar : ∀ {s m} n, H (.scalar s m) → H (.scalar s n)
  interval : ∀ q n, H (.interval q n)
  null : H .null
  row : ∀ {fs n}, H (.row fs n) ↔ ∀ f ∈ fs, H f.2
  multiset : ∀ {e n}, H (.multiset e n) ↔ H e

/-- In a table of types in `H` the step builds types in `H` only, and gives something in `Q`. -/
def Forms {α : Type} (H : SqlType → Prop) (x : TypeM α) (Q : α → Prop) : Prop :=
  ∀ T : TypeTable, (∀ k t, T.get? k = some t → H t) →
    (∀ k t, (x T).2.get? k = some t → H t) ∧ Q (x T).1

section Forms

theorem Forms.pure (h : Q v) : Forms H (pure v) Q := fun _ hT => ⟨hT, h⟩

theorem Forms.bind (hx : Forms H x Q) (hf : ∀ v, Q v → Forms H (f v) R) : Forms H (x >>= f) R :=
  fun T hT => hf (x T).1 (hx T hT).2 (x T).2 (hx T hT).1

theorem intern_forms (h : H t) : Forms H (intern t) H := by
  intro T hT
  unfold intern
  cases hk : T.get? t.key with
  | some kept => exact ⟨hT, hT _ _ hk⟩
  | none =>
    refine ⟨fun k u hu => ?_, h⟩
    rw [Table.get?_insert] at hu
    split at hu
    · exact Option.some.inj hu ▸ h
    · exact hT k u hu

mutual
theorem withNullable_forms (hH : Hereditary H) (n : Bool) (t : SqlType) (h : H t) :
    Forms H (withNullable n t) H := by
  cases t with
  | row fs m =>
    rw [withNullable]
    exact (fieldsWithNullable_forms hH n fs (hH.row.mp h)).bind fun _ hgs =>
      intern_forms (hH.row.mpr hgs)
  | scalar s m =>
    rw [withNullable]
    split
    · exact .pure h
    · exact intern_forms (hH.scalar n h)
  | interval q m =>
    rw [withNullable]
    split
    · exact .pure h
    · exact intern_forms (hH.interval q n)
  | multiset e m =>
    rw [withNullable]
    split
    · exact .pure h
    · exact intern_forms (hH.multiset.mpr (hH.multiset.mp h))
  | null | unknown => exact .pure h

theorem fieldsWithNullable_forms (hH : Hereditary H) (n : Bool) (fs : List Field)
    (h : ∀ f ∈ fs, H f.2) : Forms H (fieldsWithNullable n fs) fun gs => ∀ g ∈ gs, H g.2 := by
  cases fs with
  | nil => exact .pure h
  | cons f fs =>
    obtain ⟨hf, hfs⟩ := List.forall_mem_cons.mp h
    rw [fieldsWithNullable]
    exact (withNullable_forms hH n f.2 hf).bind fun _ ht =>
      (fieldsWithNullable_forms hH n fs hfs).bind fun _ hgs =>
      .pure (List.forall_mem_cons.mpr ⟨ht, hgs⟩)
end

mutual
theorem adopt_forms (hH : Hereditary H) (t : SqlType) (h : H t) : Forms H (adopt t) H := by
  cases t with
  | row fs n =>
    rw [adopt]
    exact (adoptFields_forms hH fs (hH.row.mp h)).bind fun _ hgs => intern_forms (hH.row.mpr hgs)
  | multiset e n =>
    rw [adopt]
    exact (adopt_forms hH e (hH.multiset.mp h)).bind fun _ he => intern_forms (hH.multiset.mpr he)
  | unknown => exact .pure h
  | _ => exact intern_forms h

theorem adoptFields_forms (hH : Hereditary H) (fs : List Field) (h : ∀ f ∈ fs, H f.2) :
    Forms H (adoptFields fs) fun gs => ∀ g ∈ gs, H g.2 := by
  cases fs with
  | nil => exact .pure h
  | cons f fs =>
    obtain ⟨hf, hfs⟩ := List.forall_mem_cons.mp h
    rw [adoptFields]
    exact (adopt_forms hH f.2 hf).bind fun _ ht => (adoptFields_forms hH fs hfs).bind fun _ hgs =>
      .pure (List.forall_mem_cons.mpr ⟨ht, hgs⟩)
end

end Forms

/-! ### Common types -/

@[grind .] theorem leastNumeric_steady : Steady (leastNumeric first ts) := by
  grind [leastNumeric]

@[grind .] theorem leastString_steady : Steady (leastString member fixed varying first ts) := by
  grind [leastString]

@[grind .] theorem leastInterval_steady : Steady (leastInterval first out ts) := by
  induction ts generalizing out with
  | nil => exact .pure _
  | cons t ts ih => cases t <;> grind [leastInterval]

@[grind .] theorem leastSame_steady : Steady (leastSame name out ts) := by
  induction ts generalizing out with
  | nil => exact .pure _
  | cons t ts ih => grind [leastSame]

section Least

variable {least : List SqlType → TypeM (Option SqlType)} (h : ∀ ts, Steady (least ts))
include h

theorem leastColumns_steady (names : List String) (columns : List (List SqlType)) :
    Steady (leastColumns least names columns) := by
  induction names generalizing columns with
  | nil => exact .pure _
  | cons name names ih => cases columns <;> grind [leastColumns]

theorem leastKnown_steady (first : SqlType) (ts : List SqlType) :
    Steady (leastKnown least first ts) := by
  have hcolumns := leastColumns_steady h
  cases first <;> grind [leastKnown]

end Least

@[grind .] theorem leastRestrictive_steady : Steady (leastRestrictive ts) := by
  have hdepth (depth : Nat) (ts : List SqlType) : Steady (leastRestrictiveUpTo depth ts) := by
    induction depth generalizing ts with
    | zero => exact .pure _
    | succ depth ih =>
      have hknown := leastKnown_steady ih
      grind [leastRestrictiveUpTo]
  exact hdepth _ ts

end TypeTable

/-! ### Types of calls and constants -/

open TypeM TypeTable

namespace ReturnBase

@[grind .] theorem productType_steady : Steady (productType ts) := by
  unfold productType
  split
  · split
    · exact decimal_steady.map some
    · split
      · exact .pure _
      · split
        · exact .pure _
        · exact leastRestrictive_steady
  · exact leastRestrictive_steady

@[grind .] theorem quotientType_steady : Steady (quotientType ts) := by
  unfold quotientType
  split
  · split
    · exact decimal_steady.map some
    · split
      · exact .pure _
      · exact leastRestrictive_steady
  · exact leastRestrictive_steady

@[grind .] theorem concatenationOf_steady : Steady (concatenationOf op l r) := by
  unfold concatenationOf
  grind

@[grind .] theorem concatenationType_steady (op : String) (ts : List SqlType) :
    Steady (concatenationType op ts) := by
  unfold concatenationType
  grind

@[grind .] theorem typeOf_steady (base : ReturnBase) (op : String) (ts : List SqlType) :
    Steady (base.typeOf op ts) := by
  unfold typeOf
  cases base <;> grind

end ReturnBase

@[grind .] theorem ReturnAdjustment.apply_steady (ts : List SqlType) (a : ReturnAdjustment)
    (t : SqlType) : Steady (a.apply ts t) := by
  unfold ReturnAdjustment.apply
  cases a <;> grind

namespace ReturnRule

@[grind .] theorem adjust_steady (ts : List SqlType) (as : List ReturnAdjustment) (t : SqlType) :
    Steady (adjust ts as t) := by
  induction as generalizing t with
  | nil => exact .pure _
  | cons a as ih =>
    rw [adjust]
    exact (a.apply_steady ts t).bind ih

@[grind .] theorem typeOf_steady (r : ReturnRule) (op : String) (ts : List SqlType) :
    Steady (r.typeOf op ts) := by
  grind [typeOf]

end ReturnRule

@[grind .] theorem OperandRule.expected_steady (r : OperandRule) (ts : List SqlType)
    (result : SqlType) : Steady (r.expected ts result) := by
  cases r <;> grind [expected, Steady.mapM]

@[grind .] theorem Literal.sqlType_steady (config : Config) (l : Literal) :
    Steady (l.sqlType config) := by
  cases l <;> grind [sqlType, exactType]

end SqlAnalysis

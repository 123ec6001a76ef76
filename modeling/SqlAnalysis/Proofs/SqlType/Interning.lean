import SqlAnalysis.Proofs.SqlType.Legible

/-!
Types are told apart by their place in a table. A table that only legible types are built in gives,
for every request, the very type that is meant, and keeps it under its key; so two types of the
table are the same exactly if they are equal in all their parts.
-/

namespace SqlAnalysis

namespace SqlType

mutual
def setNullable (nullable : Bool) : SqlType → SqlType
  | .scalar s _ => .scalar s nullable
  | .interval q _ => .interval q nullable
  | .row fs _ => .row (setFieldsNullable nullable fs) nullable
  | .multiset e _ => .multiset e nullable
  | .null => .null
  | .unknown => .unknown

def setFieldsNullable (nullable : Bool) : List Field → List Field
  | [] => []
  | (name, t) :: fs => (name, setNullable nullable t) :: setFieldsNullable nullable fs
end

/-- The text of the type tells it from all other types. -/
structure Told (t : SqlType) : Prop where
  legible : t.Legible
  formed : t.Scalars Scalar.Formed

theorem Told.eq_of_key {a b : SqlType} (ha : a.Told) (hb : b.Told) (h : a.key = b.key) : a = b :=
  SqlType.eq_of_key ha.legible hb.legible ha.formed hb.formed h

end SqlType

/-- A request to a type table for a type. -/
inductive TypeRequest where
  | named (name : TypeName)
  | ofPrecision (name : TypeName) (precision : Int)
  | decimal (precision scale : Int)
  | char (name : ScalarName) (isChar : name.isChar) (precision : Int) (collation : Collation)
  | interval (q : Qualifier)
  | row (fields : List Field)
  | multiset (element : SqlType)
  | nullable (nullable : Bool) (t : SqlType)
  | collated (collation : Collation) (t : SqlType)
  | precise (precision : Int) (t : SqlType)

namespace TypeRequest

open TypeTable

def run : TypeRequest → TypeM SqlType
  | named name => ofName name
  | ofPrecision name precision => ofNamePrecision name precision
  | decimal precision scale => TypeTable.decimal precision scale
  | char name _ precision collation => TypeTable.char name precision collation
  | interval q => TypeTable.interval q
  | row fields => TypeTable.row fields
  | multiset element => TypeTable.multiset element
  | nullable n t => withNullable n t
  | collated collation t => withCollation collation t
  | precise precision t => withPrecision precision t

def operands : TypeRequest → List SqlType
  | row fields => fields.map Prod.snd
  | multiset t | nullable _ t | collated _ t | precise _ t => [t]
  | _ => []

/-- The type that is asked for. Where no parts are built on the way, it is what a table gives that
has no types yet. -/
def meant : TypeRequest → SqlType
  | row fields => .row fields false
  | multiset element => .multiset element false
  | nullable n t => t.setNullable n
  | q => (q.run {}).1

end TypeRequest

/-- A table and the types that were built in it, by one request after the other for legible types.
What a request is about was built before, and types of other tables are adopted. -/
inductive TypeTable.Builds : TypeTable → List SqlType → Prop
  | nil : Builds {} []
  | request {T : TypeTable} {ts : List SqlType} {q : TypeRequest} (h : Builds T ts)
    (hq : ∀ t ∈ q.operands, t ∈ ts ∨ t = .unknown)
      (hmeant : q.meant.Legible) : Builds (q.run T).2 ((q.run T).1 :: ts)
  | adopt {T T' : TypeTable} {ts ts' : List SqlType} {t : SqlType} (h : Builds T ts)
    (h' : Builds T' ts') (ht : t ∈ ts') :
      Builds (TypeTable.adopt t T).2 ((TypeTable.adopt t T).1 :: ts)

namespace TypeTable

open SqlType TypeM

variable {T : TypeTable} {t : SqlType}

/-- Every type is kept under its own key, and its text tells it. -/
def Tells (T : TypeTable) : Prop := ∀ k t, T.get? k = some t → t.key = k ∧ t.Told

/-- The type is the one that the table keeps; the unknown type belongs to no table. -/
def Holds (T : TypeTable) (t : SqlType) : Prop := t ≠ .unknown → T.get? t.key = some t

theorem Holds.later {U : TypeTable} (h : T.Holds t) (hU : T.Extends U) :
    U.Holds t := fun ht => hU.kept _ _ (h ht)

theorem intern_told (hT : T.Tells) (ht : t.Told) :
    (intern t T).1 = t ∧ (intern t T).2.Tells ∧ (intern t T).2.Holds t := by
  have hkept : (intern t T).2.get? t.key = some (intern t T).1 := get?_intern
  unfold intern at *
  cases hk : T.get? t.key with
  | some u =>
    obtain ⟨hkey, hu⟩ := hT _ _ hk
    cases hu.eq_of_key ht hkey
    exact ⟨rfl, hT, fun _ => hk⟩
  | none =>
    rw [hk] at hkept
    refine ⟨rfl, fun k u hu => ?_, fun _ => hkept⟩
    rw [Table.get?_insert] at hu
    split at hu
    · cases hu
      exact ⟨‹_›, ht⟩
    · exact hT k u hu

/-! ### Parts of types -/

mutual
theorem scalars_setNullable (n : Bool) (t : SqlType) (h : t.Scalars P) :
    (t.setNullable n).Scalars P := by
  cases t with
  | row fs m => exact scalars_setFieldsNullable n fs h
  | _ => exact h

theorem scalars_setFieldsNullable (n : Bool) (fs : List Field)
    (h : FieldScalars P fs) : FieldScalars P (setFieldsNullable n fs) := by
  cases fs with
  | nil => trivial
  | cons f fs => exact ⟨scalars_setNullable n f.2 h.1, scalars_setFieldsNullable n fs h.2⟩
end

theorem fieldScalars_iff {fs : List Field} : FieldScalars P fs ↔ ∀ f ∈ fs, f.2.Scalars P := by
  induction fs with
  | nil => exact ⟨nofun, fun _ => trivial⟩
  | cons f fs ih => rw [FieldScalars, ih, List.forall_mem_cons]

theorem hereditary_scalars (P : Scalar → Prop) : Hereditary (Scalars P) where
  scalar _ := id
  interval _ _ := trivial
  null := trivial
  row := fieldScalars_iff
  multiset := .rfl

theorem told_cons {name : String} {x : TypeM SqlType} {xs : TypeM (List Field)} (ht : (x T).1 = t)
    (hfs : (xs (x T).2).1 = fs) (hT : (xs (x T).2).2.Tells) :
    ((do return (name, ← x) :: (← xs) : TypeM (List Field)) T).1 = (name, t) :: fs ∧
      ((do return (name, ← x) :: (← xs) : TypeM (List Field)) T).2.Tells :=
  ⟨ht ▸ hfs ▸ rfl, hT⟩

mutual
theorem withNullable_told (t : SqlType)
    {T : TypeTable} (hT : T.Tells) (h : (t.setNullable n).Told) :
    (withNullable n t T).1 = t.setNullable n ∧ (withNullable n t T).2.Tells ∧
      (T.Holds t → (withNullable n t T).2.Holds (t.setNullable n)) := by
  have hintern {U : TypeTable} (hU : U.Tells) : (intern (t.setNullable n) U).1 = t.setNullable n ∧
      (intern (t.setNullable n) U).2.Tells ∧
      (T.Holds t → (intern (t.setNullable n) U).2.Holds (t.setNullable n)) := by
    obtain ⟨heq, htells, hholds⟩ := intern_told hU h
    exact ⟨heq, htells, fun _ => hholds⟩
  cases t with
  | scalar _ m | interval _ m | multiset _ m =>
    rw [withNullable]
    split
    · subst ‹m = n›
      exact ⟨rfl, hT, id⟩
    · exact hintern hT
  | row fs m =>
    obtain ⟨hfields, hT'⟩ := fieldsWithNullable_told fs hT h.legible h.formed
    have hrun : withNullable n (.row fs m) T =
        intern (.row (fieldsWithNullable n fs T).1 n) (fieldsWithNullable n fs T).2 := by
        rw [withNullable]; rfl
    rw [hrun, hfields]
    exact hintern hT'
  | null | unknown => exact ⟨rfl, hT, id⟩

theorem fieldsWithNullable_told (fs : List Field) {T : TypeTable}
    (hT : T.Tells) (hl : LegibleFields (setFieldsNullable n fs))
    (hf : FieldScalars Scalar.Formed (setFieldsNullable n fs)) : (fieldsWithNullable n fs T).1 =
      setFieldsNullable n fs ∧ (fieldsWithNullable n fs T).2.Tells := by
  cases fs with
  | nil => exact ⟨rfl, hT⟩
  | cons f fs =>
    obtain ⟨name, t⟩ := f
    obtain ⟨ht, hT', _⟩ := withNullable_told t hT ⟨hl.2.1, hf.1⟩
    obtain ⟨hfs, hT''⟩ := fieldsWithNullable_told fs hT' hl.2.2.2 hf.2
    rw [fieldsWithNullable]
    exact told_cons ht hfs hT''
end

mutual
theorem adopt_told (t : SqlType) {T : TypeTable} (hT : T.Tells) (h : t.Told) :
    (adopt t T).1 = t ∧ (adopt t T).2.Tells ∧ (adopt t T).2.Holds t := by
  cases t with
  | scalar | interval | null => exact intern_told hT h
  | multiset e n =>
    obtain ⟨he, hT', _⟩ := adopt_told e hT ⟨h.legible.1, h.formed⟩
    have hrun : adopt (.multiset e n) T = intern (.multiset (adopt e T).1 n) (adopt e T).2 := by
      rw [adopt]; rfl
    rw [hrun, he]
    exact intern_told hT' h
  | row fs n =>
    obtain ⟨hfs, hT'⟩ := adoptFields_told fs hT h.legible h.formed
    have hrun : adopt (.row fs n) T =
      intern (.row (adoptFields fs T).1 n) (adoptFields fs T).2 := by rw [adopt]; rfl
    rw [hrun, hfs]
    exact intern_told hT' h
  | unknown => exact ⟨rfl, hT, fun h => absurd rfl h⟩

theorem adoptFields_told (fs : List Field) {T : TypeTable}
    (hT : T.Tells) (hl : LegibleFields fs) (hf : FieldScalars Scalar.Formed fs) :
    (adoptFields fs T).1 = fs ∧ (adoptFields fs T).2.Tells := by
  cases fs with
  | nil => exact ⟨rfl, hT⟩
  | cons f fs =>
    obtain ⟨name, t⟩ := f
    obtain ⟨ht, hT', _⟩ := adopt_told t hT ⟨hl.2.1, hf.1⟩
    obtain ⟨hfs, hT''⟩ := adoptFields_told fs hT' hl.2.2.2 hf.2
    rw [adoptFields]
    exact told_cons ht hfs hT''
end

end TypeTable

namespace TypeRequest

open TypeTable SqlType

variable {T : TypeTable} {q : TypeRequest}

/-- A step that builds one type, or none and gives a type that is there. -/
inductive BuildsOne (P : SqlType → Prop) : TypeM SqlType → Prop
  | intern {t : SqlType} (ht : t.Scalars Scalar.Formed) : BuildsOne P (intern t)
  | pure {t : SqlType} (ht : t.Scalars Scalar.Formed) (hP : P t) : BuildsOne P (pure t)

theorem BuildsOne.told {x : TypeM SqlType} (h : BuildsOne P x)
    (hP : ∀ t, P t → T.Holds t) (hT : T.Tells) (hl : (x {}).1.Legible) :
    (x T).1 = (x {}).1 ∧ (x {}).1.Told ∧ (x T).2.Tells ∧ (x T).2.Holds (x {}).1 := by
  cases h with
  | @intern t ht =>
    obtain ⟨heq, htells, hholds⟩ := intern_told hT ⟨hl, ht⟩
    exact ⟨heq, ⟨hl, ht⟩, htells, hholds⟩
  | pure ht hp => exact ⟨rfl, ⟨hl, ht⟩, hT, hP _ hp⟩

theorem decimal_buildsOne (precision scale : Int) :
    BuildsOne P (TypeTable.decimal precision scale) :=
  .intern ⟨nofun, fun h => absurd rfl h, fun _ => ⟨rfl, rfl⟩⟩

variable {name : ScalarName}

theorem formed_of_isChar (h : name.isChar) (precision : Int) (charset : String)
    (collation : Collation) : Scalar.Formed { name, precision, charset, collation } where
  precision hp := by
    cases name with
    | char | varchar => cases hp
    | _ => cases h
  scale _ := rfl
  collation hc := by
    rw [h] at hc
    cases hc

theorem char_buildsOne (h : name.isChar) (precision : Int) (collation : Collation) :
    BuildsOne P (TypeTable.char name precision collation) :=
  .intern (formed_of_isChar h _ _ _)

theorem scalarOf_buildsOne (name : ScalarName) (precision : Int) :
    BuildsOne P (scalarOf name precision) := by
  unfold scalarOf
  split
  · exact decimal_buildsOne _ _
  · exact char_buildsOne rfl _ _
  · exact char_buildsOne rfl _ _
  · exact .intern ⟨fun h => if_neg (by simpa using h), fun _ => rfl, fun _ => ⟨rfl, rfl⟩⟩

theorem ofNamePrecision_buildsOne (hP : P .unknown) (name : TypeName) (precision : Int) :
    BuildsOne P (ofNamePrecision name precision) := by
  cases name with
  | scalar n => exact scalarOf_buildsOne n precision
  | unknown => exact .pure trivial hP
  | _ => exact .intern trivial

theorem withCollation_buildsOne {t : SqlType} (ht : t.Scalars Scalar.Formed)
    (hP : P t) (collation : Collation) : BuildsOne P (withCollation collation t) := by
  unfold withCollation
  split
  · rename_i s n
    have hs : s.Formed := ht
    split
    · rename_i hchar
      refine .intern ⟨hs.precision, hs.scale, fun h => ?_⟩
      rw [hchar] at h
      cases h
    · exact .pure ht hP
  · exact .pure ht hP

theorem withPrecision_buildsOne {t : SqlType} (ht : t.Scalars Scalar.Formed)
    (hP : P t) (precision : Int) : BuildsOne P (withPrecision precision t) := by
  unfold withPrecision
  split
  · rename_i s n
    have hs : s.Formed := ht
    split
    · rename_i hallows
      refine .intern ⟨fun h => ?_, hs.scale, hs.collation⟩
      rw [show s.name.allowsPrecision = false from h] at hallows
      cases hallows
    · exact .pure ht hP
  · exact .pure ht hP

/-- Every request gives the type that is meant, if its text tells it and the types that it is about
are kept. -/
theorem run_told (hT : T.Tells) (hq : ∀ t ∈ q.operands, t.Scalars Scalar.Formed ∧ T.Holds t)
    (hl : q.meant.Legible) : (q.run T).1 = q.meant ∧ q.meant.Told ∧ (q.run T).2.Tells ∧
      (q.run T).2.Holds q.meant := by
  have hone {x : TypeM SqlType} (hx : BuildsOne T.Holds x) := hx.told (fun _ h => h) hT
  have hinterned {t : SqlType} (ht : t.Told) : (intern t T).1 = t ∧ t.Told ∧
      (intern t T).2.Tells ∧ (intern t T).2.Holds t := by
    obtain ⟨heq, htells, hholds⟩ := intern_told hT ht
    exact ⟨heq, ht, htells, hholds⟩
  have hunknown : T.Holds .unknown := fun h => absurd rfl h
  cases q with
  | named name => exact hone (ofNamePrecision_buildsOne hunknown name _) hl
  | ofPrecision name precision => exact hone (ofNamePrecision_buildsOne hunknown name precision) hl
  | decimal precision scale => exact hone (decimal_buildsOne precision scale) hl
  | char name hname precision collation => exact hone (char_buildsOne hname precision collation) hl
  | interval q => exact hone (.intern trivial) hl
  | row fields =>
    exact hinterned ⟨hl, fieldScalars_iff.mpr fun f hf => (hq f.2 (List.mem_map_of_mem hf)).1⟩
  | multiset element => exact hinterned ⟨hl, (hq element List.mem_cons_self).1⟩
  | nullable n t =>
    obtain ⟨hformed, hholds⟩ := hq t List.mem_cons_self
    have htold : (t.setNullable n).Told := ⟨hl, scalars_setNullable n t hformed⟩
    obtain ⟨heq, htells, hkeep⟩ := withNullable_told t hT htold
    exact ⟨heq, htold, htells, hkeep hholds⟩
  | collated collation t =>
    obtain ⟨hformed, hholds⟩ := hq t List.mem_cons_self
    exact hone (withCollation_buildsOne hformed hholds collation) hl
  | precise precision t =>
    obtain ⟨hformed, hholds⟩ := hq t List.mem_cons_self
    exact hone (withPrecision_buildsOne hformed hholds precision) hl

theorem run_forms (q : TypeRequest) (hq : ∀ t ∈ q.operands, t.Scalars Scalar.Formed) :
    Forms (Scalars Scalar.Formed) q.run (Scalars Scalar.Formed) := by
  have hone {x : TypeM SqlType} (hx : BuildsOne (fun _ => True) x) : Forms
      (Scalars Scalar.Formed) x (Scalars Scalar.Formed) := by
    cases hx with
    | intern ht => exact intern_forms ht
    | pure ht _ => exact .pure ht
  cases q with
  | named name => exact hone (ofNamePrecision_buildsOne trivial name _)
  | ofPrecision name precision => exact hone (ofNamePrecision_buildsOne trivial name precision)
  | decimal precision scale => exact hone (decimal_buildsOne precision scale)
  | char name hname precision collation => exact hone (char_buildsOne hname precision collation)
  | interval q => exact hone (.intern trivial)
  | row fields =>
    exact intern_forms (fieldScalars_iff.mpr fun f hf => hq f.2 (List.mem_map_of_mem hf))
  | multiset element => exact hone (.intern (hq element List.mem_cons_self))
  | nullable n t => exact withNullable_forms (hereditary_scalars _) n t (hq t List.mem_cons_self)
  | collated collation t =>
    exact hone (withCollation_buildsOne (hq t List.mem_cons_self) trivial collation)
  | precise precision t =>
    exact hone (withPrecision_buildsOne (hq t List.mem_cons_self) trivial precision)

theorem run_steady (q : TypeRequest) : TypeM.Steady q.run := by
  cases q with
  | named name => exact ofNamePrecision_steady _ _
  | ofPrecision name precision => exact ofNamePrecision_steady _ _
  | decimal precision scale => exact decimal_steady
  | char name h precision collation => exact char_steady
  | interval q => exact interval_steady
  | row fields => exact row_steady
  | multiset element => exact multiset_steady
  | nullable n t => exact withNullable_steady n t
  | collated collation t => exact withCollation_steady
  | precise precision t => exact withPrecision_steady

end TypeRequest

/-- A table and the types that it has given out, each for a request about types given out before or
adopted from another table. -/
inductive TypeTable.Gives : TypeTable → List SqlType → Prop
  | nil : Gives {} []
  | request {T : TypeTable} {ts : List SqlType} {q : TypeRequest} (h : Gives T ts)
    (hq : ∀ t ∈ q.operands, t ∈ ts ∨ t = .unknown) :
      Gives (q.run T).2 ((q.run T).1 :: ts)
  | adopt {T T' : TypeTable} {ts ts' : List SqlType} {t : SqlType} (h : Gives T ts)
    (h' : Gives T' ts') (ht : t ∈ ts') :
      Gives (TypeTable.adopt t T).2 ((TypeTable.adopt t T).1 :: ts)

theorem TypeTable.Gives.formed {T : TypeTable} {ts : List SqlType} (h : Gives T ts) :
    (∀ k t, T.get? k = some t → t.Scalars Scalar.Formed) ∧ ∀ t ∈ ts, t.Scalars Scalar.Formed := by
  induction h with
  | nil => exact ⟨nofun, nofun⟩
  | @request T ts q _ hq ih =>
    have hoperands (t : SqlType) (ht : t ∈ q.operands) : t.Scalars Scalar.Formed := by
      obtain ht | rfl := hq t ht
      · exact ih.2 t ht
      · trivial
    obtain ⟨hT, ht⟩ := q.run_forms hoperands T ih.1
    exact ⟨hT, List.forall_mem_cons.mpr ⟨ht, ih.2⟩⟩
  | adopt _ _ ht ih ih' =>
    obtain ⟨hT, ht⟩ := adopt_forms (hereditary_scalars _) _ (ih'.2 _ ht) _ ih.1
    exact ⟨hT, List.forall_mem_cons.mpr ⟨ht, ih.2⟩⟩

namespace TypeTable.Builds

open SqlType

variable {T : TypeTable} {ts : List SqlType} {q : TypeRequest}

/-- What a table with its types is like at all times. -/
structure Apart (T : TypeTable) (ts : List SqlType) : Prop where
  tells : T.Tells
  told : ∀ t ∈ ts, t.Told ∧ T.Holds t

theorem Apart.operands (h : Apart T ts) (hq : ∀ t ∈ q.operands, t ∈ ts ∨ t = .unknown) :
    ∀ t ∈ q.operands, t.Scalars Scalar.Formed ∧ T.Holds t := by
  intro t ht
  obtain ht | rfl := hq t ht
  · exact ⟨(h.told t ht).1.formed, (h.told t ht).2⟩
  · exact ⟨trivial, fun h => absurd rfl h⟩

theorem apart (h : Builds T ts) : Apart T ts := by
  induction h with
  | nil => exact ⟨nofun, nofun⟩
  | @request T ts q _ hq hmeant ih =>
    obtain ⟨heq, htold, htells, hholds⟩ := TypeRequest.run_told ih.tells (ih.operands hq) hmeant
    refine ⟨htells, List.forall_mem_cons.mpr ⟨heq ▸ ⟨htold, hholds⟩, fun t ht => ?_⟩⟩
    exact (ih.told t ht).imp_right fun h => h.later (q.run_steady T).1
  | @adopt T T' ts ts' t _ _ ht ih ih' =>
    obtain ⟨heq, htells, hholds⟩ := adopt_told t ih.tells (ih'.told t ht).1
    refine ⟨htells,
      List.forall_mem_cons.mpr ⟨heq.symm ▸ ⟨(ih'.told t ht).1, hholds⟩, fun t' ht' => ?_⟩⟩
    exact (ih.told t' ht').imp_right fun h => h.later (adopt_steady t T).1

/-- In a table in which only legible types are built, each type that was built is the one that the
table keeps under its key, two of them are the same exactly if they are equal, and each further
request gives just the type that is meant. -/
theorem same_iff_eq (h : Builds T ts) :
    (∀ t ∈ ts, t ≠ .unknown → T.get? t.key = some t) ∧
    (∀ a ∈ ts, ∀ b ∈ ts, a.same b = true ↔ a = b) ∧
    (∀ q : TypeRequest, (∀ t ∈ q.operands, t ∈ ts ∨ t = .unknown) → q.meant.Legible →
      (q.run T).1 = q.meant) ∧
    ∀ T' ts' t, Builds T' ts' → t ∈ ts' → (TypeTable.adopt t T).1 = t := by
  have hapart := h.apart
  refine ⟨fun t ht => (hapart.told t ht).2, fun a ha b hb => ?_, fun q hq hmeant => ?_,
    fun T' ts' t h' ht => ?_⟩
  · rw [SqlType.same, beq_iff_eq]
    exact ⟨(hapart.told a ha).1.eq_of_key (hapart.told b hb).1, congrArg SqlType.key⟩
  · exact (TypeRequest.run_told hapart.tells (hapart.operands hq) hmeant).1
  · exact (adopt_told t hapart.tells (h'.apart.told t ht).1).1

/-- A decimal, a row of it, and the row with columns that admit the null value. -/
theorem same_iff_eq_row : ∃ T ts, Builds T ts ∧
      ts = [.row [("N", .scalar { name := .decimal, precision := 5, scale := 2 } true)] true,
      .row [("N", .scalar { name := .decimal, precision := 5, scale := 2 } false)] false,
      .scalar { name := .decimal, precision := 5, scale := 2 } false] ∧
    ∀ a ∈ ts, ∀ b ∈ ts, a.same b = true ↔ a = b := by
  have hlegible : Scalar.Legible { name := .decimal, precision := 5, scale := 2 } :=
    ⟨by simp, nofun⟩
  have hname : LegibleName "N" := by unfold LegibleName; decide
  let decimal : TypeRequest := .decimal 5 2
  have hdecimal : Builds (decimal.run {}).2 [decimal.meant] := .request .nil nofun hlegible
  let row : TypeRequest := .row [("N", decimal.meant)]
  have hoperand : ∀ t ∈ row.operands, t ∈ [decimal.meant] ∨ t = .unknown := by
    simp [row, TypeRequest.operands]
  have hmeant : row.meant.Legible := ⟨hname, hlegible, nofun, trivial⟩
  have hrow := Builds.request hdecimal hoperand hmeant
  rw [hdecimal.same_iff_eq.2.2.1 row hoperand hmeant] at hrow
  let nullable : TypeRequest := .nullable true row.meant
  have hoperand : ∀ t ∈ nullable.operands, t ∈ [row.meant, decimal.meant] ∨ t = .unknown := by
    simp [nullable, TypeRequest.operands]
  have hmeant : nullable.meant.Legible := ⟨hname, hlegible, nofun, trivial⟩
  have hnullable := Builds.request hrow hoperand hmeant
  rw [hrow.same_iff_eq.2.2.1 nullable hoperand hmeant] at hnullable
  exact ⟨_, _, hnullable, rfl, hnullable.same_iff_eq.2.1⟩

end TypeTable.Builds

end SqlAnalysis

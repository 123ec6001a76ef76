import SqlAnalysis.Proofs.Catalog.Remembering
import SqlAnalysis.Proofs.SqlType.Legible
import SqlAnalysis.Proofs.Text.Sorted

/-!
What a catalog lists and what it finds. Tables are kept under their qualified names and listed under
their schemas; both follow the document. The row of a table is the one its columns declare, as long
as columns can be told from the text of a row.
-/

namespace SqlAnalysis

open Text TypeM

namespace SqlType

/-- The type can stand in the text of a row, and its own fields can be told from its text. -/
structure Listable (t : SqlType) : Prop where
  chunk : Chunk t.bare.toList
  fields : ∀ f ∈ t.fields, LegibleName f.1 ∧ Chunk f.2.fullText.toList

variable {a b t : SqlType}

structure Flat (t : SqlType) : Prop where
  chunk : Chunk t.bare.toList
  fields : t.fields = []

theorem Flat.listable (h : t.Flat) : t.Listable := ⟨h.chunk, by rw [h.fields]; nofun⟩

theorem flat_scalar (s : Scalar) (n : Bool) : Flat (.scalar s n) := ⟨chunk_scalar s, rfl⟩

theorem chunk_columns (h : ∀ f ∈ fs, LegibleName f.1 ∧ Chunk f.2.fullText.toList) :
    ∀ u ∈ (renderFields true fs).map String.toList, Chunk u := by
  rw [renderFields_eq_map, List.map_map, List.forall_mem_map]
  exact fun f hf => chunk_column (h f hf).1 (h f hf).2

theorem map_field_eq {fs gs : List Field} (hfs : ∀ f ∈ fs, LegibleName f.1)
    (hgs : ∀ g ∈ gs, LegibleName g.1) (h : fs.map columnText = gs.map columnText) :
    fs.map (fun f => (f.1, f.2.fullText)) = gs.map fun f => (f.1, f.2.fullText) := by
  induction fs generalizing gs with
  | nil => rw [List.map_eq_nil_iff.mp h.symm]
  | cons f fs ih =>
    cases gs with
    | nil => cases h
    | cons g gs =>
      rw [List.forall_mem_cons] at hfs hgs
      obtain ⟨hfield, hrest⟩ := List.cons.inj h
      obtain ⟨htype, hname⟩ := field_eq hfs.1 hgs.1 hfield
      rw [List.map_cons, List.map_cons, hname, htype, ih hfs.2 hgs.2 hrest]

theorem fields_eq (ha : a.Listable) (hb : b.Listable) (h : a.fullText = b.fullText) :
    a.fields.map (fun f => (f.1, f.2.fullText)) = b.fields.map fun f => (f.1, f.2.fullText) := by
  have hrow {a b : SqlType} (h : a.fullText = b.fullText) (hb : b.isRow) : a.isRow := by
    cases b with
    | row gs n => exact isRow_of_fullText h
    | _ => cases hb
  by_cases hisRow : a.isRow
  · have hisRow' := hrow h.symm hisRow
    cases a with
    | row fs m =>
      cases b with
      | row gs n =>
        have htexts := renderFields_eq (chunk_columns ha.fields) (chunk_columns hb.fields)
          (String.append_right_inj _ |>.mp (String.append_left_inj _ |>.mp h))
        rw [renderFields_eq_map, renderFields_eq_map] at htexts
        exact map_field_eq (fun f hf => (ha.fields f hf).1) (fun g hg => (hb.fields g hg).1) htexts
      | _ => cases hisRow'
    | _ => cases hisRow
  · have hnone {t : SqlType} (h : t.isRow ≠ true) : t.fields = [] := by
      cases t with
      | row => exact absurd rfl h
      | _ => rfl
    rw [hnone hisRow, hnone (mt (hrow h) hisRow)]

end SqlType

namespace TypeTable

open SqlType

/-- Every type is kept under its own key and is listable. -/
def Listed (T : TypeTable) : Prop := ∀ k t, T.get? k = some t → t.key = k ∧ t.Listable

/-- In a listed table the step adds listable types only, and gives something in `Q`. -/
def Lists {α : Type} (x : TypeM α) (Q : α → Prop) : Prop :=
  ∀ T : TypeTable, T.Listed → (x T).2.Listed ∧ Q (x T).1

section

variable {t : SqlType} {R : β → Prop}

theorem Lists.pure (h : Q v) : Lists (pure v) Q := fun _ hT => ⟨hT, h⟩

theorem Lists.bind (hx : Lists x Q) (hf : ∀ v, Q v → Lists (f v) R) : Lists (x >>= f) R :=
  fun T hT => hf (x T).1 (hx T hT).2 (x T).2 (hx T hT).1

theorem intern_lists (h : t.Listable) : Lists (intern t) fun u => u.key = t.key ∧ u.Listable := by
  intro T hT
  unfold intern
  cases hk : T.get? t.key with
  | some kept => exact ⟨hT, hT _ _ hk⟩
  | none =>
    refine ⟨fun k u hu => ?_, rfl, h⟩
    rw [Table.get?_insert] at hu
    split at hu
    · cases hu
      exact ⟨‹_›, h⟩
    · exact hT k u hu

theorem intern_flat (h : t.Flat) : Lists (intern t) Flat := by
  intro T hT
  obtain ⟨hT', hkey, hu⟩ := intern_lists h.listable T hT
  refine ⟨hT', hu.chunk, ?_⟩
  have hfields := fields_eq hu h.listable (congrArg TypeKey.text hkey)
  rwa [h.fields, List.map_nil, List.map_eq_nil_iff] at hfields

theorem ofNamePrecision_flat (name : TypeName) (precision : Int) :
    Lists (ofNamePrecision name precision) Flat := by
  unfold ofNamePrecision
  split
  · unfold scalarOf
    split <;> exact intern_flat (flat_scalar _ _)
  · exact intern_flat ⟨.of_plain (by decide), rfl⟩
  · exact intern_flat ⟨.of_plain (by decide), rfl⟩
  · exact intern_flat ⟨.of_plain (by decide), rfl⟩
  · exact intern_flat
      ⟨.append (u := "RecordType".toList) (.of_plain (by decide)) (.parens (u := []) rfl), rfl⟩
  · exact intern_flat ⟨.of_plain (by decide), rfl⟩
  · exact .pure ⟨.of_plain (by decide), rfl⟩

theorem withNullable_flat (n : Bool) (h : t.Flat) : Lists (withNullable n t) Flat := by
  cases t with
  | row fs m =>
    obtain rfl : fs = [] := h.fields
    exact intern_flat ⟨h.chunk, rfl⟩
  | scalar | interval | multiset =>
    rw [withNullable]
    split
    · exact .pure h
    · exact intern_flat ⟨h.chunk, rfl⟩
  | null | unknown => exact .pure h

theorem withCollation_flat (collation : Collation) (h : t.Flat) :
    Lists (withCollation collation t) Flat := by
  unfold withCollation
  split
  · split
    · exact intern_flat (flat_scalar _ _)
    · exact .pure h
  · exact .pure h

end

end TypeTable

namespace Catalog

open SqlType TypeTable

variable {c : Catalog} {T T' : TypeTable}

theorem ColumnSpec.baseType_steady (c : ColumnSpec) (name : TypeName) :
    Steady (c.baseType name) := by
  unfold baseType
  grind

theorem ColumnSpec.sqlType_steady (c : ColumnSpec) : Steady c.sqlType := by
  unfold sqlType
  grind [ColumnSpec.baseType_steady]

theorem fieldsOf_steady (cs : List ColumnSpec) : Steady (fieldsOf cs) := by
  induction cs with
  | nil => exact .pure _
  | cons c cs ih =>
    unfold fieldsOf
    grind [ColumnSpec.sqlType_steady]

theorem ColumnSpec.baseType_flat (c : ColumnSpec) (name : TypeName) :
    Lists (c.baseType name) fun answer => ∀ t, answer = .ok t → t.Flat := by
  have hok {x : TypeM SqlType} (hx : Lists x Flat) :
      Lists (Except.ok <$> x : TypeM (Except ColumnError SqlType)) fun answer =>
      ∀ t, answer = .ok t → t.Flat :=
    hx.bind fun _ h => .pure fun _ ht => Except.ok.inj ht ▸ h
  unfold baseType
  split
  · exact hok (intern_flat (flat_scalar _ _))
  split
  · split
    · exact .pure nofun
    · exact hok (ofNamePrecision_flat _ _)
  split
  · exact .pure nofun
  · split
    · exact hok (intern_flat (flat_scalar _ _))
    · exact .pure nofun
  · exact .pure nofun

theorem ColumnSpec.sqlType_flat (c : ColumnSpec) :
    Lists c.sqlType fun answer => ∀ t, answer = .ok t → t.Flat := by
  unfold sqlType
  split
  · exact .pure nofun
  · refine (c.baseType_flat _).bind fun answer h => ?_
    split
    · exact .pure nofun
    · exact (withNullable_flat _ (h _ rfl)).bind fun _ h => .pure fun _ ht => Except.ok.inj ht ▸ h

theorem fieldsOf_lists (cs : List ColumnSpec) : Lists (fieldsOf cs) fun answer =>
    ∀ fs, answer = .ok fs → fs.map Prod.fst = cs.map ColumnSpec.name ∧ ∀ f ∈ fs, f.2.Flat := by
  induction cs with
  | nil => exact .pure fun fs hfs => Except.ok.inj hfs ▸ ⟨rfl, List.forall_mem_nil _⟩
  | cons c cs ih =>
    refine c.sqlType_flat.bind fun answer h => ?_
    split
    · exact .pure (by rintro _ ⟨⟩)
    have ht := h _ rfl
    split
    case' isTrue => refine (withCollation_flat _ ht).bind fun t ht => ?_
    case' isFalse => rw [pure_bind]
    all_goals
      refine ih.bind fun answer hrest => ?_
      split
      · exact .pure (by rintro _ ⟨⟩)
      · obtain ⟨hnames, hflat⟩ := hrest _ rfl
        refine .pure fun fs hfs => Except.ok.inj hfs ▸ ⟨?_, List.forall_mem_cons.mpr ⟨ht, hflat⟩⟩
        rw [List.map_cons, List.map_cons, hnames]

/-- The table has the columns that are declared, as all later type tables have their types. -/
structure Declares (T : TypeTable) (schema : String) (spec : TableSpec) (r : Relation) : Prop where
  names : r.names = [schema, spec.name]
  columns : ∃ fs, (∀ U, T.Extends U → (fieldsOf spec.columns U).1 = .ok fs) ∧
    fs.map Prod.fst = spec.columns.map ColumnSpec.name ∧
    r.row.fields.map (fun f => (f.1, f.2.fullText)) = fs.map fun f => (f.1, f.2.fullText)

theorem Declares.later (h : Declares T schema spec r) (hT : T.Extends T') :
    Declares T' schema spec r :=
  ⟨h.names, h.columns.imp fun _ hfs => ⟨fun U hU => hfs.1 U (hT.trans hU), hfs.2⟩⟩

/-- The catalog follows the declarations so far: the schemas and, each with its schema, the
tables. -/
structure Agrees (default : String) (ss : List String) (ps : List (String × TableSpec))
    (c : Catalog) (T : TypeTable) : Prop where
  default : c.defaultSchema = default
  matcher : c.matcher = { caseSensitive := true }
  listed : T.Listed
  below : ∀ k x, x ∈ c.belowKey k ↔ k = "" ∧ x ∈ ss ∨ ∃ p ∈ ps, p.1 = k ∧ p.2.name = x
  found : ∀ k r, c.tables.get? k = some r → ∃ p ∈ ps, Text.join "." [p.1, p.2.name] = k ∧
    Declares T p.1 p.2 r
  kept : ∀ p ∈ ps, (c.tables.get? (Text.join "." [p.1, p.2.name])).isSome

theorem key_eq (h : c.matcher = { caseSensitive := true }) (names : List String) :
    c.key names = Text.join "." names := by
  have hkey : c.matcher.key = id := by rw [h]; rfl
  rw [key, hkey, List.map_id]

theorem belowKey_addBelow (c : Catalog) (key name k : String) : (c.addBelow key name).belowKey k =
      if key = k then c.belowKey key ++ [name] else c.belowKey k := by
  rw [belowKey, addBelow, Table.get?_insert]
  split <;> rfl

theorem addTable_eq {spec : TableSpec} (hc : addTable schema c spec T = (.ok c', T')) :
    ∃ fs r, (fieldsOf spec.columns T).1 = .ok fs ∧ r.names = [schema, spec.name] ∧
      row fs (fieldsOf spec.columns T).2 = (r.row, T') ∧ c' = addBelow { c with
      tables := c.tables.insert (c.key [schema, spec.name]) r } (c.key [schema]) spec.name := by
  unfold addTable at hc
  split at hc
  · cases hc
  · dsimp only [bind, StateT.bind] at hc
    cases hfs : fieldsOf spec.columns T with
    | mk answer U =>
      rw [hfs] at hc
      cases answer with
      | error e => cases hc
      | ok fs =>
        cases hc
        exact ⟨fs, _, rfl, rfl, rfl, rfl⟩

theorem declares_of_row (hT : T.Listed) {spec : TableSpec}
    (hspec : ∀ col ∈ spec.columns, LegibleName col.name)
    (hfs : (fieldsOf spec.columns T).1 = .ok fs) (hr : r.names = [schema, spec.name])
    (hrow : row fs (fieldsOf spec.columns T).2 = (r.row, T')) :
    T'.Listed ∧ T.Extends T' ∧ Declares T' schema spec r := by
  obtain ⟨hlisted, hfields⟩ := fieldsOf_lists spec.columns T hT
  obtain ⟨hnames, hflat⟩ := hfields fs hfs
  have hlistable : ∀ f ∈ fs, LegibleName f.1 ∧ Chunk f.2.fullText.toList := by
    intro f hf
    obtain ⟨col, hcol, heq⟩ :=
      List.mem_map.mp (hnames ▸ List.mem_map_of_mem hf : f.1 ∈ spec.columns.map ColumnSpec.name)
    exact ⟨heq ▸ hspec col hcol, chunk_of_bare (hflat f hf).chunk⟩
  have hmeant : Listable (.row fs false) := ⟨chunk_row false (chunk_columns hlistable), hlistable⟩
  have hlists : Lists (TypeTable.row fs) fun u => u.key = (SqlType.row fs false).key ∧ u.Listable :=
    intern_lists hmeant
  have hsteady : Steady (TypeTable.row fs) := row_steady
  obtain ⟨hT', hkey, hlistable'⟩ := hrow ▸ hlists _ hlisted
  have hlater : (fieldsOf spec.columns T).2.Extends T' := by
    have := (hsteady (fieldsOf spec.columns T).2).1
    rwa [hrow] at this
  obtain ⟨hextends, hagain⟩ := fieldsOf_steady spec.columns T
  refine ⟨hT', hextends.trans hlater, hr, fs, fun U hU => ?_, hnames,
    fields_eq hlistable' hmeant (congrArg TypeKey.text hkey)⟩
  rw [hagain U (hlater.trans hU)]
  exact hfs

theorem Agrees.addTable (h : Agrees d ss ps c T) {spec : TableSpec}
    (hspec : ∀ col ∈ spec.columns, LegibleName col.name)
    (hc : Catalog.addTable schema c spec T = (.ok c', T')) :
    Agrees d ss (ps ++ [(schema, spec)]) c' T' := by
  obtain ⟨fs, r, hfs, hr, hrow, rfl⟩ := addTable_eq hc
  obtain ⟨hT', hextends, hdeclares⟩ := declares_of_row h.listed hspec hfs hr hrow
  rw [key_eq h.matcher, key_eq h.matcher, show Text.join "." [schema] = schema from rfl]
  refine ⟨h.default, h.matcher, hT', fun k x => ?_, fun k u hu => ?_, fun p hp => ?_⟩
  · have hbelow : belowKey
      { c with tables := c.tables.insert (Text.join "." [schema, spec.name]) r } = c.belowKey := rfl
    simp only [belowKey_addBelow, hbelow, List.mem_append, List.mem_singleton,
      or_and_right, exists_or, exists_eq_left]
    split
    next hk =>
      subst hk
      rw [List.mem_append, h.below, List.mem_singleton, or_assoc, eq_comm (a := x),
        eq_self, true_and]
    next hk => rw [h.below, iff_false_intro hk, false_and, or_false]
  · have hu := (Table.get?_insert _ _ _ _).symm.trans hu
    split at hu
    next hk => exact ⟨_, List.mem_append_right _ (List.mem_singleton_self _),
      hk, Option.some.inj hu ▸ hdeclares⟩
    next =>
      obtain ⟨p, hp, hk, hold⟩ := h.found k u hu
      exact ⟨p, List.mem_append_left _ hp, hk, hold.later hextends⟩
  · change ((c.tables.insert (Text.join "." [schema, spec.name]) r).get? _).isSome
    rw [Table.get?_insert]
    split
    next => rfl
    next hne =>
      rcases List.mem_append.mp hp with hp | hp
      · exact h.kept p hp
      · exact absurd (List.mem_singleton.mp hp ▸ rfl) hne

theorem addAll_induction {add : Catalog → α → TypeM (Except Error Catalog)}
    {R : List α → Catalog → TypeTable → Prop} (ds : List α)
    (hstep : ∀ ds c T, ∀ a ∈ as, R ds c T → ∀ c' T', add c a T = (.ok c', T') → R (ds ++ [a]) c' T')
    (h : R ds c T) (hc : addAll add c as T = (.ok c', T')) : R (ds ++ as) c' T' := by
  induction as generalizing ds c T with
  | nil => cases hc; rwa [List.append_nil]
  | cons a as ih =>
    dsimp only [addAll, bind, StateT.bind] at hc
    cases hadd : add c a T with
    | mk answer U =>
      rw [hadd] at hc
      cases answer with
      | error e => cases hc
      | ok c₁ =>
        have h₁ := hstep ds c T a List.mem_cons_self h c₁ U hadd
        have := ih _ (fun ds c T b hb => hstep ds c T b (List.mem_cons_of_mem a hb)) h₁ hc
        rwa [List.append_assoc] at this

theorem Agrees.addType (h : Agrees d ss ps c T) {spec : ColumnSpec}
    (hc : Catalog.addType schema c spec T = (.ok c', T')) : Agrees d ss ps c' T' := by
  obtain ⟨hT', -⟩ := spec.sqlType_flat T h.listed
  have hextends := (spec.sqlType_steady T).1
  dsimp only [Catalog.addType, bind, StateT.bind] at hc
  cases hrun : spec.sqlType T with
  | mk answer U =>
    rw [hrun] at hc hT' hextends
    cases answer with
    | error e => cases hc
    | ok t =>
      cases hc
      exact ⟨h.default, h.matcher, hT', h.below, fun k r hr =>
        (h.found k r hr).imp fun p hp => ⟨hp.1, hp.2.1, hp.2.2.later hextends⟩, h.kept⟩

def SchemaSpec.declared (s : SchemaSpec) : List (String × TableSpec) := s.tables.map (s.name, ·)

theorem Agrees.addSchema (h : Agrees d ss ps c T) {s : SchemaSpec}
    (hs : ∀ t ∈ s.tables, ∀ col ∈ t.columns, LegibleName col.name)
    (hc : Catalog.addSchema c s T = (.ok c', T')) :
    Agrees d (ss ++ [s.name]) (ps ++ s.declared) c' T' := by
  have hbelow : Agrees d (ss ++ [s.name]) ps (c.addBelow "" s.name) T := by
    refine ⟨h.default, h.matcher, h.listed, fun k x => ?_, h.found, h.kept⟩
    rw [belowKey_addBelow]
    split
    next hk =>
      subst hk
      simp only [List.mem_append, h.below, true_and]
      rw [or_right_comm]
    next hk => rw [h.below, eq_comm, iff_false_intro hk, false_and, false_and]
  dsimp only [Catalog.addSchema, bind, StateT.bind] at hc
  cases hrun : addAll (Catalog.addTable s.name) (c.addBelow "" s.name) s.tables T with
  | mk answer U =>
    rw [hrun] at hc
    cases answer with
    | error e => cases hc
    | ok c₁ =>
      have htables := addAll_induction (R := fun ts => Agrees d (ss ++ [s.name]) (ps ++ ts.map
        (s.name, ·))) [] (fun ts c T t ht h c' T' hc => by simpa using h.addTable (hs t ht) hc)
        (by simpa using hbelow) hrun
      exact addAll_induction (R := fun _ => Agrees d (ss ++ [s.name]) (ps ++ s.declared)) []
        (fun _ c T t _ h c' T' hc => h.addType hc) htables hc

/-- Names of schemas and tables without the dot between them, and of columns that can be told from
the text of a row. -/
def Document.Named (d : Document) : Prop :=
  ∀ s ∈ d.schemas, s.name ≠ "" ∧ '.' ∉ s.name.toList ∧
    ∀ t ∈ s.tables, '.' ∉ t.name.toList ∧ ∀ col ∈ t.columns, LegibleName col.name

theorem agrees_ofDocument {d : Document} (hT : T.Listed) (hd : d.Named)
    (hc : ofDocument { caseSensitive := true } d T = (.ok c, T')) :
    Agrees d.defaultSchema (d.schemas.map SchemaSpec.name)
      (d.schemas.flatMap SchemaSpec.declared) c T' := by
  have hempty : Agrees d.defaultSchema [] []
      { defaultSchema := d.defaultSchema, matcher := { caseSensitive := true } } T :=
    ⟨rfl, rfl, hT, fun k x => ⟨nofun, nofun⟩, nofun, nofun⟩
  refine addAll_induction (R := fun ss => Agrees d.defaultSchema (ss.map SchemaSpec.name)
    (ss.flatMap SchemaSpec.declared)) [] (fun ss c T s hs h c' T' hc => ?_) hempty hc
  simpa using h.addSchema (fun t ht => ((hd s hs).2.2 t ht).2) hc

theorem join_eq_iff (hs : '.' ∉ s.toList) (hn : '.' ∉ n.toList) :
    Text.join "." [s, n] = Text.join "." [s', n'] ↔ s = s' ∧ n = n' := by
  have htext (s n : String) : (Text.join "." [s, n]).toList = s.toList ++ '.' :: n.toList := by
    simp [Text.join]
  rw [← String.toList_inj, htext, htext, List.append_cons_inj_of_notMem hs hn,
    String.toList_inj, String.toList_inj, eq_self, true_and]

theorem pairwise_objects (c : Catalog) (path : List String) :
    (c.objects path).Pairwise (· < ·) := by
  have hsorted : (c.objects path).Pairwise fun a b => decide (a ≤ b) = true ∧ a ≠ b := by
    refine Text.pairwise_mergeSort_eraseDups (fun a b c hab hbc => ?_) (fun a b => ?_) _
    · exact decide_eq_true (String.le_trans (of_decide_eq_true hab) (of_decide_eq_true hbc))
    · simpa using String.le_total a b
  exact hsorted.imp fun ⟨hle, hne⟩ => String.not_le.mp fun hge =>
    hne (String.le_antisymm (of_decide_eq_true hle) hge)

theorem mem_objects (c : Catalog) (path : List String) (x : String) :
    x ∈ c.objects path ↔ path = [] ∧ c.defaultSchema ≠ "" ∧
      x ∈ c.belowKey (c.key [c.defaultSchema]) ∨ x ∈ c.belowKey (c.key path) := by
  unfold objects
  rw [List.mem_mergeSort, List.mem_eraseDups, List.mem_append]
  refine or_congr_left ?_
  cases path <;> by_cases hd : c.defaultSchema = "" <;> simp

/-- What a catalog lists is what it finds, and what it finds is what the document declares. -/
theorem objects_iff_table {d : Document} (hT : T.Listed) (hd : d.Named)
    (hc : ofDocument { caseSensitive := true } d T = (.ok c, T')) :
    (∀ s ≠ "", ∀ n, (n ∈ c.objects [s] ↔ (c.table? [s, n]).isSome = true) ∧
      ((c.table? [s, n]).isSome = true ↔ ∃ schema ∈ d.schemas, ∃ spec ∈ schema.tables,
      schema.name = s ∧ spec.name = n)) ∧
    (∀ s n r, c.table? [s, n] = some r → r.names = [s, n] ∧
      ∃ schema ∈ d.schemas, ∃ spec ∈ schema.tables, schema.name = s ∧ spec.name = n ∧
        ∃ fs, (fieldsOf spec.columns T').1 = .ok fs ∧
        fs.map Prod.fst = spec.columns.map ColumnSpec.name ∧
          r.row.fields.map (fun f => (f.1, f.2.fullText)) = fs.map fun f => (f.1, f.2.fullText)) ∧
    (d.defaultSchema ≠ "" → (∀ n, c.table? [n] = c.table? [d.defaultSchema, n]) ∧
      ∀ x, x ∈ c.objects [] ↔ (∃ schema ∈ d.schemas, schema.name = x) ∨
      (c.table? [d.defaultSchema, x]).isSome = true) ∧
    ∀ path, (c.objects path).Pairwise (· < ·) := by
  have h := agrees_ofDocument hT hd hc
  have hone (s : String) : c.key [s] = s := key_eq h.matcher [s]
  have hdeclared (P : String × TableSpec →
      Prop) : (∃ p ∈ d.schemas.flatMap SchemaSpec.declared, P p) ↔
      ∃ schema ∈ d.schemas, ∃ spec ∈ schema.tables, P (schema.name, spec) := by
    simp only [SchemaSpec.declared, List.mem_flatMap, List.mem_map]
    grind
  have hfound (s n : String) (r : Relation) (hr : c.table? [s, n] = some r) :
      ∃ schema ∈ d.schemas, ∃ spec ∈ schema.tables, schema.name = s ∧ spec.name = n ∧
      Declares T' s spec r := by
    obtain ⟨schema, hschema, spec, hspec, hkey, hdeclares⟩ := (hdeclared _).mp (h.found _ r hr)
    rw [key_eq h.matcher] at hkey
    obtain ⟨-, hdot, htables⟩ := hd schema hschema
    obtain ⟨rfl, rfl⟩ := (join_eq_iff hdot (htables spec hspec).1).mp hkey
    exact ⟨schema, hschema, spec, hspec, rfl, rfl, hdeclares⟩
  have hkept (s n : String) : (c.table? [s, n]).isSome = true ↔
      ∃ schema ∈ d.schemas, ∃ spec ∈ schema.tables, schema.name = s ∧ spec.name = n := by
    constructor
    · intro hsome
      obtain ⟨r, hr⟩ := Option.isSome_iff_exists.mp hsome
      obtain ⟨schema, hschema, spec, hspec, hs, hn, -⟩ := hfound s n r hr
      exact ⟨schema, hschema, spec, hspec, hs, hn⟩
    · rintro ⟨schema, hschema, spec, hspec, rfl, rfl⟩
      rw [table?, key_eq h.matcher]
      exact h.kept (schema.name, spec)
        (List.mem_flatMap.mpr ⟨schema, hschema, List.mem_map_of_mem hspec⟩)
  refine ⟨fun s hs n => ⟨?_, ?_⟩, fun s n r hr => ?_, fun hdefault => ⟨fun n => ?_, fun x => ?_⟩,
    c.pairwise_objects⟩
  · simp only [mem_objects, hone, h.below, hdeclared, hkept, List.cons_ne_nil,
      false_and, false_or, hs]
  · exact hkept s n
  · obtain ⟨schema, hschema, spec, hspec, rfl, hn, hnames, fs, hfs, hcolumns⟩ := hfound s n r hr
    exact ⟨hn ▸ hnames, schema, hschema, spec, hspec, rfl, hn, fs, hfs T' (.refl T'), hcolumns⟩
  · rw [table?, table?, qualify, h.default, if_neg hdefault]
    rfl
  · have hroot : c.key [] = "" := key_eq h.matcher []
    simp only [mem_objects, hone, hroot, h.below, hdeclared, hkept, h.default,
      hdefault, true_and, false_and, false_or, List.mem_map, ne_eq, not_false_eq_true]
    have hnameless : ¬ ∃ schema ∈ d.schemas, ∃ spec ∈ schema.tables, schema.name = "" ∧
        spec.name = x :=
      fun ⟨schema, hschema, _, _, hname, _⟩ => (hd schema hschema).1 hname
    rw [iff_false_intro hnameless, or_false, or_comm]

/-- Two schemas with a table of one name. -/
theorem objects_iff_table_default :
    let d : Document := { defaultSchema := "B", schemas := [
      ⟨"A", [⟨"T", [{ name := "X", type := "INTEGER" }]⟩], []⟩,
      ⟨"B", [⟨"T", [{ name := "X", type := "VARCHAR" },
        { name := "Y", type := "DATE", nullable := some false }]⟩, ⟨"U", []⟩], []⟩] }
    ∃ c T', ofDocument { caseSensitive := true } d {} = (.ok c, T') ∧
      (∀ n, c.table? [n] = c.table? ["B", n]) ∧
      ∃ r, c.table? ["B", "T"] = some r ∧ r.names = ["B", "T"] ∧ r.row.fieldNames = ["X", "Y"] := by
  intro d
  have hd : d.Named := by simp [d, Document.Named, LegibleName]
  obtain ⟨c, T', hc⟩ : ∃ c T', ofDocument { caseSensitive := true } d {} = (.ok c, T') :=
    ⟨_, _, rfl⟩
  obtain ⟨hlists, hfinds, hdefault, -⟩ := objects_iff_table (nofun : Listed {}) hd hc
  refine ⟨c, T', hc, (hdefault (by decide)).1, ?_⟩
  obtain ⟨r, hr⟩ := Option.isSome_iff_exists.mp
    ((hlists "B" (by decide) "T").2.mpr ⟨_, .tail _ (.head _), _, .head _, rfl, rfl⟩)
  obtain ⟨hnames, schema, hschema, spec, hspec, hs, hn, fs, -, hfs, hcolumns⟩ := hfinds "B" "T" r hr
  have hspec : spec.columns.map ColumnSpec.name = ["X", "Y"] := by
    have hdeclared : ∀ schema ∈ d.schemas, schema.name = "B" → ∀ spec ∈ schema.tables,
        spec.name = "T" →
        spec.columns.map ColumnSpec.name = ["X", "Y"] := by simp [d]
    exact hdeclared schema hschema hs spec hspec hn
  refine ⟨r, hr, hnames, ?_⟩
  rw [SqlType.fieldNames, ← hspec, ← hfs]
  simpa [Function.comp_def] using congrArg (List.map Prod.fst) hcolumns

/-- Rows are kept by their texts, which do not tell all of them apart. With a row that was known
before, whose only column has a name like two columns, a table of two columns gets that row; and of
two tables with a column that is a row itself the second gets the row of the first, in which the
column excludes the null value. -/
theorem table_gets_known_row :
    let column (name : String) : ColumnSpec := { name, type := "INTEGER", nullable := some false }
    let nested (nullable : Bool) : ColumnSpec :=
      { name := "A", type := "ROW", nullable := some nullable }
    let known : TypeTable :=
      (row [("A, INTEGER NOT NULL B", .scalar { name := .integer } false)] {}).2
    (∃ c T r, ofDocument { caseSensitive := true }
      { schemas := [⟨"S", [⟨"R", [column "A", column "B"]⟩], []⟩] } known = (.ok c, T) ∧
      c.table? ["S", "R"] = some r ∧ r.row.fieldNames = ["A, INTEGER NOT NULL B"]) ∧
    ∃ c T r, ofDocument { caseSensitive := true }
      { schemas := [⟨"S", [⟨"P", [nested false]⟩, ⟨"R", [nested true]⟩], []⟩] } {} = (.ok c, T) ∧
      c.table? ["S", "R"] = some r ∧ r.row.fields = [("A", .row [] false)] := by
  exact ⟨⟨_, _, _, rfl, rfl, rfl⟩, _, _, _, rfl, rfl, rfl⟩

end Catalog

end SqlAnalysis

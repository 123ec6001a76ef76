import SqlAnalysis.Proofs.Analysis.Chain
import SqlAnalysis.Proofs.Analysis.Success
import SqlAnalysis.Proofs.SqlType.JoinRow

/-!
What a name was found to mean. `Meaning` says what a search that succeeds has seen, in terms of the
rows of valid relations, which stay as they are: two searches for one name from one scope, one of
them later than the other, can be compared.
-/

namespace SqlAnalysis.Analysis

variable {a : Analysis} {id : Link}

/-- The row type as which a scope shows a valid relation. -/
def ShowsRow (a : Analysis) (child : Child) (row : SqlType) : Prop :=
  ∃ R, a.store.status? child.source = some (.valid R) ∧ a.types.Side child.nullable R row

namespace ShowsRow

theorem later (h : ShowsRow a child row) (hab : Later a b) : ShowsRow b child row := by
  obtain ⟨R, hvalid, hside⟩ := h
  exact ⟨R, hab.valid _ R hvalid, hside.later hab.types⟩

theorem unique (h : ShowsRow a child row) (h' : ShowsRow a child row') : row = row' := by
  obtain ⟨R, hvalid, hside⟩ := h
  obtain ⟨R', hvalid', hside'⟩ := h'
  cases hvalid.symm.trans hvalid'
  unfold TypeTable.Side at hside hside'
  split at hside
  · rename_i hnull
    rw [if_pos hnull] at hside'
    exact hside.unique hside'
  · rename_i hnull
    rw [if_neg hnull] at hside'
    exact hside.trans hside'.symm

end ShowsRow

theorem inProgress_of_isInProgress
    (h : ((a.store.namespace? ns).getD default).status.isInProgress) : InProgress ns a := by
  cases hn : a.store.namespace? ns with
  | none =>
    rw [hn] at h
    cases h
  | some n =>
    rw [hn, Option.getD_some] at h
    rw [InProgress, Store.status?, hn, Option.map_some]
    cases hst : n.status with
    | inProgress published => exact ⟨published, rfl⟩
    | _ => rw [hst] at h; cases h

theorem exists_of_validate_ok (h : (engine steps).validate ns target s a = (.ok (), b)) :
    ∃ n, a.store.namespace? ns = some n := by
  cases steps with
  | zero => cases h
  | succ steps =>
    have h : validate (engine steps) ns target s a = (.ok (), b) := h
    cases hn : a.store.namespace? ns with
    | some n => exact ⟨n, rfl⟩
    | none =>
      rw [validate, run_bind_get] at h
      simp only [hn] at h
      cases h

theorem childRow_ok (h : childRow (engine steps) child s a = (.ok row, b)) :
    Proceeds a b ∧ ShowsRow b child row := by
  have hproceeds : Proceeds a b :=
    Keeps.proceeds (childRow_keeps (engine_sameDeclared s a steps).relation) h
  refine ⟨hproceeds, ?_⟩
  obtain ⟨R, a₁, hrow, h⟩ := run_bind_ok h
  obtain ⟨n, hn⟩ : ∃ n, a.store.namespace? child.source = some n := by
    obtain ⟨_, _, hval, _⟩ := run_bind_ok hrow
    exact exists_of_validate_ok hval
  obtain ⟨_, hvalid⟩ := rowOf_ok hn hrow
  split at h
  · rename_i hnull
    have hsteady := TypeTable.withNullable_steady true R
    cases h
    refine ⟨R, hvalid, ?_⟩
    rw [TypeTable.Side, if_pos hnull]
    exact TypeM.Built.of_run hsteady rfl (.refl _)
  · rename_i hnull
    cases h
    refine ⟨row, hvalid, ?_⟩
    rw [TypeTable.Side, if_neg hnull]

/-- The relation has a column by the name. -/
def HasColumn (s : Setting) (a : Analysis) (child : Child) (name : String) (f : Field) : Prop :=
  ∃ row, ShowsRow a child row ∧ (row.fields.find? fun f => s.matcher.same f.1 name) = some f

/-- The relation has no column by the name, or none to show yet. -/
def Lacks (s : Setting) (a : Analysis) (child : Child) (name : String) : Prop :=
  InProgress child.source a ∨
    ∃ row, ShowsRow a child row ∧ (row.fields.find? fun f => s.matcher.same f.1 name) = none

theorem HasColumn.later (h : HasColumn s a child name f) (hab : Later a b) :
    HasColumn s b child name f := by
  obtain ⟨row, hrow, hf⟩ := h
  exact ⟨row, hrow.later hab, hf⟩

theorem Lacks.proceeds (h : Lacks s a child name) (hab : Proceeds a b) : Lacks s b child name :=
  h.imp hab.inProgress fun ⟨row, hrow, hf⟩ => ⟨row, hrow.later hab.later, hf⟩

theorem Lacks.not_hasColumn (h : Lacks s a child name)
    (hvalid : a.store.status? child.source = some (.valid R)) (hab : Later a b) :
    ¬ HasColumn s b child name f := by
  rintro ⟨row', hrow', hf'⟩
  rcases h with hprogress | ⟨row, hrow, hf⟩
  · exact hprogress.ne_valid R hvalid
  · rw [(hrow.later hab).unique hrow', hf'] at hf
    cases hf

theorem run_field? :
    field? row name s a = (.ok (row.fields.find? fun f => s.matcher.same f.1 name), a) := rfl

def columnOf (v : Visible) (f : Field) : Resolved :=
  { source := some v, names := [v.child.aliasName, f.1], type := f.2 }

theorem columnAmong_ok (h : columnAmong (engine steps) id name found vs s a = (.ok r, b)) :
    Proceeds a b ∧ (r = found ∧ (∀ v ∈ vs, Lacks s b v.child name) ∨
      found = none ∧ ∃ v ∈ vs, ∃ f, HasColumn s b v.child name f ∧ r = some (columnOf v f)) := by
  have hall : Proceeds a b :=
    Keeps.proceeds (columnAmong_keeps (engine_sameDeclared s a steps).relation) h
  refine ⟨hall, ?_⟩
  induction vs generalizing found a with
  | nil =>
    cases h
    exact .inl ⟨rfl, fun _ => nofun⟩
  | cons v vs ih =>
    have hrest {found : Option Resolved} {a : Analysis}
        (h : columnAmong (engine steps) id name found vs s a = (.ok r, b)) : Proceeds a b :=
      Keeps.proceeds (columnAmong_keeps (engine_sameDeclared s a steps).relation) h
    -- a relation without the column is passed over
    have hstep {found : Option Resolved} (hlacks : Lacks s b v.child name) (hvs : r = found ∧
        (∀ v ∈ vs, Lacks s b v.child name) ∨ found = none ∧ ∃ v ∈ vs, ∃ f, HasColumn s b v.child
        name f ∧ r = some (columnOf v f)) : r = found ∧ (∀ w ∈ v :: vs, Lacks s b w.child name) ∨
          found = none ∧ ∃ w ∈ v :: vs, ∃ f, HasColumn s b w.child name f ∧
          r = some (columnOf w f) := by
      refine hvs.imp (fun h => ⟨h.1, List.forall_mem_cons.mpr ⟨hlacks, h.2⟩⟩) ?_
      rintro ⟨hnone, w, hw, hf⟩
      exact ⟨hnone, w, List.mem_cons_of_mem v hw, hf⟩
    obtain ⟨n, a₁, hn, h⟩ := run_bind_ok h
    cases hn
    split at h
    · rename_i hprogress
      have hlacks : Lacks s b v.child name :=
        .inl (hall.inProgress (inProgress_of_isInProgress hprogress))
      exact hstep hlacks (ih h (hrest h))
    · obtain ⟨row, a₂, hrow, h⟩ := run_bind_ok h
      obtain ⟨hproceeds, hshows⟩ := childRow_ok hrow
      rw [run_bind, run_field?] at h
      cases hf : row.fields.find? fun f => s.matcher.same f.1 name with
      | none =>
        rw [hf] at h
        exact hstep (.inr ⟨row, hshows.later (hrest h).later, hf⟩) (ih h (hrest h))
      | some f =>
        rw [hf] at h
        dsimp only at h
        split at h
        · cases h
        · rename_i hfound
          rcases ih h (hrest h) with ⟨hr, _⟩ | ⟨hnone, _⟩
          · refine .inr ⟨Option.not_isSome_iff_eq_none.mp hfound, v, List.mem_cons_self, f, ?_, hr⟩
            exact ⟨row, hshows.later (hrest h).later, hf⟩
          · cases hnone

/-- No relation of the level has a column by the name. -/
def LevelLacks (s : Setting) (a : Analysis) (name : String) (level : ScopeId × Scope) : Prop :=
  level.2.kind.holdsChildren → ∀ v ∈ Store.owned level.1 level.2, Lacks s a v.child name

/-- The column is one of the nearest level that has one by the name. -/
def ColumnAt (s : Setting) (a : Analysis) (levels : List (ScopeId × Scope))
    (name : String) (v : Visible) (f : Field) : Prop :=
  ∃ near level far, levels = near ++ level :: far ∧ (∀ l ∈ near, LevelLacks s a name l) ∧
    level.2.kind.holdsChildren ∧ v ∈ Store.owned level.1 level.2 ∧ HasColumn s a v.child name f

theorem ColumnAt.proceeds {levels : List (ScopeId × Scope)} (h : ColumnAt s a levels name v f)
    (hab : Proceeds a b) : ColumnAt s b levels name v f := by
  obtain ⟨near, level, far, hlevels, hnear, hholds, hv, hf⟩ := h
  exact ⟨near, level, far, hlevels, fun l hl hh w hw => (hnear l hl hh w hw).proceeds hab,
    hholds, hv, hf.later hab.later⟩

theorem columnAlong_ok {levels : List (ScopeId × Scope)}
    (h : columnAlong (engine steps) id name levels s a = (.ok r, b)) :
    Proceeds a b ∧ (r = none ∧ (∀ l ∈ levels, LevelLacks s b name l) ∨
      ∃ v f, ColumnAt s b levels name v f ∧ r = some (columnOf v f)) := by
  have hall : Proceeds a b :=
    Keeps.proceeds (columnAlong_keeps (engine_sameDeclared s a steps).relation) h
  refine ⟨hall, ?_⟩
  induction levels generalizing a with
  | nil =>
    cases h
    exact .inl ⟨rfl, fun _ => nofun⟩
  | cons level levels ih =>
    have hrest {a : Analysis} (h : columnAlong (engine steps) id name levels s a =
        (.ok r, b)) : Proceeds a b :=
      Keeps.proceeds (columnAlong_keeps (engine_sameDeclared s a steps).relation) h
    have hstep (hlacks : LevelLacks s b name level) (hlevels : r = none ∧
        (∀ l ∈ levels, LevelLacks s b name l) ∨ ∃ v f, ColumnAt s b levels name v f ∧
        r = some (columnOf v f)) : r = none ∧ (∀ l ∈ level :: levels, LevelLacks s b name l) ∨
          ∃ v f, ColumnAt s b (level :: levels) name v f ∧ r = some (columnOf v f) := by
      refine hlevels.imp (fun h => ⟨h.1, List.forall_mem_cons.mpr ⟨hlacks, h.2⟩⟩) ?_
      rintro ⟨v, f, ⟨near, l, far, rfl, hnear, hl⟩, hr⟩
      exact ⟨v, f, ⟨level :: near, l, far, rfl, List.forall_mem_cons.mpr ⟨hlacks, hnear⟩, hl⟩, hr⟩
    rw [columnAlong] at h
    split at h
    · rename_i hholds
      obtain ⟨r', a₁, hamong, h⟩ := run_bind_ok h
      obtain ⟨hproceeds, ⟨rfl, hlacks⟩ | ⟨_, v, hv, f, hf, rfl⟩⟩ := columnAmong_ok hamong
      · exact hstep (fun _ v hv => (hlacks v hv).proceeds (hrest h)) (ih h (hrest h))
      · cases h
        exact .inr ⟨v, f, ⟨[], level, levels, rfl, fun _ => nofun, hholds, hv, hf⟩, rfl⟩
    · rename_i hholds
      exact hstep (fun h => absurd h hholds) (ih h (hrest h))

/-- The relation is a valid table whose qualified name ends in the names. -/
def Named (s : Setting) (a : Analysis) (child : Child) (names : List String) : Prop :=
  ∃ n, a.store.namespace? child.source = some n ∧ n.kind = .table ∧ n.isValid ∧
    n.table.elim false (fun t => endsWith s.matcher t.names names)

theorem Named.later (h : Named s a child names) (hab : Later a b) : Named s b child names := by
  obtain ⟨n, hn, hk, hvalid, hnames⟩ := h
  exact ⟨n, hab.kept hn hvalid, hk, hvalid, hnames⟩

/-- The names mean the relation: one name is an alias, several are the end of a qualified name. -/
def Means (s : Setting) (a : Analysis) (child : Child) : List String → Prop
  | [aliasName] => s.matcher.same child.aliasName aliasName
  | names => Named s a child names

theorem Means.later (h : Means s a child names) (hab : Later a b) : Means s b child names := by
  match names, h with
  | [], h => exact Named.later h hab
  | [_], h => exact h
  | _ :: _ :: _, h => exact Named.later h hab

theorem Means.earlier (h : Means s b child names)
    (hvalid : a.store.status? child.source = some (.valid R)) (hab : Later a b) :
    Means s a child names := by
  have hnamed {names : List String} (h : Named s b child names) : Named s a child names := by
    obtain ⟨n, hn, hst⟩ := Option.map_eq_some_iff.mp hvalid
    have hn' := hab.kept hn (by rw [Namespace.isValid, hst]; rfl)
    obtain ⟨m, hm, hrest⟩ := h
    cases hn'.symm.trans hm
    exact ⟨n, hn, hrest⟩
  rcases names with _ | ⟨_, _ | _⟩
  · exact hnamed h
  · exact h
  · exact hnamed h

/-- The relation is the first of those that the names mean; the others were not known as such at
`a`. -/
def FirstMeant (s : Setting) (a b : Analysis) (names : List String) (vs : List Visible)
    (v : Visible) : Prop :=
  ∃ near far, vs = near ++ v :: far ∧ (∀ w ∈ near, ¬ Means s a w.child names) ∧
    Means s b v.child names

theorem FirstMeant.widen (h : FirstMeant s a b names vs v) (ha : Later a' a) (hb : Later b b') :
    FirstMeant s a' b' names vs v := by
  obtain ⟨near, far, hvs, hnear, hv⟩ := h
  exact ⟨near, far, hvs, fun w hw hmeans => hnear w hw (hmeans.later ha), hv.later hb⟩

theorem findQualified_ok {names : List String} (hnames : names.length ≠ 1)
    (h : findQualified (engine steps) names vs s a = (.ok r, b)) :
    Proceeds a b ∧ (r = none ∧ (∀ w ∈ vs, ¬ Means s a w.child names) ∨
      ∃ v, FirstMeant s a b names vs v ∧ r = some v) := by
  have hkeep {a : Analysis} {vs : List Visible} (h : findQualified (engine steps) names vs s a =
      (.ok r, b)) : Proceeds a b :=
    Keeps.proceeds (findQualified_keeps (engine_sameDeclared s a steps).relation) h
  refine ⟨hkeep h, ?_⟩
  have hmeans (a : Analysis) (child : Child) : Means s a child names ↔ Named s a child names := by
    match names, hnames with
    | [], _ => exact .rfl
    | _ :: _ :: _, _ => exact .rfl
  induction vs generalizing a with
  | nil =>
    cases h
    exact .inl ⟨rfl, fun _ => nofun⟩
  | cons v vs ih =>
    have hstep {a' : Analysis} (haa' : Later a a') (hnot : ¬ Named s a v.child names)
        (hvs : r = none ∧ (∀ w ∈ vs, ¬ Means s a' w.child names) ∨
        ∃ w, FirstMeant s a' b names vs w ∧ r = some w) :
        r = none ∧ (∀ w ∈ v :: vs, ¬ Means s a w.child names) ∨
          ∃ w, FirstMeant s a b names (v :: vs) w ∧ r = some w := by
      have hv := mt (hmeans a v.child).mp hnot
      refine hvs.imp (fun h => ⟨h.1,
        List.forall_mem_cons.mpr ⟨hv, fun w hw hmeans => h.2 w hw (hmeans.later haa')⟩⟩) ?_
      rintro ⟨w, ⟨near, far, rfl, hnear, hw⟩, hr⟩
      exact ⟨w, ⟨v :: near, far, rfl,
        List.forall_mem_cons.mpr ⟨hv, fun w hw hmeans => hnear w hw (hmeans.later haa')⟩, hw⟩, hr⟩
    obtain ⟨_, _, hread, h⟩ := run_bind_ok h
    cases hread
    obtain ⟨n, _, hn, h⟩ := run_bind_ok h
    cases hn
    split at h
    · rename_i hkind
      obtain ⟨validated, a₁, hvalidate, h⟩ := run_bind_ok h
      have hlater : Later a a₁ :=
        Keeps.later (.attempt ((engine_sameDeclared s a steps).relation v.child.source)) hvalidate
      rcases attempt_ok hvalidate with ⟨_, hval, rfl⟩ | ⟨rfl, halt, hval, hhalt⟩
      · obtain ⟨_, _, hread, h⟩ := run_bind_ok h
        cases hread
        obtain ⟨n, hn⟩ := exists_of_validate_ok hval
        rw [hn, Option.getD_some] at hkind
        obtain ⟨R, hR⟩ := validate_ok hn hval
        obtain ⟨m, hm, hst⟩ := Option.map_eq_some_iff.mp hR
        have hmn : m.kind = n.kind := by
          obtain ⟨m', hm', hdecl⟩ := hlater.toSameDeclared.exists_namespace? hn
          cases hm.symm.trans hm'
          exact Namespace.kind_of_declared hdecl
        dsimp only at h
        rw [hm, Option.getD_some] at h
        split at h
        · rename_i hends
          cases h
          refine .inr ⟨v,
            ⟨[], vs, rfl, fun _ => nofun, (hmeans b v.child).mpr ⟨m, hm, ?_, ?_, hends⟩⟩, rfl⟩
          · rw [hmn, hkind]
          · rw [Namespace.isValid, hst]
            rfl
        · rename_i hends
          refine hstep hlater ?_ (ih h)
          rintro hnamed
          obtain ⟨m', hm', _, _, hends'⟩ := hnamed.later hlater
          cases hm.symm.trans hm'
          exact hends hends'
      · refine hstep hlater ?_ (ih h)
        rintro ⟨n, hn, _, hvalid, _⟩
        obtain ⟨R, hR⟩ := Status.isValid_iff.mp hvalid
        cases steps with
        | zero =>
          cases hval
          exact hhalt rfl
        | succ steps =>
          have hst : a.store.status? v.child.source = some (.valid R) := by
            rw [Store.status?, hn, Option.map_some, hR]
          rw [validate_valid hst] at hval
          cases hval
    · rename_i hkind
      refine hstep (.refl a) ?_ (ih h)
      rintro ⟨n, hn, hk, _⟩
      rw [hn] at hkind
      exact hkind hk

theorem findTable_ok {scope : ScopeId} (h : findTable (engine steps) scope names s a = (.ok r, b)) :
    Proceeds a b ∧ (r = none ∧ (∀ w ∈ a.store.visible scope, ¬ Means s a w.child names) ∨
      ∃ v, FirstMeant s a b names (a.store.visible scope) v ∧ r = some v) := by
  unfold findTable at h
  split at h
  · rename_i aliasName
    have hrun : findChild scope aliasName s a =
      (.ok ((a.store.visible scope).find? fun v => s.matcher.same v.child.aliasName aliasName),
      a) := rfl
    rw [hrun] at h
    cases hfind : (a.store.visible scope).find? fun v =>
      s.matcher.same v.child.aliasName aliasName with
    | none =>
      rw [hfind] at h
      cases h
      refine ⟨⟨.refl a, .refl a⟩, .inl ⟨rfl, fun w hw hmeans => ?_⟩⟩
      exact absurd hmeans (List.find?_eq_none.mp hfind w hw)
    | some v =>
      obtain ⟨hv, near, far, hsplit, hnear⟩ := List.find?_eq_some_iff_append.mp hfind
      rw [hfind] at h
      cases h
      refine ⟨⟨.refl a, .refl a⟩, .inr ⟨v, ⟨near, far, hsplit, fun w hw hmeans => ?_, hv⟩, rfl⟩⟩
      have hnot := hnear w hw
      rw [show s.matcher.same w.child.aliasName aliasName from hmeans] at hnot
      cases hnot
  · rename_i hnames
    have hlength : names.length ≠ 1 := fun hlength => by
      obtain ⟨x, rfl⟩ := List.length_eq_one_iff.mp hlength
      exact hnames x rfl
    exact findQualified_ok hlength h

/-- Fields of fields are followed by the names to a type; `path` are the names that the fields
have. -/
inductive Descends (s : Setting) (a : Analysis) :
    SqlType → (names path : List String) → SqlType → Prop where
  | done (t : SqlType) : Descends s a t [] [] t
  | field {t u w v : SqlType} {name found : String} {rest path : List String} (hrow : t.isRow)
      (hfield : (t.fields.find? fun f => s.matcher.same f.1 name) = some (found, u))
      (hside : a.types.Side t.nullable u w) (hrest : Descends s a w rest path v) : Descends
      s a t (name :: rest) (found :: path) v

theorem descend_ok (h : descend id owner names r s a = (.ok r', b)) :
    Proceeds a b ∧ ∃ path, Descends s b r.type names path r'.type ∧
      r' = { source := r.source, names := r.names ++ path, type := r'.type } := by
  have hkeep {owner : String} {names : List String} {r : Resolved} {a : Analysis}
      (h : descend id owner names r s a = (.ok r', b)) : Proceeds a b :=
    Keeps.proceeds (H := fun _ => True) descend_keeps h
  refine ⟨hkeep h, ?_⟩
  induction names generalizing owner r a with
  | nil =>
    cases h
    exact ⟨[], .done _, by rw [List.append_nil]⟩
  | cons name names ih =>
    rw [descend] at h
    split at h
    · cases h
    · rename_i hrow
      rw [Bool.not_eq_true, Bool.not_eq_false'] at hrow
      dsimp only at h
      rw [run_bind, run_field?] at h
      cases hfield : r.type.fields.find? fun f => s.matcher.same f.1 name with
      | none =>
        rw [hfield] at h
        obtain ⟨_, _, _, h⟩ := run_bind_ok h
        exact absurd h (refuse_ne_ok _)
      | some f =>
        rw [hfield] at h
        dsimp only at h
        obtain ⟨w, a₁, hside, h⟩ : ∃ w a₁, (Later a₁ b → b.types.Side r.type.nullable f.2 w) ∧
            descend id f.1 names { source := r.source, names := r.names ++ [f.1], type := w } s a₁ =
            (.ok r', b) := by
          split at h
          · rename_i hnull
            obtain ⟨w, a₁, hside, h⟩ := run_bind_ok h
            refine ⟨w, a₁, fun hlater => ?_, h⟩
            cases hside
            rw [TypeTable.Side, if_pos hnull]
            exact TypeM.Built.of_run (TypeTable.withNullable_steady true f.2) rfl hlater.types
          · rename_i hnull
            exact ⟨f.2, a, fun _ => by rw [TypeTable.Side, if_neg hnull], h⟩
        obtain ⟨path, hpath, hr'⟩ := ih h
        refine ⟨f.1 :: path, .field hrow hfield (hside (hkeep h).later) hpath, ?_⟩
        rw [hr']
        simp

/-- What a search for names from a scope has found, and what it has seen on its way from `a` to
`b`. -/
inductive Meaning (s : Setting) (scope : ScopeId) (a b : Analysis) (names : List String) :
    Resolved → Prop where
  /-- An output column of the query whose order is looked at. -/
  | output {sc : Scope} {f : Field} (hsimple : names.length = 1)
    (hscope : a.store.scope? scope = some sc) (hkind : sc.kind = .orderBy) :
      Meaning s scope a b names { source := none, names := [f.1], type := f.2 }
  /-- A column and its fields, where no start of the names is a relation. -/
  | column {v : Visible} {f : Field} {path : List String} {t : SqlType}
      (hcolumn : ColumnAt s b (a.store.chain scope) (names.head?.getD "") v f)
      (hrest : Descends s b f.2 names.tail path t) (htable : ∀ k, 0 < k →
      k < names.length → ∀ w ∈ a.store.visible scope, ¬ Means s a w.child (names.take k)) :
      Meaning s scope a b names
        { source := some v, names := v.child.aliasName :: f.1 :: path, type := t }
  /-- A relation and its fields, where no longer start of the names is one. -/
  | relation {k : Nat} {v : Visible} {row : SqlType} {path : List String}
    {t : SqlType} (hpos : 0 < k)
      (hshort : k < names.length ∨ names.length = 1) (hv : FirstMeant s
      a b (names.take k) (a.store.visible scope) v) (hrow : ShowsRow b v.child row)
      (hrest : Descends s b row (names.drop k) path t) (hlonger : ∀ j, k < j →
      j < names.length → ∀ w ∈ a.store.visible scope, ¬ Means s a w.child (names.take j))
      (hcolumn : names.length = 1 → ∀ l ∈ a.store.chain scope,
        LevelLacks s b (names.head?.getD "") l) :
      Meaning s scope a b names { source := some v, names := v.child.aliasName :: path, type := t }

theorem resolveOutput_ok (h : resolveOutput scope id name s a = (.ok r, b)) :
    b = a ∧ (r = none ∨ ∃ (sc : Scope) (f : Field), a.store.scope? scope = some sc ∧
      sc.kind = .orderBy ∧ r = some { source := none, names := [f.1], type := f.2 }) := by
  rw [resolveOutput, run_bind_get] at h
  cases hsc : a.store.scope? scope with
  | none =>
    simp only [hsc] at h
    cases h
    exact ⟨rfl, .inl rfl⟩
  | some sc =>
    obtain ⟨kind, node, parent, host, children, groups⟩ := sc
    simp only [hsc] at h
    cases kind with
    | orderBy =>
      obtain ⟨_, _, hread, h⟩ := run_bind_ok h
      cases hread
      generalize (((a.relation? node).bind Namespace.row?).elim [] SqlType.fields).filter
        (fun f => s.matcher.same f.1 name) = columns at h
      match columns, h with
      | [], h =>
        cases h
        exact ⟨rfl, .inl rfl⟩
      | [(column, t)], h =>
        cases h
        exact ⟨rfl, .inr ⟨_, (column, t), rfl, rfl, rfl⟩⟩
      | _ :: _ :: _, h => cases h
    | _ =>
      cases h
      exact ⟨rfl, .inl rfl⟩

theorem resolveSimple_ok (h : resolveSimple (engine steps) scope id name s a = (.ok r, b)) :
    Meaning s scope a b [name] r := by
  obtain ⟨output, a₁, houtput, h⟩ := run_bind_ok h
  obtain ⟨rfl, rfl | ⟨sc, f, hsc, hkind, rfl⟩⟩ := resolveOutput_ok houtput
  · obtain ⟨column, a₂, hcolumn, h⟩ := run_bind_ok h
    obtain ⟨hproceeds, ⟨rfl, hlacks⟩ | ⟨v, f, hf, rfl⟩⟩ := columnAlong_ok hcolumn
    · obtain ⟨child, a₃, hchild, h⟩ := run_bind_ok h
      have hchild : findTable (engine steps) scope [name] s a₂ = (.ok child, a₃) := hchild
      obtain ⟨hsame, ⟨rfl, _⟩ | ⟨v, hv, rfl⟩⟩ := findTable_ok hchild
      · obtain ⟨_, _, _, h⟩ := run_bind_ok h
        obtain ⟨_, _, _, h⟩ := run_bind_ok h
        exact absurd h (refuse_ne_ok _)
      · obtain ⟨row, a₄, hrow, h⟩ := run_bind_ok h
        obtain ⟨hproceeds', hshows⟩ := childRow_ok hrow
        cases h
        have hscopes := Store.visible_of_scopes hproceeds.1.scopes scope
        have hlast := hsame.trans hproceeds'
        refine .relation Nat.one_pos (.inr rfl) ?_ hshows (.done _)
          (fun j hj hlt => absurd hlt (Nat.not_lt.mpr (Nat.le_of_lt hj))) fun _ l hl hholds w hw =>
          (hlacks l hl hholds w hw).proceeds hlast
        exact hscopes ▸ hv.widen hproceeds.later hproceeds'.later
    · cases h
      exact .column hf (.done _) fun k hpos hk => absurd hk (Nat.not_lt.mpr hpos)
  · cases h
    exact .output rfl hsc hkind

theorem resolveBelowTable_ok {names : List String}
    (h : resolveBelowTable (engine steps) scope id names k s a = (.ok r, b)) :
    Proceeds a b ∧ (r = none ∧ (∀ j, 0 < j → j ≤ k → ∀ w ∈ a.store.visible scope, ¬ Means s
      a w.child (names.take j)) ∨ ∃ j v row path t, 0 < j ∧ j ≤ k ∧ FirstMeant s a b (names.take j)
      (a.store.visible scope) v ∧ ShowsRow b v.child row ∧ Descends s b row (names.drop j) path t ∧
      (∀ i, j < i → i ≤ k → ∀ w ∈ a.store.visible scope, ¬ Means s a w.child (names.take i)) ∧
      r = some { source := some v, names := v.child.aliasName :: path, type := t }) := by
  have hkeep {a : Analysis} {k : Nat} (h : resolveBelowTable (engine steps) scope id names k s a =
      (.ok r, b)) : Proceeds a b :=
    Keeps.proceeds (resolveBelowTable_keeps (engine_sameDeclared s a steps).relation) h
  refine ⟨hkeep h, ?_⟩
  induction k generalizing a with
  | zero =>
    cases h
    exact .inl ⟨rfl, fun j hpos hj => absurd hj (Nat.not_le.mpr hpos)⟩
  | succ k ih =>
    obtain ⟨found, a₁, hfound, h⟩ := run_bind_ok h
    obtain ⟨hproceeds, ⟨rfl, hnone⟩ | ⟨v, hv, rfl⟩⟩ := findTable_ok hfound
    · have hscopes := Store.visible_of_scopes hproceeds.1.scopes scope
      have hback {j : Nat} (hj : ∀ w ∈ a₁.store.visible scope, ¬ Means s a₁ w.child
          (names.take j)) : ∀ w ∈ a.store.visible scope, ¬ Means s a w.child (names.take j) :=
        fun w hw hmeans => hj w (hscopes ▸ hw) (hmeans.later hproceeds.later)
      rcases ih h with ⟨hr, hless⟩ | ⟨j, v, row, path, t, hpos, hj, hv, hrow, hrest, hlonger, hr⟩
      · refine .inl ⟨hr, fun j hpos hj => ?_⟩
        rcases Nat.le_succ_iff.mp hj with hj | rfl
        · exact hback (hless j hpos hj)
        · exact hnone
      · refine .inr ⟨j, v, row, path, t, hpos, Nat.le_succ_of_le hj,
          hscopes ▸ hv.widen hproceeds.later (.refl b), hrow, hrest, fun i hji hi => ?_, hr⟩
        rcases Nat.le_succ_iff.mp hi with hi | rfl
        · exact hback (hlonger i hji hi)
        · exact hnone
    · obtain ⟨row, a₂, hrow, h⟩ := run_bind_ok h
      obtain ⟨hproceeds₁, hshows⟩ := childRow_ok hrow
      obtain ⟨r', a₃, hrest, h⟩ := run_bind_ok h
      obtain ⟨hproceeds₂, path, hpath, hr'⟩ := descend_ok hrest
      cases h
      refine .inr ⟨k + 1, v, row, path, r'.type, Nat.succ_pos k, Nat.le_refl _,
        hv.widen (.refl a) (hproceeds₁.trans hproceeds₂).later, hshows.later hproceeds₂.later,
        hpath, fun i hki hi => absurd hki (Nat.not_lt.mpr hi), congrArg some hr'⟩

theorem resolveCompound_ok {names : List String} (hnames : names.length ≠ 1)
    (h : resolveCompound (engine steps) scope id names s a = (.ok r, b)) :
    Meaning s scope a b names r := by
  obtain ⟨found, a₁, hfound, h⟩ := run_bind_ok h
  obtain ⟨hproceeds, ⟨rfl, hnone⟩ | ⟨j, v, row, path, t, hpos, hj, hv,
    hrow, hrest, hlonger, rfl⟩⟩ := resolveBelowTable_ok hfound
  · obtain ⟨column, a₂, hcolumn, h⟩ := run_bind_ok h
    obtain ⟨hproceeds', ⟨rfl, hlacks⟩ | ⟨v, f, hf, rfl⟩⟩ := columnAlong_ok hcolumn
    · obtain ⟨_, _, _, h⟩ := run_bind_ok h
      obtain ⟨_, _, _, h⟩ := run_bind_ok h
      exact absurd h (refuse_ne_ok _)
    · obtain ⟨hproceeds'', path, hpath, hr⟩ := descend_ok h
      rw [hr]
      rw [Store.chain_of_scopes hproceeds.1.scopes] at hf
      exact .column (hf.proceeds hproceeds'') hpath fun k hpos hk =>
        hnone k hpos (Nat.le_sub_one_of_lt hk)
  · cases h
    exact .relation hpos (.inl (by omega)) hv hrow hrest (fun i hji hi =>
      hlonger i hji (Nat.le_sub_one_of_lt hi)) fun hlength => absurd hlength hnames

theorem resolve_ok (h : resolve (engine steps) scope id i s a = (.ok r, b)) :
    Meaning s scope a b i.names r := by
  unfold resolve at h
  split at h
  · exact absurd h (refuse_ne_ok _)
  · split at h
    · rename_i hsimple
      obtain ⟨x, hx⟩ := List.length_eq_one_iff.mp (beq_iff_eq.mp hsimple)
      rw [show i.last = x by rw [Identifier.last, hx]; rfl] at h
      exact hx ▸ resolveSimple_ok h
    · rename_i hsimple
      exact resolveCompound_ok (fun hlength => hsimple (beq_iff_eq.mpr hlength)) h

theorem Meaning.lt_length (h : Meaning s scope a b names r) (hnames : names = []) :
    1 < r.names.length := by
  subst hnames
  cases h with
  | output hsimple => cases hsimple
  | column => simp
  | relation hpos hshort => rcases hshort with hlt | hone <;> contradiction

theorem resolve_proceeds (h : resolve (engine steps) scope id i s a = (.ok r, b)) : Proceeds a b :=
  Keeps.proceeds (resolve_keeps (engine_sameDeclared s a steps).relation scope id i) h

theorem scope_of_mem_owned (h : v ∈ Store.owned σ sc) : v.scope = σ := by
  obtain ⟨p, _, rfl⟩ := List.mem_map.mp h
  rfl

/-- The nearest relations that a scope shows: those of the first level that owns any. -/
structure Nearest (a : Analysis) (scope σ : ScopeId) (sc : Scope) : Prop where
  levels : ∃ near far, a.store.chain scope = near ++ (σ, sc) :: far ∧
    ∀ l ∈ near, l.2.kind.holdsChildren = false
  holds : sc.kind.holdsChildren

theorem Nearest.eq_or_mem (h : Nearest a scope σ sc)
    (hlevels : a.store.chain scope = near ++ level :: far) (hholds : level.2.kind.holdsChildren) :
    level = (σ, sc) ∨ (σ, sc) ∈ near := by
  obtain ⟨near', far', hlevels', hnear'⟩ := h.levels
  rcases List.append_eq_append_iff.mp (hlevels.symm.trans hlevels') with ⟨mid,
    hmid, heq⟩ | ⟨mid, hmid, heq⟩
  · cases mid with
    | nil => exact .inl (List.cons.inj heq).1
    | cons l mid =>
      have hlevel : level ∈ near' := by
        rw [hmid, (List.cons.inj heq).1]; exact List.mem_append_right _ List.mem_cons_self
      rw [hnear' level hlevel] at hholds
      cases hholds
  · cases mid with
    | nil => exact .inl (List.cons.inj heq).1.symm
    | cons l mid =>
      rw [hmid, (List.cons.inj heq).1]
      exact .inr (List.mem_append_right _ List.mem_cons_self)

theorem Nearest.mem_owned (h : Nearest a scope σ sc) (hlevel : level ∈ a.store.chain scope)
    (hv : v ∈ Store.owned level.1 level.2) (hσ : v.scope = σ) : v ∈ Store.owned σ sc := by
  obtain ⟨near, far, hlevels, _⟩ := h.levels
  have hid : level.1 = σ := (scope_of_mem_owned hv).symm.trans hσ
  have hown : a.store.scope? σ = some sc :=
    Store.mem_chainUpTo (show (σ, sc) ∈
      a.store.chain scope by rw [hlevels]; exact List.mem_append_right _ List.mem_cons_self)
  have hlevel' : a.store.scope? level.1 = some level.2 := Store.mem_chainUpTo hlevel
  rw [hid, hown] at hlevel'
  cases hlevel'
  exact hid ▸ hv

theorem exists_level_of_mem_visible (h : v ∈ a.store.visible scope) :
    ∃ level ∈ a.store.chain scope, v ∈ Store.owned level.1 level.2 := by
  obtain ⟨level, hlevel, hv⟩ := List.mem_flatMap.mp h
  exact ⟨level, (List.mem_filter.mp hlevel).1, hv⟩

section Later

variable (hbc : Later b c) (hcd : Later c d)
include hbc hcd

/-- Of two searches for a relation, the later one finds the same, unless it finds one that the
earlier could not know. -/
theorem FirstMeant.eq_of_later (hab : Later a b)
    (h : FirstMeant s a b names vs v) (h' : FirstMeant s c d names vs v')
    (hvalid : a.store.status? v'.child.source = some (.valid R)) : v = v' := by
  obtain ⟨near, far, hvs, hnear, hv⟩ := h
  obtain ⟨near', far', hvs', hnear', hv'⟩ := h'
  have hv'a : Means s a v'.child names := hv'.earlier hvalid (hab.trans (hbc.trans hcd))
  have hvc : Means s c v.child names := hv.later hbc
  rcases List.append_eq_append_iff.mp (hvs.symm.trans hvs') with ⟨mid, hmid, heq⟩ | ⟨mid, hmid, heq⟩
  · cases mid with
    | nil => exact (List.cons.inj heq).1
    | cons w mid =>
      refine absurd hvc (hnear' v ?_)
      rw [hmid, (List.cons.inj heq).1]
      exact List.mem_append_right _ List.mem_cons_self
  · cases mid with
    | nil => exact (List.cons.inj heq).1.symm
    | cons w mid =>
      refine absurd hv'a (hnear v' ?_)
      rw [hmid, (List.cons.inj heq).1]
      exact List.mem_append_right _ List.mem_cons_self

theorem Meaning.near_of_later (hab : Later a b) (hnearest : Nearest a scope σ sc)
    (hvalid : ∀ v ∈ Store.owned σ sc, ∃ R, a.store.status? v.child.source = some (.valid R))
    (hkind : ∀ sc, a.store.scope? scope = some sc → sc.kind ≠ .orderBy)
    (h : Meaning s scope a b names r) (h' : Meaning s scope c d names r')
    (hv' : r'.source = some v') (hσ : v'.scope = σ) : ∃ v, r.source = some v ∧ v.scope = σ := by
  have hchain := Store.chain_of_scopes (hab.trans hbc).scopes scope
  have hvisible := Store.visible_of_scopes (hab.trans hbc).scopes scope
  have hbd := hbc.trans hcd
  have hlevel : (σ, sc) ∈ a.store.chain scope := by
    obtain ⟨near, far, hlevels, _⟩ := hnearest.levels
    rw [hlevels]
    exact List.mem_append_right _ List.mem_cons_self
  -- the relation that the later search has found is valid from the start
  have hown : v' ∈ Store.owned σ sc := by
    cases h' with
    | output => cases hv'
    | column hcolumn' =>
      cases hv'
      obtain ⟨near, level, far, hlevels, _, _, hmem, _⟩ := hcolumn'
      have hlevel : level ∈ a.store.chain scope := by
        rw [← hchain, hlevels]
        exact List.mem_append_right _ List.mem_cons_self
      exact hnearest.mem_owned hlevel hmem hσ
    | relation _ _ hfirst' =>
      cases hv'
      obtain ⟨near, far, hvs, _⟩ := hfirst'
      have hmem : v' ∈ a.store.visible scope := by
        rw [← hvisible, hvs]
        exact List.mem_append_right _ List.mem_cons_self
      obtain ⟨level, hlevel, hmem⟩ := exists_level_of_mem_visible hmem
      exact hnearest.mem_owned hlevel hmem hσ
  obtain ⟨R, hR⟩ := hvalid v' hown
  have hmeans' {names : List String} (h : Means s d v'.child names) : Means s a v'.child names :=
    h.earlier hR (hab.trans hbd)
  have hlacks {name : String} (h : LevelLacks s b name (σ, sc)) {f : Field} : ¬ HasColumn
      s d v'.child name f :=
    (h hnearest.holds v' hown).not_hasColumn (hab.valid _ R hR) hbd
  cases h with
  | output _ hscope hk => exact absurd hk (hkind _ hscope)
  | @column v f path t hcolumn hrest htable =>
    obtain ⟨near, level, far, hlevels, hnear, hholds, hmem, hf⟩ := hcolumn
    rcases hnearest.eq_or_mem hlevels hholds with rfl | hbefore
    · exact ⟨_, rfl, scope_of_mem_owned hmem⟩
    cases h' with
    | output => cases hv'
    | column hcolumn' =>
      cases hv'
      obtain ⟨_, _, _, _, _, _, _, hf'⟩ := hcolumn'
      exact absurd hf' (hlacks (hnear _ hbefore))
    | relation hpos' hshort' hfirst' _ _ _ hcolumn' =>
      cases hv'
      rcases hshort' with hlt | hone
      · obtain ⟨_, _, hvs', _, hmeans⟩ := hfirst'
        refine absurd (hmeans' hmeans) (htable _ hpos' hlt v' ?_)
        rw [← hvisible, hvs']
        exact List.mem_append_right _ List.mem_cons_self
      · have hlevel : level ∈ c.store.chain scope := by
          rw [hchain, hlevels]
          exact List.mem_append_right _ List.mem_cons_self
        have hf' := hf.later hbd
        obtain ⟨row, ⟨R', hR', _⟩, _⟩ := hf
        exact absurd hf'
          ((hcolumn' hone level hlevel hholds v hmem).not_hasColumn (hbd.valid _ R' hR') (.refl d))
  | @relation k v row path t hpos hshort hfirst hrow hrest hlonger hcolumn =>
    have hmem : v ∈ c.store.visible scope := by
      obtain ⟨_, _, hvs, _⟩ := hfirst
      rw [hvisible, hvs]
      exact List.mem_append_right _ List.mem_cons_self
    have hmeans : Means s c v.child (names.take k) := by
      obtain ⟨_, _, _, _, hmeans⟩ := hfirst
      exact hmeans.later hbc
    cases h' with
    | output => cases hv'
    | column hcolumn' _ htable' =>
      cases hv'
      rcases hshort with hlt | hone
      · exact absurd hmeans (htable' k hpos hlt v hmem)
      · obtain ⟨_, _, _, _, _, _, _, hf'⟩ := hcolumn'
        exact absurd hf' (hlacks (hcolumn hone _ hlevel))
    | @relation k' v' row' path' t' hpos' hshort' hfirst' _ _ hlonger' _ =>
      cases hv'
      have hmem' : v' ∈ a.store.visible scope := by
        obtain ⟨_, _, hvs', _⟩ := hfirst'
        rw [← hvisible, hvs']
        exact List.mem_append_right _ List.mem_cons_self
      have hsame (hk : names.take k = names.take k') : ∃ w, some v = some w ∧ w.scope = σ := by
        rw [← hk, hvisible] at hfirst'
        exact ⟨v', congrArg some (hfirst.eq_of_later hbc hcd hab hfirst' hR), hσ⟩
      rcases Nat.lt_trichotomy k k' with hlt | rfl | hlt
      · rcases hshort' with hshort' | hone
        · obtain ⟨_, _, _, _, hm⟩ := hfirst'
          exact absurd (hmeans' hm) (hlonger k' hlt hshort' v' hmem')
        · exact hsame (by rw [List.take_of_length_le (by omega), List.take_of_length_le (by omega)])
      · exact hsame rfl
      · rcases hshort with hshort | hone
        · exact absurd hmeans (hlonger' k hlt hshort v hmem)
        · exact hsame (by rw [List.take_of_length_le (by omega), List.take_of_length_le (by omega)])

end Later

end SqlAnalysis.Analysis

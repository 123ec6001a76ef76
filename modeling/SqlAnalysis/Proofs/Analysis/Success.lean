import SqlAnalysis.Proofs.Analysis.History
import SqlAnalysis.Proofs.SqlType.Row

/-!
Runs that succeed. A relation that has been validated is valid, and its row type is one that the
type table keeps; a query block is valid after its clauses have been validated one after the other.
-/

namespace SqlAnalysis.Analysis

variable {id : NamespaceId}

/-- Steps that register nothing lead from one state to the other, and have come to their end. -/
def Proceeds (a b : Analysis) : Prop := SameDeclared a b ∧ Advances a b

namespace Proceeds

theorem trans (h : Proceeds a b) (h' : Proceeds b c) :
    Proceeds a c := ⟨h.1.trans h'.1, h.2.trans h'.2⟩

theorem later (h : Proceeds a b) : Later a b := ⟨h.1, h.2.types, h.2.kept⟩

theorem inProgress (h : Proceeds a b) (hid : InProgress id a) :
    InProgress id b := Stable.advances hid h.2

end Proceeds

theorem Keeps.proceeds (hx : Keeps s (SameDeclared a) H x) (h : x s a = (.ok v, b)) :
    Proceeds a b :=
  hx.ok (.refl a) h

theorem Keeps.later (hx : Keeps s (SameDeclared a) H x) (h : x s a = (.ok v, b)) : Later a b :=
  (hx.proceeds h).later

theorem validate_ok (hn : a.store.namespace? id = some n)
    (h : (engine steps).validate id target s a = (.ok (), b)) :
    ∃ row, b.store.status? id = some (.valid row) := by
  cases steps with
  | zero => cases h
  | succ steps =>
    have h : validate (engine steps) id target s a = (.ok (), b) := h
    cases hst : n.status with
    | valid row =>
      rw [validate, run_bind_get] at h
      simp only [hn, hst] at h
      cases h
      exact ⟨row, by rw [Store.status?, hn, Option.map_some, hst]⟩
    | inProgress published =>
      rw [validate, run_bind_get] at h
      simp only [hn, hst] at h
      cases h
    | unvalidated =>
      rw [run_validate hn hst] at h
      have hid : a.store.status? id = some n.status := by rw [Store.status?, hn, Option.map_some]
      have hopen := And.intro trivial (inProgress_withStatus hid none)
      have hrow := rowType_keeps (s := s) (I := fun a => True ∧ InProgress id a)
        (engine_settles s steps).frame (Requests.opens_any target n) (relates_withStatus hn hopen)
        (fun _ ha => ha.2) (fun _ => .of_listing _ _) (publish_keeps fun _ _ _ _ => trivial)
      rcases hres : rowType (engine steps) id n target s
        (a.withStatus id (.inProgress none)) with ⟨halt | row, c⟩ <;>
        rw [hres] at h
      · cases h
      · obtain ⟨before, hprogress⟩ := (hrow.ok hopen hres).1.2
        cases h
        refine ⟨row, notes_withRow.advances.status?_valid ?_⟩
        rw [status?_withStatus, if_pos rfl, hprogress, Option.map_some]

theorem validate_later (h : (engine steps).validate id target s a = (.ok (), b)) : Later a b :=
  Keeps.later ((engine_sameDeclared s a steps).validate id trivial) h

theorem rowOf_ok (hn : a.store.namespace? id = some n)
    (h : (engine steps).rowOf id target s a = (.ok row, b)) :
    Later a b ∧ b.store.status? id = some (.valid row) := by
  obtain ⟨_, b', hval, h⟩ := run_bind_ok h
  obtain ⟨row', hrow⟩ := validate_ok hn hval
  obtain ⟨n', hn', hst⟩ := Option.map_eq_some_iff.mp hrow
  have hread : namespaceOfId id s b' = (.ok n', b') :=
    congrArg (fun n => (Except.ok n, b')) (by rw [hn']; rfl)
  rw [run_bind, hread] at h
  cases h
  rw [Namespace.row, Namespace.row?, hst]
  exact ⟨validate_later hval, hrow⟩

theorem validate_valid (h : a.store.status? id = some (.valid row)) :
    (engine (steps + 1)).validate id target s a = (.ok (), a) := by
  obtain ⟨n, hn, hst⟩ := Option.map_eq_some_iff.mp h
  change validate (engine steps) id target s a = _
  rw [validate, run_bind_get]
  simp only [hn, hst]
  rfl

theorem rowOf_valid (h : a.store.status? id = some (.valid row)) :
    (engine (steps + 1)).rowOf id target s a = (.ok row, a) := by
  obtain ⟨n, hn, hst⟩ := Option.map_eq_some_iff.mp h
  have hread : namespaceOfId id s a = (.ok n, a) :=
    congrArg (fun n => (Except.ok n, a)) (by rw [hn]; rfl)
  rw [Engine.rowOf, run_bind, validate_valid h]
  dsimp only
  rw [run_bind, hread]
  simp only [Namespace.row, Namespace.row?, hst, Status.row?, Option.getD_some]
  rfl

/-- The clauses of a block have been validated in the order in which they take effect. -/
structure Clauses (e : Engine) (s : Setting) (id : NamespaceId) (query : NodeId)
    (target row : SqlType) (a a₁ a₂ a₃ a₄ a₅ a₆ b : Analysis) : Prop where
  source : ifPresent (a.tree.select query).source (validateFrom e (a.tree.select query).source)
    s a = (.ok (), a₁)
  condition : ifPresent (a.tree.select query).condition
    (validateCondition e (a.clause query .source) (a.tree.select query).condition .filter)
    s a₁ = (.ok (), a₂)
  groups : validateGroups e (a.clause query .source) (a.tree.elements (a.tree.select query).groups)
    s a₂ = (.ok (), a₃)
  having : ifPresent (a.tree.select query).having (do
    validateCondition e (a.clause query .list) (a.tree.select query).having .having
    checkGrouped e (a.clause query .list) (a.tree.select query).having) s a₃ = (.ok (), a₄)
  windows : declareWindows e (a.clause query .source) []
    (a.tree.elements (a.tree.select query).windows) s a₄ = (.ok (), a₅)
  list : validateSelectList e id query (a.clause query .list) target s a₅ = (.ok row, a₆)
  order : validateOrder e query row s (a₆.withStatus id (.inProgress (some row))) = (.ok (), b)

theorem validateSelect_ok (h : validateSelect e id query target s a = (.ok row, b)) :
    ∃ a₁ a₂ a₃ a₄ a₅ a₆, Clauses e s id query target row a a₁ a₂ a₃ a₄ a₅ a₆ b := by
  rw [validateSelect, run_bind_get] at h
  obtain ⟨_, a₁, hsource, h⟩ := run_bind_ok h
  obtain ⟨_, a₂, hcondition, h⟩ := run_bind_ok h
  obtain ⟨_, a₃, hgroups, h⟩ := run_bind_ok h
  obtain ⟨_, a₄, hhaving, h⟩ := run_bind_ok h
  obtain ⟨_, a₅, hwindows, h⟩ := run_bind_ok h
  obtain ⟨row', a₆, hlist, h⟩ := run_bind_ok h
  obtain ⟨_, a₇, hpublish, h⟩ := run_bind_ok h
  obtain ⟨_, a₈, horder, h⟩ := run_bind_ok h
  cases h
  cases hpublish
  exact ⟨a₁, a₂, a₃, a₄, a₅, a₆, hsource, hcondition, hgroups, hhaving, hwindows, hlist, horder⟩

namespace Clauses

variable (h : Clauses (engine steps) s id query target row a a₁ a₂ a₃ a₄ a₅ a₆ b)
include h

theorem proceeds_source : Proceeds a a₁ :=
  Keeps.proceeds (ifPresent_keeps (validateFrom_keeps (engine_sameDeclared s _ steps) trivial))
    h.source

theorem proceeds_condition : Proceeds a₁ a₂ :=
  Keeps.proceeds (ifPresent_keeps
    (validateCondition_keeps (engine_sameDeclared s _ steps) trivial trivial _ _)) h.condition

theorem proceeds_groups : Proceeds a₂ a₃ :=
  Keeps.proceeds (validateGroups_keeps (engine_sameDeclared s _ steps) (fun _ _ => trivial))
    h.groups

theorem proceeds_having : Proceeds a₃ a₄ := by
  have he := engine_sameDeclared s a₃ steps
  exact Keeps.proceeds (ifPresent_keeps
    (.seq (validateCondition_keeps he trivial trivial _ _) fun _ => he.check _ trivial)) h.having

theorem proceeds_windows : Proceeds a₄ a₅ := by
  have he := engine_sameDeclared s a₄ steps
  exact Keeps.proceeds (declareWindows_keeps he.toServes trivial (fun _ _ => he.window _ trivial)
    (fun _ _ _ hb => he.windowReaches hb trivial) []) h.windows

theorem proceeds_clauses : Proceeds a₁ a₅ :=
  h.proceeds_condition.trans <| h.proceeds_groups.trans <|
    h.proceeds_having.trans h.proceeds_windows

theorem inProgress_windows (hprogress : InProgress id a) : InProgress id a₅ :=
  (h.proceeds_source.trans h.proceeds_clauses).inProgress hprogress

theorem proceeds_list (hprogress : InProgress id a₅) : Proceeds a₅ a₆ := by
  obtain ⟨⟨hsame, _⟩, hadv⟩ := Keeps.ok (validateSelectList_keeps (engine_sameDeclared
    s a₅ steps).frame (fun _ _ _ _ _ _ => ⟨trivial, .inl trivial, .inl trivial⟩)
    (Lists.of_listing _ _) (fun _ ha => ha.2) _) ⟨.refl a₅, hprogress⟩ h.list
  exact ⟨hsame, hadv⟩

theorem later_order : Later (a₆.withStatus id (.inProgress (some row))) b :=
  Keeps.later (validateOrder_keeps (engine_sameDeclared s _ steps) (fun _ _ => trivial)) h.order

theorem later_published (hprogress : InProgress id a) : Later a₆ b := by
  have hlist := h.proceeds_list (h.inProgress_windows hprogress)
  exact (Later.withStatus (hlist.inProgress (h.inProgress_windows hprogress)).ne_valid _).trans
    h.later_order

theorem later_source (hprogress : InProgress id a) : Later a₁ b :=
  h.proceeds_clauses.later.trans <| (h.proceeds_list (h.inProgress_windows hprogress)).later.trans
    (h.later_published hprogress)

end Clauses

theorem Attested.exists_validateSelect (hf : Attested s P Q a₀ a)
    (hn : a.store.namespace? id = some n) (hk : n.kind = .select) (hst : n.status = .valid row) :
    ∃ steps target b c, SameDeclared a₀ b ∧ InProgress id b ∧ validateSelect (engine steps)
      id n.node target s b = (.ok row, c) ∧ Later c a ∧ P b ∧ P c ∧ Q n.declared c a := by
  obtain ⟨n', steps, target, b, c, hn', hb, hprogress, hrun, hc⟩ :=
    hf.runs id row (by rw [Store.status?, hn, Option.map_some, hst])
  have hdecl : n' = n.declared := by
    rw [← hf.same.declared, Store.declared?, hn, Option.map_some] at hn'
    exact (Option.some.inj hn').symm
  subst hdecl
  rw [rowType, show n.declared.kind = .select from hk] at hrun
  exact ⟨steps, target, b, c, hb, hprogress, hrun, hc⟩

theorem building_row_ok (h : building (TypeTable.row fields) s a = (.ok row, b)) :
    ∃ k, b.types.get? k = some row := by
  cases h
  exact ⟨_, TypeTable.get?_intern⟩

theorem validateTable_ok (h : validateTable id node s a = (.ok row, b)) (hrow : row.isRow) :
    ∃ k, b.types.get? k = some row := by
  rw [validateTable, run_bind_get] at h
  obtain ⟨reader, _, _, h⟩ := run_bind_ok h
  obtain ⟨answer, _, _, h⟩ := run_bind_ok h
  match answer, h with
  | .error _, h => cases h
  | .ok none, h =>
    obtain ⟨_, _, _, h⟩ := run_bind_ok h
    exact absurd h (refuse_ne_ok _)
  | .ok (some table), h =>
    obtain ⟨_, _, _, h⟩ := run_bind_ok h
    cases h
    exact TypeTable.get?_adopt hrow

theorem validateSelectList_ok (h : validateSelectList e id query scope target s a = (.ok row, b)) :
    ∃ k, b.types.get? k = some row := by
  rw [validateSelectList, run_bind_get] at h
  obtain ⟨_, _, _, h⟩ := run_bind_ok h
  obtain ⟨_, _, _, h⟩ := run_bind_ok h
  rw [run_bind_get] at h
  obtain ⟨_, _, _, h⟩ := run_bind_ok h
  obtain ⟨_, _, _, h⟩ := run_bind_ok h
  exact building_row_ok h

theorem validateValues_ok (h : validateValues e scope node target s a = (.ok row, b)) :
    ∃ k, b.types.get? k = some row := by
  have hset (r : NodeId) (type : SqlType) : Keeps s (fun _ => True) (fun _ => True)
    (setType r type) := setType_keeps
  rw [validateValues, run_bind_get] at h
  obtain ⟨_, _, _, h⟩ := run_bind_ok h
  dsimp only at h
  split at h
  all_goals
    obtain ⟨_, _, _, h⟩ := run_bind_ok h
    obtain ⟨_, _, _, h⟩ := run_bind_ok h
    obtain ⟨type, c, hbuild, h⟩ := run_bind_ok h
    obtain ⟨_, d, hmark, h⟩ := run_bind_ok h
    cases h
    obtain ⟨k, hk⟩ := building_row_ok hbuild
    refine ⟨k,
      ((?_ : Keeps s (fun _ => True) (fun _ => True) _).ok trivial hmark).2.types.kept k _ hk⟩
    grind

theorem validateUnnest_ok (h : validateUnnest e scope node s a = (.ok row, b)) :
    ∃ k, b.types.get? k = some row := by
  rw [validateUnnest, run_bind_get] at h
  obtain ⟨_, _, _, h⟩ := run_bind_ok h
  obtain ⟨type, _, _, h⟩ := run_bind_ok h
  cases type with
  | multiset element _ => cases element <;> exact building_row_ok h
  | _ => exact absurd h (refuse_ne_ok _)

theorem validateCollect_ok (h : validateCollect e node s a = (.ok row, b)) :
    ∃ k, b.types.get? k = some row := by
  rw [validateCollect, run_bind_get, run_bind_get] at h
  cases hns : a.namespaceAt (a.tree.operand node 0) with
  | none =>
    rw [hns] at h
    exact absurd h (refuse_ne_ok _)
  | some ns =>
    rw [hns] at h
    obtain ⟨_, _, _, h⟩ := run_bind_ok h
    cases h
    exact ⟨_, TypeTable.get?_intern⟩

theorem rowType_ok (hk : n.kind ≠ .change)
    (h : rowType (engine steps) id n target s a = (.ok row, b)) (hrow : row.isRow) :
    ∃ k, b.types.get? k = some row := by
  cases hkind : n.kind <;> simp only [rowType, hkind] at h
  case table => exact validateTable_ok h hrow
  case select =>
    obtain ⟨_, _, _, _, _, _, hclauses⟩ := validateSelect_ok h
    obtain ⟨k, hk⟩ := validateSelectList_ok hclauses.list
    exact ⟨k, hclauses.later_order.types.kept k row hk⟩
  case join =>
    obtain ⟨_, _, _, h⟩ := run_bind_ok h
    obtain ⟨_, _, _, h⟩ := run_bind_ok h
    obtain ⟨_, _, _, h⟩ := run_bind_ok h
    exact building_row_ok h
  case setOp =>
    obtain ⟨_, _, _, h⟩ := run_bind_ok h
    obtain ⟨_, _, _, h⟩ := run_bind_ok h
    obtain ⟨_, h⟩ := run_unless_ok h
    obtain ⟨_, _, _, h⟩ := run_bind_ok h
    exact building_row_ok h
  case values => exact validateValues_ok h
  case unnest => exact validateUnnest_ok h
  case collect => exact validateCollect_ok h
  case change => exact absurd hkind hk

end SqlAnalysis.Analysis

import SqlAnalysis.Proofs.Analysis.Mark

/-!
Calls and other expressions. The rules for a node ask the engine about other nodes, and which ones
they ask about is what decides whether an analysis comes to an end. `Engine.Serves` collects what an
engine has to answer.
-/

namespace SqlAnalysis.Analysis

/-- The engine answers the requests `R`. -/
structure Engine.Serves (e : Engine) (s : Setting) (I : Analysis → Prop)
    (H : Halt → Prop) (R : Requests) : Prop where
  counted : ∃ steps, e = engine steps
  validate : ∀ ns {t}, R.targets t → Keeps s I H (e.validate ns t)
  derive : ∀ {scope id}, R.scopes scope → R.typed id → Keeps s I H (e.derive scope id)
  infer : ∀ {scope id t}, R.scopes scope → R.Offers id t → Keeps s I H (e.infer scope id t)
  untargeted : R.targets .unknown
  absent : R.typed none
  vacant : R.expected none
  ungrouped : ∀ {a scope}, I a → R.scopes scope → R.scopes (a.store.ungrouped scope)
  framed : ∀ {b}, Framed s I b → I b

namespace Engine.Serves

variable {e : Engine} {id : NodeId}

theorem frame [Stable P] (he : e.Serves s I H R) : e.Serves s (fun a => I a ∧ P a) H R where
  counted := he.counted
  validate ns _ ht := (he.validate ns ht).frame
  derive hs hx := (he.derive hs hx).frame
  infer hs hx := (he.infer hs hx).frame
  untargeted := he.untargeted
  absent := he.absent
  vacant := he.vacant
  ungrouped ha hs := he.ungrouped ha.1 hs
  framed h := by
    obtain ⟨a, ha, hnotes, _⟩ := h.exists_notes
    exact ⟨he.framed (h.imp fun h => h.1), Stable.advances ha.2 hnotes.advances⟩

theorem relation (he : e.Serves s I H R) (ns : NamespaceId) :
    Keeps s I H (e.validate ns .unknown) :=
  he.validate ns he.untargeted

theorem inferUnknown (he : e.Serves s I H R) {scope : ScopeId} {id : Link} (hs : R.scopes scope)
    (hx : R.typed id) : Keeps s I H (e.infer scope id .unknown) :=
  he.infer hs (.inr ⟨rfl, hx⟩)

end Engine.Serves

section Calls

variable [Refusing I H]

theorem checkCollations_keeps {id : NodeId} : Keeps s I H (checkCollations id o ts) := by
  unfold checkCollations checkCollation
  grind

theorem escapeOf_keeps : Keeps s I H (escapeOf args) := by
  unfold escapeOf
  grind

theorem refuseNested_keeps : Keeps s I H (refuseNested args) := by
  unfold refuseNested
  grind

variable [Hushed I]

omit [Refusing I H] in
theorem describe_keeps : Keeps s I H (describe ts) :=
  building_keeps (.mapM fun t => (TypeTable.withNullable_steady true t).bind fun _ => .pure _)

theorem chooseOverload_from (ha : I a) {id : NodeId}
    (hmark : ∀ chosen, choice? s.operators o ts = some chosen → I (a.withOverload id chosen)) :
    GivesFrom s I H (chooseOverload id o ts) (fun _ _ => True) a := by
  have hrefused {x : AnalysisM Operator} (hx : Keeps s I H x) : GivesFrom
    s I H x (fun _ _ => True) a := hx a ha
  unfold chooseOverload
  refine .bind_read ?_
  dsimp only
  split
  · exact hrefused (.seq describe_keeps fun _ => .seq (similar_keeps _ _) fun _ => .refuse)
  · rename_i hcandidates
    split
    · exact .refuse ha
    · rename_i c cs hfilter
      split
      · rename_i chosen hfind
        refine .of_ok (b := a.withOverload id chosen) rfl (hmark chosen ?_) (.of_eq rfl) trivial
        rw [choice?, hcandidates, hfilter, hfind]
      · refine hrefused (.seq describe_keeps fun _ => ?_)
        split <;> exact .refuse

theorem checkPattern_keeps {id : NodeId} : Keeps s I H (checkPattern id o args) := by
  unfold checkPattern
  refine .seq escapeOf_keeps fun escape => ?_
  split
  · exact Keeps.pure _
  · split
    · refine .bind_get fun a _ => ?_
      split
      · exact modify_keeps fun _ => ⟨.of_eq rfl, rfl, rfl, rfl, rfl, rfl, rfl, rfl⟩
      · exact Keeps.pure _
    · exact Keeps.pure _

theorem returnType_keeps {id : NodeId} : Keeps s I H (returnType id o ts) := by
  unfold returnType
  split
  · exact .refuse
  split
  · exact .fault
  · refine .seq (building_keeps (ReturnRule.typeOf_steady _ _ _)) fun answer => ?_
    split <;> grind [describe_keeps]

theorem refuseNested_ok (h : refuseNested args s a = (.ok (), b)) : b = a := by
  rw [refuseNested, run_bind_get] at h
  cases hnested : args.findSome? a.tree.findAggregate <;> rw [hnested] at h <;> cases h
  rfl

theorem mem_of_mem_typedOperands (h : y ∈ typedOperands t c) : y ∈ c.operands := by
  unfold typedOperands at h
  grind

end Calls

/-- What makes a call one whose operator is looked for: its type is asked for, or that of a windowed
call of it. -/
def Called (W : Requests) (I : Analysis → Prop) (id : NodeId) (c : Call) : Prop :=
  W.typed (some id) ∧ c.kind.isQuery = false ∨ ∃ j c', W.typed (some j) ∧
    (∀ a, I a → a.tree.call? (some j) = some c') ∧ c'.kind = .over ∧ c'.operand 0 = some id ∧
    c.operator.isAggregate

section Rules

variable [Hushed I] [Refusing I H] {e : Engine} [Heeding s W I] {c : Call} {id : NodeId}
  (he : e.Serves s I H R) (hs : R.scopes scope)
include he hs

omit [Hushed I] in
theorem operandTypes_keeps (h : ∀ y ∈ args, R.typed y) :
    Keeps s I H (operandTypes e scope args) := by
  induction args with
  | nil => exact Keeps.pure _
  | cons arg args ih =>
    rw [operandTypes]
    grind [he.derive]

theorem deriveOperator_keeps (h : ∀ y ∈ c.operands, R.typed y)
    (hc : ∀ a, I a → a.tree.call? (some id) = some c) (hid : Called W I id c) (windowed : Bool) :
    Keeps s I H (deriveOperator e scope id c windowed) := by
  obtain ⟨steps, rfl⟩ := he.counted
  have hargs (a : Analysis) (y : Link) (hy : y ∈ typedOperands a.tree c) : R.typed y :=
    h y (mem_of_mem_typedOperands hy)
  have hchosen (chosen : Operator) (a : Analysis) (ts : List SqlType) : Keeps s I H (do
      checkCollations id chosen ts
      if isPatternMatch chosen.kind then checkPattern id chosen (typedOperands a.tree c)
      returnType id chosen ts) := by
    grind [checkCollations_keeps, checkPattern_keeps, returnType_keeps]
  -- the operands are typed in the state in which they are found out
  have htyped {a : Analysis} (ha : I a) {scope' : ScopeId}
    (hs : R.scopes scope') : GivesFrom s I H (do
      let ts ← operandTypes (engine steps) scope' (typedOperands a.tree c)
      let chosen ← chooseOverload id c.operator ts
      checkCollations id chosen ts
      if isPatternMatch chosen.kind then checkPattern id chosen (typedOperands a.tree c)
      returnType id chosen ts) (fun _ _ => True) a := by
    refine .bind (operandTypes_keeps he hs (hargs a)) ha fun ts b hrun hb hadv => ?_
    refine .seq (chooseOverload_from hb fun chosen hchosen => ?_) fun chosen => hchosen chosen a ts
    refine Heeding.mark (s := s) (W := W)
      (.operator (hid.imp_right ?_) ha (hc a ha) hrun hb hadv hchosen)
    rintro ⟨j, c', hj, hc', hrest⟩
    exact ⟨j, c', hj, hc' a ha, hrest⟩
  refine .of_from fun a ha => .bind_get ?_
  dsimp only
  split
  · exact ⟨⟨ha, .refl a⟩, Refusing.refused ha ⟨_, rfl⟩⟩
  split
  · refine .bind refuseNested_keeps ha fun _ b hrun hb _ => .bind_get ?_
    cases refuseNested_ok hrun
    exact htyped hb (he.ungrouped hb hs)
  · exact .bind_get (htyped ha hs)

omit [Hushed I] [Refusing I H] in
theorem deriveKnown_keeps (h : ∀ y ∈ ids, R.typed y) : Keeps s I H (deriveKnown e scope ids) := by
  induction ids with
  | nil => exact Keeps.pure _
  | cons id ids ih =>
    rw [deriveKnown]
    grind [he.derive]

theorem deriveList_keeps (h : ∀ y ∈ items, R.typed y) :
    Keeps s I H (deriveList e scope id items) := by
  unfold deriveList deriveAll
  grind [he.derive]

section

variable (h : ∀ y ∈ c.operands, R.typed y)
include h

omit [Refusing I H] in
theorem deriveRow_keeps : Keeps s I H (deriveRow e scope c) := by
  unfold deriveRow
  grind [deriveKnown_keeps]

theorem deriveMultiset_keeps : Keeps s I H (deriveMultiset e scope id c) := by
  unfold deriveMultiset
  grind [deriveKnown_keeps]

theorem deriveField_keeps : Keeps s I H (deriveField e scope id c) := by
  unfold deriveField
  refine .seq (he.derive hs (c.operand_of_operands h he.absent 0)) fun record =>
    .bind_get fun a _ => ?_
  split
  · exact .refuse
  · grind

end

omit [Hushed I] in
theorem checkConditions_keeps (h : ∀ y ∈ whens, R.typed y) :
    Keeps s I H (checkConditions e scope whens) := by
  unfold checkConditions
  grind [he.derive]

omit [Hushed I] [Refusing I H] he hs in
theorem setOverload_keeps (hid : W.typed (some id))
    (hc : ∀ a, I a → a.tree.call? (some id) = some c)
    (hk : c.kind = .existsRows ∨ c.kind = .cast ∨ c.kind = .isIn ∨ c.kind = .isNotIn) :
    Keeps s I H (setOverload id c.operator) :=
  Runs.modify fun a ha =>
    ⟨Heeding.mark (s := s) (W := W) (.special hid ha (hc a ha) hk), Advances.of_eq rfl⟩

theorem deriveCast_keeps (h : ∀ y ∈ c.operands, R.typed y) (hid : W.typed (some id))
    (hc : ∀ a, I a → a.tree.call? (some id) = some c) (hk : c.kind = .cast) :
    Keeps s I H (deriveCast e scope id c) := by
  have hops := c.operand_of_operands h he.absent
  have hoverload : Keeps s I H (setOverload id c.operator) :=
    setOverload_keeps hid hc (.inr (.inl hk))
  unfold deriveCast
  grind [he.derive]

omit [Refusing I H] in
theorem deriveExists_keeps (h : ∀ y ∈ c.operands, R.typed y) (hid : W.typed (some id))
    (hc : ∀ a, I a → a.tree.call? (some id) = some c) (hk : c.kind = .existsRows) :
    Keeps s I H (deriveExists e scope id c) := by
  unfold deriveExists
  refine .seq (he.derive hs (c.operand_of_operands h he.absent 0)) fun _ => ?_
  exact .seq (setOverload_keeps hid hc (.inl hk)) fun _ => building_keeps TypeTable.scalar_steady

end Rules

end SqlAnalysis.Analysis

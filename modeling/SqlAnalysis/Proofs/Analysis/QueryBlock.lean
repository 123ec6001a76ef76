import SqlAnalysis.Proofs.Analysis.SelectList

/-!
The run that has made a query block valid. `BlockRun` follows the block through its clauses, from
the state in which its relation was opened to the end of the analysis.
-/

namespace SqlAnalysis.Analysis

variable {root : Link} {id : NamespaceId}

/-- The run through the clauses of a query block that is valid in the end; `P` held when it
started. -/
structure BlockRun (s : Setting) (P : Analysis → Prop) (steps : Nat) (target row : SqlType)
    (id : NamespaceId) (n : Namespace) (a₀ b a₁ a₂ a₃ a₄ a₅ a₆ c fin : Analysis) :
    Prop extends Clauses (engine steps) s id n.node target row b a₁ a₂ a₃ a₄ a₅ a₆ c where
  relation : fin.store.namespace? id = some n
  kind : n.kind = .select
  same : SameDeclared a₀ b
  holds : P b
  progress : InProgress id b
  later : Later c fin
  lists : fin.selectLists.get? n.node = c.selectLists.get? n.node

theorem Attested.exists_blockRun (h : Attested s P SameList a₀ fin)
    (hn : fin.store.namespace? id = some n) (hk : n.kind = .select) (hst : n.status = .valid row) :
    ∃ steps target b a₁ a₂ a₃ a₄ a₅ a₆ c,
      BlockRun s P steps target row id n a₀ b a₁ a₂ a₃ a₄ a₅ a₆ c fin := by
  obtain ⟨steps, target, b, c, hb, hprogress, hrun, hc, hP, _, hlists⟩ :=
    h.exists_validateSelect hn hk hst
  obtain ⟨a₁, a₂, a₃, a₄, a₅, a₆, hclauses⟩ := validateSelect_ok hrun
  exact ⟨steps, target, b, a₁, a₂, a₃, a₄, a₅, a₆, c, hclauses, hn, hk,
    hb, hP, hprogress, hc, hlists hk⟩

namespace BlockRun

variable (h : BlockRun s P steps target row id n a₀ b a₁ a₂ a₃ a₄ a₅ a₆ c fin)
include h

section Passing

variable [Hushed P] (he : (engine steps).Settles s P (fun _ => True) .any)
include he

theorem passes_source : Passes P b a₁ :=
  ⟨fun hb => (Keeps.ok (ifPresent_keeps (validateFrom_keeps he trivial)) hb h.source).1,
    h.proceeds_source⟩

theorem passes_condition : Passes P a₁ a₂ :=
  ⟨fun ha => (Keeps.ok (ifPresent_keeps (validateCondition_keeps he trivial trivial _ _))
    ha h.condition).1, h.proceeds_condition⟩

omit [Hushed P] in
theorem passes_groups : Passes P a₂ a₃ :=
  ⟨fun ha => (Keeps.ok (validateGroups_keeps he (fun _ _ => trivial)) ha h.groups).1,
    h.proceeds_groups⟩

theorem passes_having : Passes P a₃ a₄ :=
  ⟨fun ha => (Keeps.ok (ifPresent_keeps (.seq (validateCondition_keeps he trivial trivial _ _)
    fun _ => he.check _ trivial)) ha h.having).1, h.proceeds_having⟩

omit [Hushed P] in
theorem passes_windows : Passes P a₄ a₅ :=
  ⟨fun ha => (Keeps.ok (declareWindows_keeps he.toServes trivial (fun _ _ => he.window _ trivial)
    (fun _ _ _ hb => he.windowReaches hb trivial) []) ha h.windows).1, h.proceeds_windows⟩

theorem passes_to_having : Passes P a₁ a₃ := (h.passes_condition he).trans (h.passes_groups he)

theorem passes_to_list : Passes P a₁ a₅ :=
  (h.passes_to_having he).trans ((h.passes_having he).trans (h.passes_windows he))

end Passing

theorem same_end : SameDeclared a₀ fin :=
  have hend : Later a₁ fin := (h.later_source h.progress).trans h.later
  h.same.trans (h.proceeds_source.1.trans hend.toSameDeclared)

theorem declared : a₀.store.declared? id = some n.declared := by
  rw [← h.same_end.declared, Store.declared?, h.relation, Option.map_some]

variable (hp : Placed t root a₀)
include hp

theorem extends_tree : t.Extends b.tree := hp.tree ▸ h.same.tree

theorem exists_call : ∃ k, t.call? (some n.node) = some k ∧ k.kind = .select :=
  hp.call_of_select h.same_end h.relation h.kind

theorem select_eq (hu : t.Extends u) : u.select (some n.node) = t.select (some n.node) := by
  obtain ⟨k, hk, _⟩ := h.exists_call hp
  simp only [Tree.select, hu.call?_eq (.of_form? (Tree.form?_of_call? hk))]

theorem reached : t.Spans root n.node := by
  obtain ⟨m, hm, hdecl⟩ := h.same_end.namespace? h.relation
  exact Namespace.node_of_declared hdecl ▸ hp.reached id m hm

theorem source_valid (ho : t.Ordered) {child : Child}
    (hchild : ShownOf t (t.select (some n.node)).source a₀ child) :
    ∃ R, a₁.store.status? child.source = some (.valid R) := by
  obtain ⟨m, hm, hitem, hpresents⟩ := hchild
  have hsource := h.source
  rw [h.select_eq hp (h.extends_tree hp)] at hsource
  have hsome : (t.select (some n.node)).source.isSome := by
    cases hx : (t.select (some n.node)).source with
    | some i => rfl
    | none =>
      rw [hx] at hitem
      cases hitem with
      | under hc | left hc | right hc => cases hc
  rw [ifPresent, if_pos hsome] at hsource
  obtain ⟨row, ns, m', hns, hm', hnode, hst⟩ :=
    hp.hasRow_of_relation ho h.same hitem hpresents hsource
  have hdraws : t.Draws n.node (some m.node) := by
    obtain ⟨k, hk, hkind⟩ := h.exists_call hp
    rw [Tree.select, hk] at hitem
    exact ⟨k, hk, hkind, hitem⟩
  obtain ⟨m₀, hm₀, hdecl⟩ := (h.same.trans h.proceeds_source.1).namespace? hm'
  have heq : ns = child.source :=
    hp.single n.node child.source ns m m₀ (h.reached hp) hdraws hm hm₀
      ((Namespace.node_of_declared hdecl).trans hnode)
  exact ⟨row, by rw [← heq, Store.status?, hm', Option.map_some, hst]⟩

theorem exists_block (hreg : Registered t a₀) : ∃ block, BlockScopes a₀ n.node block := by
  obtain ⟨m, hm, hdecl⟩ := h.same_end.namespace? h.relation
  obtain ⟨σ, hσ⟩ := Option.isSome_iff_exists.mp
    (hreg.blocks id m hm ((Namespace.kind_of_declared hdecl).trans h.kind) .list)
  rw [Namespace.node_of_declared hdecl] at hσ
  exact hp.blocks _ σ hσ

theorem exists_groupedBlock (hreg : Registered t a₀)
    (hshows : ∀ q σ, a₀.clauses.get? (q, .source) = some σ → Shows t q σ a₀)
    (ho : t.Ordered) (hagg : t.isAggregating (some n.node)) (hblock : BlockScopes a₀ n.node block) :
    ∃ agg own, agg.groups = t.elements (t.select (some n.node)).groups ∧
      GroupedBlock id block.list block.source agg own a₁ := by
  have hsame : SameDeclared a₀ a₁ := h.same.trans h.proceeds_source.1
  have hscope (σ : ScopeId) : a₁.store.scope? σ = a₀.store.scope? σ := by
    rw [Store.scope?, hsame.scopes]; rfl
  obtain ⟨own, hown, _, hselect⟩ := hreg.clauses _ .source _ (hblock.clauses .source)
  obtain ⟨agg, hlist, _, hkind⟩ := hreg.clauses _ .list _ (hblock.clauses .list)
  rw [if_pos hagg] at hkind
  have hparent : agg.parent = some block.source := by
    rcases hblock.list with heq | ⟨sc, hsc, _, hparent⟩
    · rw [show Block.scope block .list = block.source from heq] at hlist
      cases hown.symm.trans hlist
      cases hkind.1.symm.trans hselect
    · cases hlist.symm.trans hsc
      exact hparent
  obtain ⟨own', hown', hof, _⟩ := hshows _ _ (hblock.clauses .source)
  cases hown.symm.trans hown'
  refine ⟨agg, own, hkind.2, h.proceeds_source.inProgress h.progress, ?_,
    (hscope _).trans hlist, hkind.1, hparent, (hscope _).trans hown, hselect, fun v hv => ?_⟩
  · intro σ sc p hσ
    exact hreg.outward σ sc p (hscope σ ▸ hσ)
  · obtain ⟨p, hp', rfl⟩ := List.mem_map.mp hv
    exact h.source_valid hp ho (hof _ (List.fst_mem_of_mem_zipIdx hp'))

omit hp in
theorem clause_eq (hblock : BlockScopes a₀ n.node block) (cl : Clause) :
    b.clause n.node cl = block.scope cl := by
  rw [clause, h.same.clauses, hblock.clauses, Option.getD_some]

theorem has_operand (ho : t.Ordered) (k : Nat) : t.Has (t.operand (some n.node) k) := by
  obtain ⟨call, hcall, _⟩ := h.exists_call hp
  rw [Tree.operand, hcall]
  exact call.operand_of_operands (fun _ => .part ho (Tree.form?_of_call? hcall)) .absent k

theorem exists_outputs (ho : t.Ordered) (hblock : BlockScopes a₀ n.node block) :
    ∃ o e, t.Extends a₅.tree ∧ (∀ x ∈ t.elements (t.select (some n.node)).list, t.Has x) ∧
      selectItems (engine steps) block.list target {} (t.elements (t.select (some n.node)).list)
      s a₅ = (.ok o, e) ∧ Later e fin ∧ fin.selectLists.get? n.node = some o.items ∧
      (TypeTable.row o.fields).Built fin.types row := by
  have hbefore : Proceeds b a₅ := h.proceeds_source.trans h.proceeds_clauses
  have hprogress := hbefore.inProgress h.progress
  have hext : t.Extends a₅.tree := (h.extends_tree hp).trans hbefore.1.tree
  have hrun := h.list
  rw [h.clause_eq hblock] at hrun
  obtain ⟨o, e, d, hitems, _, hed, hbuild, hkept⟩ :=
    validateSelectList_steps hp h.declared h.kind (h.same.trans hbefore.1) hprogress hrun
  have hlist : t.Has (t.select (some n.node)).list := by
    rw [Tree.select_list]
    exact h.has_operand hp ho 1
  rw [show a₅.tree.select (some n.declared.node) = _ from h.select_eq hp hext,
    hext.elements_eq hlist] at hitems
  have hpublished : ListKept a₀ id n.node o.items (a₆.withStatus id (.inProgress (some row))) := by
    obtain ⟨published, hst⟩ := hkept.progress
    exact ⟨hkept.same.trans sameDeclared_withStatus, inProgress_withStatus hst _, hkept.list⟩
  have hend : ListKept a₀ id n.node o.items c :=
    (Keeps.ok (validateOrder_keeps (ListKept.engine_settles hp h.declared h.kind steps)
      (fun _ _ => trivial)) hpublished h.order).1
  have hlater : Later a₆ fin := (h.later_published h.progress).trans h.later
  have hbuilt : (TypeTable.row o.fields).Built fin.types row ∧ Later d a₆ := by
    cases hbuild
    exact ⟨.of_run TypeTable.row_steady rfl hlater.types,
      .of_notes (Silent.build (TypeTable.row_steady d.types).1).toNotes⟩
  exact ⟨o, e, hext, fun x hx => .elements ho hlist hx, hitems,
    hed.later.trans (hbuilt.2.trans hlater), h.lists.trans hend.list, hbuilt.1⟩

theorem exists_recorded [Hushed P] [Entering s P]
    (he : (engine steps).Settles s P (fun _ => True) .any) (ho : t.Ordered)
    (hblock : BlockScopes a₀ n.node block) :
    ∃ parts e, fin.selectLists.get? n.node = some parts.flatten ∧ Later e fin ∧
      List.Forall₂ (RecordedAs s steps P t fin.tree block.list a₅ e)
        (t.elements (t.select (some n.node)).list) parts := by
  obtain ⟨o, e, hext, hhas, hitems, hlater, hlist, _⟩ := h.exists_outputs hp ho hblock
  obtain ⟨parts, hparts, hall⟩ := selectItems_ok he ho hext hhas hitems hlater.tree
  exact ⟨parts, e, by rw [hlist, hparts]; rfl, hlater, hall⟩

theorem exists_checked_having [Hushed P] [Entering s P]
    (he : (engine steps).Settles s P (fun _ => True) .any) (ho : t.Ordered)
    (hblock : BlockScopes a₀ n.node block) (hsome : (t.select (some n.node)).having.isSome) :
    ∃ e, Later e fin ∧
      PassesCheck s steps P fin.tree block.list a₁ e (t.select (some n.node)).having := by
  have hhas : t.Has (t.select (some n.node)).having := by
    rw [Tree.select_having]
    exact h.has_operand hp ho 5
  have hrun := h.having
  rw [h.clause_eq hblock, h.select_eq hp (h.extends_tree hp), ifPresent, if_pos hsome] at hrun
  obtain ⟨_, d, hcondition, hcheck⟩ := run_bind_ok hrun
  have hpass : Passes P a₃ d := ⟨fun ha =>
    (Keeps.ok (validateCondition_keeps he trivial trivial _ _) ha hcondition).1, Keeps.proceeds
    (validateCondition_keeps (engine_sameDeclared s a₃ steps) trivial trivial _ _) hcondition⟩
  have hbefore : Passes P a₁ d := (h.passes_to_having he).trans hpass
  have hend : Later a₄ fin := h.proceeds_windows.later.trans <|
    (h.proceeds_list (h.inProgress_windows h.progress)).later.trans
    ((h.later_published h.progress).trans h.later)
  have hext : t.Extends d.tree :=
    (h.extends_tree hp).trans (h.proceeds_source.1.tree.trans hbefore.2.1.tree)
  exact ⟨a₄, hend, d, a₄, hbefore, .of_extends ho (hp.tree ▸ h.same_end.tree) hext hhas,
    hcheck, .refl a₄⟩

end BlockRun

end SqlAnalysis.Analysis

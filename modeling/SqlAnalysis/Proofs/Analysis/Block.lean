import SqlAnalysis.Proofs.Analysis.History
import SqlAnalysis.Proofs.Analysis.References

/-!
Query blocks that were found valid. A block with a window that refers to itself is not among them:
whoever asks for the window is refused, and a block asks for all windows that it declares.
-/

namespace SqlAnalysis.Analysis

/-- Windows are declared one after the other, so none of them refers to itself. -/
theorem declareWindows_circular [Recording I]
    (he : e.Settles s I (fun _ => True) .any) (hx : x ∈ ids)
    (h : ∀ a, I a → a.tree.Circular (windowNamed? a.tree s.matcher (a.store.selectOf scope)) x)
    (seen : List String) :
    Runs s I (fun _ => True) (declareWindows e scope seen ids) fun _ => False := by
  induction ids generalizing seen with
  | nil => cases hx
  | cons id ids ih =>
    rw [declareWindows]
    refine .bind_get fun a ha => ?_
    dsimp only
    split
    · refine .bind_read ?_
      split
      · exact .refuse_bind
      rcases List.mem_cons.mp hx with rfl | hx
      · refine .bind (Q := fun _ => False)
          (Gives.of_ok (resolveWindow_keeps trivial) fun a _ _ ha hrun _ => ?_) fun _ => False.elim
        obtain ⟨_, _, _, hunfolds, _⟩ := windowUpTo_expands hrun
        exact hunfolds.not_circular (h a ha)
      · refine setFrame_runs he.toServes trivial (fun _ _ => .declaration) ?_ _ (ih hx _)
        exact resolveWindow_runs (he.window scope trivial) trivial fun b hb =>
          he.windowReaches hb trivial
    · exact .refuse

theorem validateSelect_circular [Recording I] (he : e.Settles s I (fun _ => True) .any)
    {query : NodeId} (h : ∀ a, I a → ∃ x ∈ a.tree.elements (a.tree.select query).windows, ∀ b, I b →
    b.tree.Circular (windowNamed? b.tree s.matcher (b.store.selectOf (a.clause query .source))) x) :
    Runs s I (fun _ => True) (validateSelect e ns query target) fun _ => False := by
  unfold validateSelect
  refine .bind_get fun a ha => ?_
  obtain ⟨x, hx, hcircular⟩ := h a ha
  refine .seq (ifPresent_keeps (validateFrom_keeps he trivial)) fun _ => ?_
  refine .seq (ifPresent_keeps (validateCondition_keeps he trivial trivial _ _)) fun _ => ?_
  refine .seq (validateGroups_keeps he (fun _ _ => trivial)) fun _ =>
    .seq (ifPresent_keeps ?_) fun _ => ?_
  · exact .seq (validateCondition_keeps he trivial trivial _ _) fun _ => he.check _ trivial
  · exact .bind (declareWindows_circular he hx hcircular []) fun _ => False.elim

variable {id : NamespaceId}

theorem Registered.selectOf_clause (hreg : Registered t a₀) (hn : a₀.store.namespace? id = some n)
    (hk : n.kind = .select) : a₀.store.selectOf (a₀.clause n.node .source) = some n.node := by
  obtain ⟨scope, hscope⟩ := Option.isSome_iff_exists.mp (hreg.blocks id n hn hk .source)
  obtain ⟨sc, hsc, hnode, hkind⟩ := hreg.clauses _ _ _ hscope
  rw [clause, hscope, Option.getD_some,
    Store.selectOf_eq_node hreg.outward hsc (by rw [hkind]; rfl), hnode]

theorem Attested.not_circular (hreg : Registered t a₀) (ht : t.Ordered) (h : Founded s a₀ a)
    (hrow : a.store.status? id = some (.valid row)) (hn : a₀.store.namespace? id = some n)
    (hk : n.kind = .select) (hw : w ∈ t.elements (t.select n.node).windows) :
    ¬ t.Circular (windowNamed? t s.matcher (some n.node)) w := by
  intro hcircular
  obtain ⟨n', steps, target, b, c, hn', hb, _, hrun, _⟩ := h.runs id row hrow
  have hdecl : n' = n.declared := by
    rw [Store.declared?, hn, Option.map_some] at hn'
    exact (Option.some.inj hn').symm
  have hrow : rowType (engine steps) id n' target =
      validateSelect (engine steps) id n.node target := by
    rw [hdecl, rowType, show n.declared.kind = .select from hk]
    rfl
  have hquery : t.Has (some n.node) := by
    obtain ⟨f, hf⟩ := hreg.nodes id n hn
    exact .of_form? hf
  have hwindows : t.Has (t.select (some n.node)).windows := t.select_windows _ ▸ .operand ht _ 6
  have hnone : Runs s (SameDeclared a₀) (fun _ => True)
      (validateSelect (engine steps) id n.node target) fun _ => False := by
    refine validateSelect_circular (engine_sameDeclared s a₀ steps)
      (fun a ha => ⟨w, ?_, fun b hb => ?_⟩)
    · have hext : t.Extends a.tree := hreg.tree ▸ ha.tree
      rw [show a.tree.select (some n.node) =
        t.select (some n.node) by simp only [Tree.select, hext.call?_eq hquery]]
      rwa [hext.elements_eq hwindows]
    · have hext : t.Extends b.tree := hreg.tree ▸ hb.tree
      have hscope : b.store.selectOf (a.clause n.node .source) = some n.node := by
        rw [Store.selectOf, Store.chain_of_scopes hb.scopes, clause, ha.clauses, ha.root]
        exact hreg.selectOf_clause hn hk
      rw [hscope, funext (hext.windowNamed?_eq ht hquery s.matcher)]
      exact hcircular.extends hext
  have hend := (hnone b hb).2
  rw [← hrow, hrun] at hend
  exact hend

end SqlAnalysis.Analysis

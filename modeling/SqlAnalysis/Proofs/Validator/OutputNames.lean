import SqlAnalysis.Proofs.Validator.GroupedColumns

/-!
The names of the output columns of a query. They are given one after the other, so that no two of
them match; the row type of the query is the one that the type table keeps for columns of these
names.
-/

namespace SqlAnalysis

theorem Analysis.resolveOutput_of_nodup (hsc : a.store.scope? σ = some sc)
    (h : ((((a.relation? sc.node).bind Namespace.row?).elim [] SqlType.fields).map fun f =>
    s.matcher.key f.1).Nodup) (x : Link) (name : String) :
    ∃ found, resolveOutput σ x name s a = (.ok found, a) := by
  rw [resolveOutput, run_bind_get, hsc]
  obtain ⟨kind, node, parent, host, children, groups⟩ := sc
  cases kind with
  | orderBy =>
    dsimp only at h ⊢
    rw [run_bind_read]
    generalize ((a.relation? node).bind Namespace.row?).elim [] SqlType.fields = fields at h ⊢
    have hfound : ((fields.filter fun f => s.matcher.same f.1 name).map fun f =>
        s.matcher.key f.1).Nodup :=
      h.sublist (List.filter_sublist.map _)
    have hsame (f : Field) (hf : f ∈ fields.filter fun f => s.matcher.same f.1 name) : s.matcher.key
        f.1 = s.matcher.key name := by
      simpa [NameMatcher.same] using (List.mem_filter.mp hf).2
    generalize fields.filter (fun f => s.matcher.same f.1 name) = found at hfound hsame ⊢
    rcases found with _ | ⟨f, _ | ⟨g, rest⟩⟩
    · exact ⟨_, rfl⟩
    · exact ⟨_, rfl⟩
    · refine absurd ?_ (List.nodup_cons.mp hfound).1
      simp [hsame f, hsame g]
  | _ => exact ⟨none, rfl⟩

namespace Validator

open Analysis

variable {v : Validator} {text : String} {ops : Registry} {st st' : Statement} {r : Result}

/-- The output columns of a query block that is found valid have names that do not match each other,
and each has the name chosen for it unless a column before it has a name that matches. -/
theorem outputs_named (hm : KeepsNumbers v.setting.matcher)
    (hparse : Script.parse ops text = .ok st)
    (hcanonical : st.canonical v.setting.operators = .ok st') (hr : (validate st v).1 = .ok r)
    {id : NamespaceId} {n : Namespace} (hn : r.analysis.store.namespace? id = some n)
    (hk : n.kind = .select) {row : SqlType} (hrow : n.status = .valid row) :
    ∃ steps scope chosen fields, r.analysis.clauses.get? (n.node, .list) = some scope ∧
      Chosen v.setting steps scope st'.tree r.analysis 0
        (st'.tree.elements (st'.tree.select (some n.node)).list) chosen ∧
      NamesFor v.setting.matcher chosen (fields.map Prod.fst) ∧
      (fields.map fun f => v.setting.matcher.key f.1).Nodup ∧
      (TypeTable.row fields).Built r.analysis.types row ∧
      ∀ a σ sc, a.store.scope? σ = some sc →
        ((a.relation? sc.node).bind Namespace.row?).elim [] SqlType.fields = fields →
        ∀ x name, ∃ found, resolveOutput σ x name v.setting a = (.ok found, a) := by
  obtain ⟨st'', a₀, hcanonical', ho, _, hbegun⟩ := exists_begun hparse hr
  cases hcanonical.symm.trans hcanonical'
  have hattested := hbegun.attested (P := FunctionsApart v.setting)
    (fun _ id st h => functionsApart_withStatus h) (functionsApart_of_blank hbegun.blank)
  obtain ⟨steps, target, b, a₁, a₂, a₃, a₄, a₅, a₆, c, hrun⟩ := hattested.exists_blockRun hn hk hrow
  obtain ⟨block, hblock⟩ := hrun.exists_block hbegun.placed hbegun.registered
  obtain ⟨o, e, hext, hhas, hitems, hlater, _, hbuilt⟩ :=
    hrun.exists_outputs hbegun.placed ho hblock
  have hnone : Outputs.Named v.setting {} [] := .nil
  obtain ⟨chosen, hchosen, hnamed⟩ := selectItems_named hm ho hext hhas hnone hitems hlater
  have hnodup := hnamed.nodup
  rw [List.map_map] at hnodup
  refine ⟨steps, block.list, chosen, o.fields, hattested.same.clauses ▸ hblock.clauses .list,
    hchosen, hnamed, hnodup, hbuilt, ?_⟩
  intro a σ sc hsc hfields
  exact resolveOutput_of_nodup hsc (hfields ▸ hnodup)

/-- A query is valid that names two columns alike. -/
theorem outputs_named_twice :
    ∃ (st : Statement) (r : Result) (n : Namespace) (row : SqlType) (chosen : List String)
      (fields : List Field), Script.parse .standard "(SELECT :list [(AS 1 A) (AS 2 A)])" = .ok st ∧
      (validate st noTables).1 = .ok r ∧ r.analysis.store.namespace? 0 = some n ∧
      n.status = .valid row ∧ NamesFor noTables.setting.matcher chosen (fields.map Prod.fst) ∧
      (TypeTable.row fields).Built r.analysis.types row := by
  have hrun : acceptsBlock noTables "(SELECT :list [(AS 1 A) (AS 2 A)])" fun _ _ _ => true := by
    decide +kernel
  obtain ⟨st, st', r, n, row, hst, hst', hr, hn, hkind, hrow, _⟩ := exists_of_acceptsBlock hrun
  obtain ⟨_, _, chosen, fields, _, _, hnamed, _, hbuilt, _⟩ :=
    outputs_named (v := noTables) (fun _ _ => rfl) hst hst' hr hn hkind hrow
  exact ⟨st, r, n, row, chosen, fields, hst, hr, hn, hrow, hnamed, hbuilt⟩

end Validator

end SqlAnalysis

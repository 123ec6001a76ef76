import SqlAnalysis.Proofs.Canonical.Form

/-!
The node at a place of a text. Nodes of a text lie in each other as their brackets do, so the
narrowest node over a place is also the one that is deepest under the root, provided that the reader
has left none out.
-/

namespace SqlAnalysis.Script

/-- The places of a text's nodes nest, and the node at a place is the innermost one over it. -/
theorem nodeAt_innermost {st : Statement} {text : String} (h : parse ops text = .ok st)
    (hplain : Plain ops (scan text).tokens st.tree) :
    (∀ i n, st.tree.node? (some i) = some n →
      ∃ p, n.span = some p ∧ p.first < p.last ∧ p.last ≤ Text.byteLength text.toList) ∧
    (∀ x y p q, st.tree.Part x y → st.tree.span? x = some p → st.tree.span? y = some q →
      p.first < q.first ∧ q.last < p.last) ∧
    (∀ x f, st.tree.form? x = some f → f.parts.Pairwise st.tree.Beside) ∧
    ∀ pos, (∀ i, st.tree.nodeAt pos = some i ↔ st.tree.Innermost st.root pos i) ∧
      (st.tree.nodeAt pos = none ↔ ∀ i, st.tree.Spans st.root i → ¬ st.tree.Over pos i) := by
  have hnests := parse_nests h
  have hfound (pos : Int) (i : NodeId) : st.tree.nodeAt pos = some i ↔
      st.tree.Innermost st.root pos i :=
    hnests.nodeAt_iff (parse_reads h).1 fun _ => parse_whole h hplain
  refine ⟨fun i n => parse_spans h, fun x y p q => hnests.inside, fun x f => hnests.beside,
    fun pos => ⟨hfound pos, fun hnone i _ => ?_, fun hnot => ?_⟩⟩
  · exact Tree.nodeAt_eq_none hnone
  · refine Option.eq_none_iff_forall_ne_some.mpr fun i hi => ?_
    have hin := (hfound pos i).mp hi
    exact hnot i hin.reached hin.covers

/-- The name in a list among the operands of a sum. -/
theorem nodeAt_innermost_list : let text := "(+ [A \x7bDATE '2020-01-01'\x7d] ?)"
    ∃ st i, parse .standard text = .ok st ∧ Plain .standard (scan text).tokens st.tree ∧
    st.tree.nodeAt 4 = some i ∧
      st.tree.Innermost st.root 4 i := by
  intro text
  have hrun : (parse .standard text).toOption.any (fun st => (List.range st.tree.size).all (fun i =>
      (st.tree.form? (some i)).all (collationOf · |>.isNone) &&
        (st.tree.call? (some i)).all (·.operator.slots.isEmpty)) &&
        st.tree.nodeAt 4 == some 0) = true := by
    decide +kernel
  obtain ⟨st, hst, hrun⟩ := exists_of_any hrun
  obtain ⟨hnodes, hat⟩ := Bool.and_eq_true_iff.mp hrun
  have hplain : Plain .standard (scan text).tokens st.tree := by
    have hform {i : NodeId} {f : Form}
        (hf : st.tree.form? (some i) = some f) : collationOf f = none ∧
        ∀ c, f = .call c → c.operator.slots = [] := by
      have hi := List.all_eq_true.mp hnodes i (List.mem_range.mpr (Tree.lt_size_of_form? hf))
      obtain ⟨hcollation, hslots⟩ := Bool.and_eq_true_iff.mp hi
      rw [hf] at hcollation
      refine ⟨Option.isNone_iff_eq_none.mp hcollation, fun c hc => ?_⟩
      rw [Tree.call?_of_form? (hc ▸ hf)] at hslots
      exact List.isEmpty_iff.mp hslots
    refine ⟨fun hf => (hform hf).1, fun hc _ _ _ _ => ?_⟩
    rintro ⟨operand, _, k, x, hk, _⟩
    have hk := slot?_eq_some hk
    rw [(hform (Tree.form?_of_call? hc)).2 _ rfl] at hk
    cases hk
  have hat := beq_iff_eq.mp hat
  exact ⟨st, 0, hst, hplain, hat, ((nodeAt_innermost hst hplain).2.2.2 4).1 0 |>.mp hat⟩

end SqlAnalysis.Script

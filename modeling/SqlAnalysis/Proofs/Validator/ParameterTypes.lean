import SqlAnalysis.Proofs.Analysis.Parameters
import SqlAnalysis.Proofs.Canonical.Parameters
import SqlAnalysis.Proofs.Number.Digits
import SqlAnalysis.Proofs.Validator.Begun

/-!
One type for each parameter. A parameter that the canonical form does not copy has one node, so it
has one type, and the record of parameters shows that type under its number. The value of a case
distinction is copied for each of its tests, and a parameter in it may come to have several types.
-/

namespace SqlAnalysis

namespace Result

def parameterFields (r : Result) : List Field :=
  (r.analysis.parameters.entries.mergeSort fun a b => decide (a.1 ≤ b.1)).map fun (k, t) =>
    ("?" ++ Number.intText k, t)

theorem mem_parameterFields {r : Result} (h : r.analysis.parameters.get? k = some t) :
    ("?" ++ Number.intText k, t) ∈ r.parameterFields := by
  refine List.mem_map.mpr ⟨(k, t), ?_, rfl⟩
  exact (List.mergeSort_perm _ _).mem_iff.mpr (Table.mem_entries_of_get? h)

theorem nodup_parameterFields {r : Result} (h : r.analysis.parameters.keys.Nodup) :
    (r.parameterFields.map Prod.fst).Nodup := by
  have hnames : r.parameterFields.map Prod.fst =
      ((r.analysis.parameters.entries.mergeSort fun a b => decide (a.1 ≤ b.1)).map Prod.fst).map
      fun k => "?" ++ Number.intText k := by
    rw [parameterFields, List.map_map, List.map_map]
    rfl
  rw [hnames]
  refine List.Nodup.map (fun k l hkl =>
    Number.intText_injective (String.append_right_inj _ |>.mp hkl)) ?_
  exact (((List.mergeSort_perm _ _).map Prod.fst).nodup_iff).mpr h

end Result

namespace Statement

theorem not_copies {s : Statement}
    (h : (List.range s.tree.size).all (fun i => (s.tree.call? (some i)).all fun c =>
      (Canonical.copiedParts ops s.tree c).isEmpty)) : ¬ s.Copies ops k := by
  rintro ⟨i, c, hc, x, hx, _⟩
  have hi : i < s.tree.size := Tree.lt_size_of_form? (Tree.form?_of_call? hc)
  have hnone := List.all_eq_true.mp h i (List.mem_range.mpr hi)
  rw [hc, Option.all_some, List.isEmpty_iff] at hnone
  rw [hnone] at hx
  cases hx

end Statement

namespace Validator

open Analysis

variable {v : Validator} {text : String} {ops : Registry} {st : Statement} {r : Result}

/-- All nodes of a parameter that is not copied have one type, and the record of parameters has that
type under the number of the parameter, unless another row goes by the text of the record. -/
theorem parameter_has_one_type (hparse : Script.parse ops text = .ok st)
    (hr : (validate st v).1 = .ok r) (hkeyed : v.types.Keyed) {k : Int}
    (hk : ¬ st.Copies v.setting.operators k) {i : NodeId} {t : SqlType}
    (hi : r.tree.form? (some i) = some (.parameter k)) (ht : r.analysis.typeOf.get? i = some t) :
    (∀ j u, r.tree.form? (some j) = some (.parameter k) →
      r.analysis.typeOf.get? j = some u → u = t) ∧
    ∀ T : TypeTable, (∀ row, T.get? (SqlType.row r.parameterFields false).key = some row →
        row = .row r.parameterFields false) →
      ∃ place, (r.parameterRow T).1.field? ("?" ++ Number.intText k) = some (place, t) := by
  obtain ⟨st', a₀, hcanonical, ho, hroot, hbegun⟩ := exists_begun hparse hr
  have htyped := ParametersTyped.of_begun hbegun ho hroot hkeyed
  have hext : st'.tree.Extends r.tree := hbegun.placed.tree ▸ htyped.same.tree
  have hsingle {j : NodeId} {u : SqlType} (hj : r.tree.form? (some j) = some (.parameter k))
      (hu : r.analysis.typeOf.get? j = some u) : j = i := by
    have hold {j : NodeId} {u : SqlType} (hj : r.tree.form? (some j) = some (.parameter k))
        (hu : r.analysis.typeOf.get? j = some u) : st'.tree.form? (some j) = some (.parameter k) :=
      (hext.form?_eq (htyped.entered j u k hu hj).1).symm.trans hj
    exact Statement.canonical_parameter hparse hcanonical hk (hold hj hu) (hold hi ht)
  refine ⟨fun j u hj hu => ?_, fun T hrow => ?_⟩
  · cases hsingle hj hu
    exact Option.some.inj (hu.symm.trans ht)
  · obtain ⟨_, t', ht'⟩ := htyped.entered i t k ht hi
    obtain ⟨j, hj, hu⟩ := htyped.shown k t' ht'
    cases hsingle hj hu
    cases hu.symm.trans ht
    have hbuilt : (r.parameterRow T).1 = .row r.parameterFields false := by
      change (TypeTable.intern (.row r.parameterFields false) T).1 = _
      unfold TypeTable.intern
      split
      · exact hrow _ ‹_›
      · rfl
    rw [hbuilt]
    exact SqlType.exists_field?_of_mem (t := .row r.parameterFields false)
      (Result.nodup_parameterFields htyped.numbers) (Result.mem_parameterFields ht')

/-- The value of a case distinction with one test. -/
theorem parameter_has_one_type_value :
    ∃ (st : Statement) (r : Result) (i : NodeId) (t : SqlType) (place : Nat),
      Script.parse .standard "(CASE :value ? :when [1] :then [2])" = .ok st ∧
      (validate st noTables).1 = .ok r ∧ r.tree.form? (some i) = some (.parameter 0) ∧
      r.analysis.typeOf.get? i = some t ∧ t.toText = "INTEGER" ∧
      (r.parameterRow {}).1.field? "?0" = some (place, t) := by
  have hrun : (Script.parse .standard "(CASE :value ? :when [1] :then [2])").toOption.any (fun st =>
      (List.range st.tree.size).all (fun i => (st.tree.call? (some i)).all fun c =>
        (Canonical.copiedParts .standard st.tree c).isEmpty) &&
      (validate st noTables).1.toOption.any fun r => r.tree.parameter? (some 0) == some 0 &&
        (r.analysis.typeOf.get? 0).any fun t => t.toText == "INTEGER") = true := by
    decide +kernel
  obtain ⟨st, hst, hrun⟩ := Script.exists_of_any hrun
  obtain ⟨hcopies, hrun⟩ := Bool.and_eq_true_iff.mp hrun
  obtain ⟨r, hr, hrun⟩ := Script.exists_of_any hrun
  obtain ⟨hi, hrun⟩ := Bool.and_eq_true_iff.mp hrun
  obtain ⟨t, ht, htext⟩ := Option.any_eq_true _ _ |>.mp hrun
  have hform := Tree.form?_of_parameter? (beq_iff_eq.mp hi)
  obtain ⟨_, hrow⟩ :=
    parameter_has_one_type hst hr TypeTable.keyed_empty (Statement.not_copies hcopies) hform ht
  obtain ⟨place, hplace⟩ := hrow {} nofun
  exact ⟨st, r, 0, t, place, hst, hr, hform, ht, beq_iff_eq.mp htext, hplace⟩

end Validator

end SqlAnalysis

import SqlAnalysis.Proofs.Analysis.FromClause
import SqlAnalysis.Proofs.Canonical.Branching
import SqlAnalysis.Proofs.Validator.Conclusion

/-!
Statements that are found valid. A result stands at the end of an analysis of the canonical form of
the statement, from a state in which the statement is registered and nothing has been written down
about its nodes.
-/

namespace SqlAnalysis.Validator

open Analysis

theorem exists_begun (hparse : Script.parse ops text = .ok st) (hr : (validate st v).1 = .ok r) :
    ∃ st' a₀, st.canonical v.setting.operators = .ok st' ∧ st'.tree.Ordered ∧
      st'.tree.Has st'.root ∧ Begun v.setting st'.tree st'.root v.types a₀ r.analysis := by
  obtain ⟨st', a, hcanonical, hrun, rfl⟩ := exists_analyse hr
  obtain ⟨ho, hroot⟩ := Statement.canonical_ordered hcanonical
  have hu := Statement.canonical_unshared hparse hcanonical
  obtain ⟨a₀, hbegun⟩ := analyse_begun hu ho hrun
  exact ⟨st', a₀, hcanonical, ho, hroot, hbegun⟩

def noTables : Validator where
  setting :=
    { operators := .standard
      catalog :=
        { table := fun _ => .ok none, type := fun _ => .ok none, objects := fun _ => .ok [] }
      config := {} }

/-- The text is a statement that is found valid, with a first query block in `P`. -/
def acceptsBlock (v : Validator) (text : String)
    (P : Statement → Result → Namespace → Bool) : Bool :=
  (Script.parse .standard text).toOption.any fun st =>
    (st.canonical .standard).toOption.any fun st' =>
      (validate st v).1.toOption.any fun r =>
        (r.analysis.store.namespace? 0).any fun n =>
          n.kind == .select && n.isValid && P st' r n

theorem exists_of_acceptsBlock {P : Statement → Result → Namespace → Bool}
    (h : acceptsBlock v text P) : ∃ st st' r n row, Script.parse .standard text = .ok st ∧
      st.canonical .standard = .ok st' ∧ (validate st v).1 = .ok r ∧
      r.analysis.store.namespace? 0 = some n ∧ n.kind = .select ∧ n.status = .valid row ∧
      P st' r n := by
  obtain ⟨st, hst, h⟩ := Script.exists_of_any h
  obtain ⟨st', hst', h⟩ := Script.exists_of_any h
  obtain ⟨r, hr, h⟩ := Script.exists_of_any h
  obtain ⟨n, hn, h⟩ := Option.any_eq_true _ _ |>.mp h
  simp only [Bool.and_eq_true, beq_iff_eq] at h
  obtain ⟨row, hrow⟩ := Status.isValid_iff.mp h.1.2
  exact ⟨st, st', r, n, row, hst, hst', hr, hn, h.1.1, hrow, h.2⟩

end SqlAnalysis.Validator

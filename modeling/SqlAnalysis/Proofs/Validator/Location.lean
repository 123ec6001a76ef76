import SqlAnalysis.Proofs.Canonical.Form
import SqlAnalysis.Proofs.Validator.Conclusion

/-!
Where a statement is refused. The canonical form and the analysis add nodes, but only where nodes of
the statement stand, or nowhere. So what is refused is refused where a node of the text stands.
-/

namespace SqlAnalysis

namespace Analysis

/-- All nodes stand where nodes of `t` do, or nowhere. -/
def StandsOn (t : Tree) (a : Analysis) : Prop := ∀ y, ∃ x, a.tree.span? y = t.span? x

instance : Recording (StandsOn t) where
  notes ha hn y := by
    obtain ⟨x, hx⟩ := hn.grows.spans y
    obtain ⟨z, hz⟩ := ha x
    exact ⟨z, hx.trans hz⟩

/-- A refusal is of something that stands where a node of `t` does, or nowhere. -/
def PointsTo (t : Tree) (h : Halt) : Prop := ∀ d, h = .refused d → ∃ x, d.span = t.span? x

instance : Refusing (StandsOn t) (PointsTo t) where
  refused := by
    rintro a _ ha ⟨y, hy⟩ d ⟨⟩
    obtain ⟨x, hx⟩ := ha y
    exact ⟨x, hy.trans hx⟩
  catalog := nofun
  faulted := nofun

instance : Refusing (Registered t) (PointsTo t) where
  refused := by
    rintro a _ ha ⟨y, hy⟩ d ⟨⟩
    exact ⟨y, ha.tree ▸ hy⟩
  catalog := nofun
  faulted := nofun

theorem analyse_pointsTo {types : TypeTable} {lookups : CatalogUse} {root : Link}
    (hrun : analyse root s (.start t types lookups) = (.error h, b)) : PointsTo t h := by
  obtain ⟨a, ha, _, ⟨h', hh, hrun'⟩ | ⟨_, hasked⟩⟩ :=
    analyse_cases (s := s) (H := PointsTo t) (.inl nofun) (registered_start t types lookups) root
  · cases hrun.symm.trans hrun'
    exact hh
  · have hsettles (steps : Nat) : (engine steps).Settles s (StandsOn t) (PointsTo t) .any :=
      engine_settles_any nofun (fun _ _ _ h => h) steps
    have hend := (hasked (hsettles _) (hsettles _).source trivial fun y => ⟨y, by rw [ha.tree]⟩).2
    rwa [hrun] at hend

end Analysis

namespace Validator

variable {v : Validator}

/-- What is refused of a text is refused where one of its nodes stands, or nowhere. -/
theorem refused_at_node {ops : Registry} {text : String} {st : Statement}
    (hst : Script.parse ops text = .ok st) {d : Diagnostic}
    (h : (validate st v).1 = .error (.analysis (.refused d))) :
    d.span = none ∨ ∃ i p, st.tree.span? (some i) = some p ∧ d.span = some p ∧
      p.first < p.last ∧ p.last ≤ Text.byteLength text.toList := by
  obtain ⟨e, he⟩ | ⟨st', hcanonical, hv⟩ := validate_cases v st
  · cases he.symm.trans h
  · rw [hv] at h
    rcases hrun : Analysis.analyse st'.root v.setting
      (.start st'.tree v.types v.lookups) with ⟨halt | _, b⟩ <;> rw [hrun] at h <;> cases h
    obtain ⟨y, hy⟩ := Analysis.analyse_pointsTo hrun d rfl
    obtain ⟨_, _, hnodes⟩ := Statement.canonical_sound (P := fun _ => True) (S := fun p => ∃ x,
      p = st.tree.span? x) ⟨fun _ => trivial, fun _ => trivial, fun _ => trivial⟩
      ⟨none, rfl⟩ hcanonical fun i n hn => ⟨trivial, some i, by rw [Tree.span?, hn]; rfl⟩
    obtain hnone | ⟨i, n, _, hn, hspan⟩ := st'.tree.span?_cases y
    · exact .inl (hy.trans hnone)
    obtain ⟨x, hx⟩ := (hnodes i n hn).2
    have hd : d.span = st.tree.span? x := hy.trans (hspan.trans hx)
    obtain hnone | ⟨j, m, rfl, hm, hspan⟩ := st.tree.span?_cases x
    · exact .inl (hd.trans hnone)
    obtain ⟨p, hp, hbounds⟩ := Script.parse_spans hst hm
    exact .inr ⟨j, p, hspan.trans hp, hd.trans (hspan.trans hp), hbounds⟩

def refusal? : Except Failure Result → Option Diagnostic
  | .error f => f.diagnostic?
  | .ok _ => none

theorem eq_of_refusal? (h : refusal? r = some d) : r = .error (.analysis (.refused d)) := by
  rcases r with (_ | _ | _ | _ | _) | _ <;> cases h
  rfl

/-- A name that is not known is refused where it stands. -/
theorem refused_at_node_name :
    let v : Validator := start { operators := .standard, catalog := .empty, config := {} }
    ∃ st d i, Script.parse .standard "(+ 1 SAL)" = .ok st ∧
      (validate st v).1 = .error (.analysis (.refused d)) ∧
      d.span = some ⟨5, 8⟩ ∧ st.tree.span? (some i) = some ⟨5, 8⟩ := by
  intro v
  have hrun : (Script.parse .standard "(+ 1 SAL)").toOption.any (fun st =>
      (refusal? (validate st v).1).any fun d => d.span == some ⟨5, 8⟩) = true := by
    decide +kernel
  obtain ⟨st, hst, hrun⟩ := Script.exists_of_any hrun
  obtain ⟨d, hd, hrun⟩ := (Option.any_eq_true _ _).mp hrun
  have hd := eq_of_refusal? hd
  have hspan := beq_iff_eq.mp hrun
  obtain hnone | ⟨i, p, hp, hsome, _⟩ := refused_at_node hst hd
  · cases hspan.symm.trans hnone
  · cases hspan.symm.trans hsome
    exact ⟨st, d, i, hst, hd, hspan, hp⟩

end Validator

end SqlAnalysis

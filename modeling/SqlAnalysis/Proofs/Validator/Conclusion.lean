import SqlAnalysis.Proofs.Analysis.Block
import SqlAnalysis.Proofs.Canonical.Leaves
import SqlAnalysis.Validator

/-!
Validation comes to an end. Unless a windowed call in the canonical form of a statement leads back
to itself through the keys of its window, the analysis ends with a result, an error or a fault, and
not because a bound is reached. Relations and windows that are defined by themselves are refused.
-/

namespace SqlAnalysis

namespace Analysis

variable {a₀ a : Analysis} {id : NamespaceId} {scope : ScopeId} {x : Link}

theorem validate_inProgress (h : InProgress id a) : RefusedForCycle s a (validate e id target) := by
  obtain ⟨row, hrow⟩ := h
  obtain ⟨n, hn, hst⟩ := Option.map_eq_some_iff.mp hrow
  refine ⟨{ cause := .cycle, span := a.tree.span? n.node }, ?_, rfl⟩
  rw [validate, run_bind_get]
  simp only [hn, hst]
  rfl

theorem resolveWindow_circle_of_registered (hreg : Registered t a₀)
    (ht : t.Ordered) (ha : SameDeclared a₀ a) (hx : t.Has x)
    (h : t.Circular (windowNamed? t s.matcher (a₀.store.selectOf scope)) x) :
    RefusedForCycle s a (resolveWindow scope x) := by
  have hext : t.Extends a.tree := hreg.tree ▸ ha.tree
  have hselect : a.store.selectOf scope = a₀.store.selectOf scope := by
    rw [Store.selectOf, Store.chain_of_scopes ha.scopes, ← Store.selectOf]
  refine resolveWindow_circle ht hext (hselect ▸ hreg.has_selectOf scope) hx ?_
  rw [hselect, funext (hext.windowNamed?_eq ht (hreg.has_selectOf scope) s.matcher)]
  exact h.extends hext

end Analysis

namespace Validator

variable {v : Validator} {st st' : Statement} {r : Result}

theorem canonical_of_canonicalForm (h : st.canonicalForm ops = .ok st') :
    st.canonical ops = .ok st' := by
  unfold Statement.canonicalForm at h
  cases hc : st.canonical ops with
  | error e =>
    rw [hc] at h
    cases h
  | ok form =>
    simp only [hc, bind, Except.bind] at h
    split at h <;> cases h
    rfl

/-- A validator stops at a statement without a canonical form; of any other it says what the
analysis of its canonical form says. -/
theorem validate_cases (v : Validator) (st : Statement) :
    (∃ e, (validate st v).1 = .error (.canonical e)) ∨
      ∃ st', st.canonical v.setting.operators = .ok st' ∧ (validate st v).1 =
      match Analysis.analyse st'.root v.setting (.start st'.tree v.types v.lookups) with
        | (.error halt, _) => .error (.analysis halt)
        | (.ok _, analysis) => .ok { root := st'.root, analysis } := by
  have hpure {α : Type} (x : α) (w : Validator) : (StateT.pure x : ValidatorM α) w = (x, w) := rfl
  cases h : st.canonicalForm v.setting.operators with
  | error e =>
    refine .inl ⟨e, ?_⟩
    simp only [validate, check, bind, StateT.bind, get, getThe, MonadStateOf.get,
      StateT.get, pure, h]
    rfl
  | ok st' =>
    refine .inr ⟨st', canonical_of_canonicalForm h, ?_⟩
    have hrun : run (Analysis.analyse st'.root) (.start st'.tree v.types v.lookups) v =
        let r := Analysis.analyse st'.root v.setting (.start st'.tree v.types v.lookups)
        (r, { v with types := r.2.types, lookups := r.2.lookups }) := rfl
    simp only [validate, check, fresh, bind, StateT.bind, get, getThe,
      MonadStateOf.get, StateT.get, pure, hpure, h]
    rw [hrun]
    rcases Analysis.analyse st'.root v.setting
      (.start st'.tree v.types v.lookups) with ⟨_ | _, b⟩ <;> rfl

theorem exists_analyse (hr : (validate st v).1 = .ok r) :
    ∃ st' b, st.canonical v.setting.operators = .ok st' ∧
      Analysis.analyse st'.root v.setting (.start st'.tree v.types v.lookups) = (.ok (), b) ∧
      r = { root := st'.root, analysis := b } := by
  obtain ⟨e, he⟩ | ⟨st', hst, hv⟩ := validate_cases v st
  · cases he.symm.trans hr
  rw [hr] at hv
  rcases hrun : Analysis.analyse st'.root v.setting
    (.start st'.tree v.types v.lookups) with ⟨_ | _, b⟩ <;>
    rw [hrun] at hv <;> cases hv
  exact ⟨st', b, hst, hrun, rfl⟩

theorem not_circular_of_valid (h : st.canonical v.setting.operators = .ok st')
    (hr : (validate st v).1 = .ok r) {id : NamespaceId}
    (hn : r.analysis.store.namespace? id = some n) (hk : n.kind = .select) {row : SqlType}
    (hrow : n.status = .valid row) (hw : w ∈ st'.tree.elements (st'.tree.select n.node).windows) :
    ¬ st'.tree.Circular (Analysis.windowNamed? st'.tree v.setting.matcher (some n.node)) w := by
  obtain ⟨ht, _⟩ := Statement.canonical_ordered h
  obtain ⟨a₀, hreg, hfounded⟩ := Analysis.analyse_founded (s := v.setting)
    (Analysis.registered_start st'.tree v.types v.lookups) st'.root
  obtain ⟨st'', b, hst, hrun, rfl⟩ := exists_analyse hr
  cases h.symm.trans hst
  rw [hrun] at hfounded
  obtain ⟨n₀, hn₀, hdecl⟩ := hfounded.same.namespace? hn
  have hnode := Namespace.node_of_declared hdecl
  have hkind := Namespace.kind_of_declared hdecl
  have hst : b.store.status? id = some (.valid row) := by
    rw [Store.status?, hn, Option.map_some, hrow]
  exact hnode ▸ hfounded.not_circular hreg ht hst hn₀ (hkind.trans hk) (hnode ▸ hw)

/-- The validation of a statement in whose canonical form no windowed call leads back to itself ends
with a result, an error or a fault, and not because a bound is reached. Whoever asks for a relation
that is being validated is refused for a cycle, and so is whoever asks for a window that refers to
itself, in every state of the analysis of the statement; a block that is found valid declares no
such window. -/
theorem validate_ends (v : Validator) (st : Statement)
    (hw : ∀ st', st.canonical v.setting.operators = .ok st' →
      st'.tree.WindowsEnd v.setting.matcher) :
    (validate st v).1 ≠ .error (.analysis .exhausted) ∧
    (∀ a id e target, Analysis.InProgress id a →
      Analysis.RefusedForCycle v.setting a (Analysis.validate e id target)) ∧
    ∀ st', st.canonical v.setting.operators = .ok st' →
      (∀ a₀ a scope x, Analysis.Registered st'.tree a₀ → Analysis.SameDeclared a₀ a →
        st'.tree.Has x →
        st'.tree.Circular
          (Analysis.windowNamed? st'.tree v.setting.matcher (a₀.store.selectOf scope)) x →
        Analysis.RefusedForCycle v.setting a (Analysis.resolveWindow scope x)) ∧
      ∀ r, (validate st v).1 = .ok r → ∀ id n row, r.analysis.store.namespace? id = some n →
        n.kind = .select → n.status = .valid row →
        ∀ w ∈ st'.tree.elements (st'.tree.select n.node).windows,
        ¬ st'.tree.Circular (Analysis.windowNamed? st'.tree v.setting.matcher (some n.node)) w := by
  refine ⟨?_, fun a id e target h => Analysis.validate_inProgress h, fun st' hst => ⟨?_, ?_⟩⟩
  · obtain ⟨e, he⟩ | ⟨st', hst, hv⟩ := validate_cases v st
    · rw [he]
      rintro ⟨⟩
    · obtain ⟨ht, hroot⟩ := Statement.canonical_ordered hst
      have hends := Analysis.analyse_concludes ht (hw st' hst) hroot
        (Analysis.registered_start st'.tree v.types v.lookups)
      rw [hv]
      rcases hrun : Analysis.analyse st'.root v.setting
        (.start st'.tree v.types v.lookups) with ⟨halt | _, b⟩
      · rw [hrun] at hends
        intro h
        cases h
        exact hends rfl
      · rintro ⟨⟩
  · obtain ⟨ht, _⟩ := Statement.canonical_ordered hst
    exact fun a₀ a scope x hreg ha hx h =>
      Analysis.resolveWindow_circle_of_registered hreg ht ha hx h
  · exact fun r hr id n row hn hk hrow w hmem => not_circular_of_valid hst hr hn hk hrow hmem

/-- `SELECT SUM(1) OVER w WINDOW w AS (PARTITION BY 1), c AS (c)` -/
def namedWindows : Statement where
  tree :=
    { nodes := #[
        { form := .literal (.exact (.ofInt 1)) },
        { form := .call ⟨{ name := "SUM" }, [some 0]⟩ },
        { form := .identifier { names := ["W"] } },
        { form := .call ⟨{ name := "OVER", kind := .over }, [some 1, some 2]⟩ },
        { form := .list [some 3] },
        { form := .identifier { names := ["W"] } },
        { form := .call ⟨{ name := "WINDOW", kind := .window }, [some 5, none, some 0]⟩ },
        { form := .identifier { names := ["C"] } },
        { form := .identifier { names := ["C"] } },
        { form := .call ⟨{ name := "WINDOW", kind := .window }, [some 7, some 8]⟩ },
        { form := .list [some 6, some 9] },
        { form := .call ⟨{ name := "SELECT", kind := .select },
            [none, some 4, none, none, none, none, some 10, none]⟩ }] }
  root := some 11

def bare : Validator where
  setting :=
    { operators.operators := [{ name := "SELECT", kind := .select },
        { name := "AS", kind := .naming }, { name := "=", kind := .equals }]
      catalog := .empty
      config := {} }

theorem canonical_namedWindows :
    namedWindows.canonical bare.setting.operators = .ok namedWindows := by decide +kernel

theorem windowsEnd_namedWindows : namedWindows.tree.WindowsEnd m := by
  intro q hq
  obtain ⟨f, hf⟩ := Tree.exists_form?_of_kind (by rw [hq]; decide)
  have hq : q = some 11 := by
    cases q with
    | none => cases hf
    | some i =>
      have hall : ∀ i < 12, namedWindows.tree.kind (some i) = .select → i = 11 := by decide
      rw [hall i (Tree.lt_size_of_form? hf) hq]
  subst hq
  have hordered : namedWindows.tree.Ordered :=
    (Statement.canonical_ordered canonical_namedWindows).1
  refine hordered.unwound_of_plain ?_
  rintro y ⟨name, w, hw, hy⟩
  have hclosed : ∀ y ∈ [none, some 0, some 5, some 6, some 7, some 8, some 9],
      ∀ z ∈ (namedWindows.tree.form? y).elim [] Form.parts,
      z ∈ [none, some 0, some 5, some 6, some 7, some 8, some 9] := by
    decide
  have hmem : y ∈ [none, some 0, some 5, some 6, some 7, some 8, some 9] := by
    induction hy with
    | refl =>
      have hw : some w ∈ [some 6, some 9] :=
        List.mem_of_find?_eq_some (Option.join_eq_some_iff.mp hw)
      rcases List.mem_pair.mp hw with h | h <;> cases h <;> decide
    | tail _ hz ih =>
      obtain ⟨f, hf, hz⟩ := hz
      exact hclosed _ ih _ (by rwa [hf])
  have hplain : ∀ y ∈ [none, some 0, some 5, some 6, some 7, some 8, some 9],
    namedWindows.tree.kind y ≠ .over := by decide
  exact hplain y hmem

/-- The second window of the statement refers to itself, and the first is the window of a windowed
call. -/
theorem validate_ends_namedWindows :
    let a := (Analysis.registerStatement namedWindows.root bare.setting
      (.start namedWindows.tree {} .direct)).2
    (validate namedWindows bare).1 ≠ .error (.analysis .exhausted) ∧
    Analysis.RefusedForCycle bare.setting (a.withStatus 0 (.inProgress none))
      (Analysis.validate (Analysis.engine 1) 0 .unknown) ∧
    Analysis.RefusedForCycle bare.setting a (Analysis.resolveWindow 1 (some 9)) := by
  intro a
  have hends := validate_ends bare namedWindows fun st' h => by
    rw [canonical_namedWindows] at h
    cases h
    exact windowsEnd_namedWindows
  have hreg : Analysis.Registered namedWindows.tree a :=
    (Analysis.registerStatement_keeps (s := bare.setting)
      (I := Analysis.Registered namedWindows.tree)
      (H := fun _ => True) (.inl trivial) namedWindows.root _
        (Analysis.registered_start namedWindows.tree {} .direct)).1.1
  have hname : namedWindows.tree.Refers
      (Analysis.windowNamed? namedWindows.tree bare.setting.matcher (some 11)) (some 8) (some 9) :=
    .name (i := { names := ["C"] }) rfl rfl
  obtain ⟨st, hstatus⟩ :=
    Option.isSome_iff_exists.mp (show (a.store.status? 0).isSome by decide +kernel)
  have hscope : a.store.selectOf 1 = some 11 := by decide +kernel
  refine ⟨hends.1, hends.2.1 _ _ _ _ (Analysis.inProgress_withStatus hstatus none), ?_⟩
  refine (hends.2.2 _ canonical_namedWindows).1 a a 1 (some 9) hreg (.refl a)
    (.of_lt (by decide)) ?_
  rw [hscope]
  exact ⟨some 9, .refl, .tail (.single (.base rfl rfl rfl)) hname⟩

end Validator

end SqlAnalysis

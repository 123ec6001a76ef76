import SqlAnalysis.Proofs.Analysis.Registrar
import SqlAnalysis.Proofs.Analysis.Validation

/-!
The analysis of a whole statement. It registers the statement and then asks the engine about it, in
the state that registration leaves; whatever the engine keeps from there on is kept by the analysis.
-/

namespace SqlAnalysis.Analysis

theorem registered_start (t : Tree) (types : TypeTable) (lookups : CatalogUse) :
    Registered t (.start t types lookups) where
  tree := rfl
  root := ⟨{ kind := .root }, rfl⟩
  scopes id sc hid := by
    have hsc : sc = { kind := .root } := by
      have h := (Store.scope?_addScope {} { kind := .root } id).symm.trans hid
      split at h
      · exact (Option.some.inj h).symm
      · cases h
    subst hsc
    exact ⟨nofun, nofun, fun h => by cases h <;> contradiction⟩
  clauses := nofun
  nodes := nofun
  blocks := nofun
  fresh := nofun

theorem registerStatement_blank {types : TypeTable} {lookups : CatalogUse}
    {root : Link} (h : registerStatement root s (.start t types lookups) = (.ok (), b)) :
    b.record = record { tree := {}, types } := by
  have hkeeps : Keeps s (fun b => Registered t b ∧ Unwritten (.start t types lookups) b)
      (fun _ => True) (registerStatement root) :=
    registerStatement_keeps (.inl trivial) root
  have hblank := (hkeeps _ ⟨registered_start t types lookups, .refl _⟩).1.1.2.1
  rwa [h] at hblank

theorem registering_bind (ha : Registered t a)
    (hx : Keeps s (fun b => Registered t b ∧ HasScope a.root b) H x) :
    ∃ b, Registered t b ∧ Advances a b ∧ ((∃ h, H h ∧ (x >>= f) s a = (.error h, b)) ∨
      ∃ v, x s a = (.ok v, b) ∧ (x >>= f) s a = f v s b) := by
  obtain ⟨⟨⟨hb, _⟩, hadv⟩, hend⟩ := hx a ⟨ha, ha.root⟩
  rw [run_bind]
  rcases hr : x s a with ⟨h | v, b⟩ <;> rw [hr] at hb hadv hend
  · exact ⟨b, hb, hadv, .inl ⟨h, hend, rfl⟩⟩
  · exact ⟨b, hb, hadv, .inr ⟨v, rfl, rfl⟩⟩

/-- The end of a run that does nothing but ask the engine about a node, from the state `b` on. -/
def Asked (s : Setting) (root : Link) (b : Analysis) (r : Except Halt Unit × Analysis) : Prop :=
  ∀ {I H R} [Hushed I] [Entering s I] [Refusing I H], (engine (stepsFor b)).Settles s I H R →
    (∀ x t, Keeps s I H (validateSource (engine (stepsFor b)) x t)) → R.typed root → I b →
    (I r.2 ∧ Advances b r.2) ∧ Ends H (fun _ => True) r.1

theorem analyse_cases [Refusing (Registered t) H]
    (ht : H .exhausted ∨ t.Ordered) (ha : Registered t a) (root : Link) :
    ∃ b, Registered t b ∧ Advances a b ∧ ((∃ h, H h ∧ analyse root s a = (.error h, b)) ∨
      registerStatement root s a = (.ok (), b) ∧ Asked s root b (analyse root s a)) := by
  rw [analyse, run_bind_get]
  split
  · obtain ⟨b, hb, hadv, h | ⟨_, hreg, h⟩⟩ := registering_bind ha (registerStatement_keeps ht root)
    · exact ⟨b, hb, hadv, .inl h⟩
    · refine ⟨b, hb, hadv, .inr ⟨hreg, fun {I H R} _ _ _ he hsource _ hI => h ▸ ?_⟩⟩
      have hengine : currentEngine s b = (.ok (engine (stepsFor b)), b) := rfl
      change GivesFrom s I H (currentEngine >>= _) (fun _ _ => True) b
      refine .bind_gives (J := fun _ _ => True) (.of_ok hengine hI (.refl b) trivial)
        fun e c hrun _ _ _ => .bind_get ?_
      cases hengine.symm.trans hrun
      split
      · split
        · exact validateChange_keeps he hsource b hI
        · exact he.relation _ b hI
      · exact .refuse hI
  · rw [typeExpression, bind_assoc]
    rename_i hkind
    obtain ⟨b, hb, hadv, h | ⟨_, hreg, h⟩⟩ :=
      registering_bind ha (registerSubqueries_keeps ht (fun b hb => hb.2) root)
    · exact ⟨b, hb, hadv, .inl h⟩
    · refine ⟨b, hb, hadv, .inr ⟨?_, fun {I H R} _ _ _ he _ hroot hI => h ▸ ?_⟩⟩
      · rw [registerStatement, run_bind_get, if_neg hkind]
        exact hreg
      have htype : Keeps s I H (do
          (engine (stepsFor b)).infer a.root root .unknown
          (engine (stepsFor b)).derive a.root root) :=
        .seq (he.inferUnknown (he.anywhere _) hroot) fun _ => he.derive (he.anywhere _) hroot
      exact Runs.seq htype (fun _ => Keeps.pure ()) b hI

end SqlAnalysis.Analysis

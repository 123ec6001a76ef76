import SqlAnalysis.Proofs.Script.RoundTrip
import SqlAnalysis.Proofs.Validator.JoinColumns

/-!
The trees of a statement, from the text to the end of the analysis. A node is added after its parts
everywhere, so the trees are ordered, and the walks over them end by themselves.
-/

namespace SqlAnalysis

namespace Script

theorem slotTexts_congr {operands : List Link} (h : ∀ y ∈ operands, f y = g y)
    (slots : List String) : slotTexts f slots operands = slotTexts g slots operands := by
  induction operands generalizing slots with
  | nil => cases slots <;> rfl
  | cons y ys ih =>
    obtain ⟨hy, hys⟩ := List.forall_mem_cons.mp h
    cases slots with
    | nil => rfl
    | cons slot slots =>
      cases y with
      | none => exact ih hys slots
      | some i => rw [slotTexts, slotTexts, hy, ih hys slots]

theorem callText_congr (h : ∀ y ∈ c.operands, f y = g y) : callText f c = callText g c := by
  rw [callText, callText, slotTexts_congr h, List.map_congr_left h]

end Script

namespace Tree

variable {t u : Tree}

theorem Ordered.writeUpTo_eq (ht : t.Ordered) (hd : ∀ i, x = some i → i < d) :
    Script.writeUpTo t d x = Script.write t x := by
  refine ht.eq_of_bounds (fun d d' => ?_) (fun i d d' h => ?_) hd
    (by rintro i rfl; exact i.lt_succ_self)
  · cases d <;> cases d' <;> rfl
  · cases hf : t.form? (some i) with
    | none => rw [Script.writeUpTo, Script.writeUpTo, hf]
    | some f =>
      cases hl : f.isLeaf with
      | true => rw [Script.writeUpTo_leaf hf hl, Script.writeUpTo_leaf hf hl]
      | false =>
        have hparts : ∀ y ∈ f.parts, Script.writeUpTo t d y = Script.writeUpTo t d' y :=
          fun y hy => h y ⟨f, hf, hy⟩
        rw [Script.writeUpTo, Script.writeUpTo, hf]
        cases f with
        | call c => exact Script.callText_congr hparts
        | list items =>
          exact congrArg (fun l => "[" ++ Text.join " " l ++ "]") (List.map_congr_left hparts)
        | _ => cases hl

/-- No walk over the tree is cut short: there is no way down for ever, and whatever bound above the
place of its node a walk is given, it does the same. -/
structure WalksEnd (t : Tree) : Prop where
  children : WellFounded fun j i : NodeId => j ∈ t.children (some i)
  preorder : ∀ (enter : NodeId → Bool) {i d}, i < d →
    t.preorderUpTo enter d i = t.preorderWhere enter (some i)
  write : ∀ {x d}, (∀ i, x = some i → i < d) → Script.writeUpTo t d x = Script.write t x
  copy : ∀ {x d}, (∀ i, x = some i → i < d) → t.copyUpTo d x = t.copy x
  equal : ∀ {m : Type → Type} [Monad m] (same : List String → List String → m Bool) {a b d},
    max (a.getD 0) (b.getD 0) < d → t.equalUpTo same d a b = t.equalWith same a b

theorem Ordered.walksEnd (ht : t.Ordered) : t.WalksEnd where
  children := ht.wellFounded_children
  preorder enter _ _ := ht.preorderUpTo_eq enter
  write := ht.writeUpTo_eq
  copy := ht.copyUpTo_eq
  equal same _ _ _ := ht.equalUpTo_eq same

/-- The tree and all that it was while its nodes were added are ordered, and the walks over them
end. -/
def Acyclic (u : Tree) : Prop := ∀ t : Tree, t.Extends u → t.Ordered ∧ t.WalksEnd

theorem Ordered.acyclic (hu : u.Ordered) :
    u.Acyclic := fun _ h => ⟨h.ordered hu, (h.ordered hu).walksEnd⟩

end Tree

namespace Analysis

variable {s : Setting} {t : Tree}

/-- The tree of the analysis extends `t`, in order if `t` is in order. -/
def GrownFrom (t : Tree) (a : Analysis) : Prop := t.Extends a.tree ∧ (t.Ordered → a.tree.Ordered)

instance : Recording (GrownFrom t) :=
  ⟨fun ha hn => ⟨ha.1.trans hn.grows.nodes, hn.grows.ordered ∘ ha.2⟩⟩

theorem engine_grows (s : Setting) (t : Tree) (steps : Nat) :
    (engine steps).Settles s (GrownFrom t) (fun _ => True) .any :=
  engine_settles_any trivial (fun _ _ _ h => h) steps

theorem analyse_grows (root : Link) (s : Setting) (t : Tree) (types : TypeTable)
    (lookups : CatalogUse) : GrownFrom t (analyse root s (.start t types lookups)).2 := by
  obtain ⟨a, ha, _, ⟨h, _, hrun⟩ | ⟨_, hasked⟩⟩ :=
    analyse_cases (s := s) (H := fun _ => True) (.inl trivial)
      (registered_start t types lookups) root
  · rw [hrun, GrownFrom, ha.tree]
    exact ⟨.refl t, id⟩
  · refine (hasked (engine_grows s t _) (engine_grows s t _).source trivial ?_).1.1
    rw [GrownFrom, ha.tree]
    exact ⟨.refl t, id⟩

end Analysis

namespace Validator

/-- The tree of a text, its canonical form and what an analysis makes of that are ordered, and no
node is ever replaced. -/
theorem trees_acyclic {ops : Registry} {text : String} {st : Statement}
    (hst : Script.parse ops text = .ok st) :
    st.tree.Acyclic ∧ ∀ ops' st', st.canonical ops' = .ok st' → st'.tree.Acyclic ∧
      ∀ s types lookups,
      let u := (Analysis.analyse st'.root s (.start st'.tree types lookups)).2.tree
      st'.tree.Extends u ∧ u.Acyclic := by
  refine ⟨(Script.parse_reads hst).1.acyclic, fun ops' st' hst' => ?_⟩
  obtain ⟨ho, _⟩ := Statement.canonical_ordered hst'
  refine ⟨ho.acyclic, fun s types lookups => ?_⟩
  have hgrown := Analysis.analyse_grows st'.root s st'.tree types lookups
  exact ⟨hgrown.1, (hgrown.2 ho).acyclic⟩

/-- A column and a star are written out and named by nodes of their own. -/
theorem trees_acyclic_star :
    ∃ st st' : Statement, Script.parse .standard "(SELECT :list [X *] :from P)" = .ok st ∧
    st.canonical .standard = .ok st' ∧
    let u := (Analysis.analyse st'.root threeTables.setting
      (.start st'.tree threeTables.types threeTables.lookups)).2.tree
    u.size = st'.tree.size + 6 ∧ u.Ordered := by
  have hrun : (Script.parse .standard "(SELECT :list [X *] :from P)").toOption.any (fun st =>
      (st.canonical .standard).toOption.any fun st' =>
        (Analysis.analyse st'.root threeTables.setting
          (.start st'.tree threeTables.types threeTables.lookups)).2.tree.size ==
          st'.tree.size + 6) = true := by
    decide +kernel
  obtain ⟨st, hst, hrun⟩ := Script.exists_of_any hrun
  obtain ⟨st', hst', hrun⟩ := Script.exists_of_any hrun
  obtain ⟨_, hrest⟩ := trees_acyclic hst
  obtain ⟨_, hanalysed⟩ := hrest .standard st' hst'
  obtain ⟨_, hacyclic⟩ := hanalysed threeTables.setting threeTables.types threeTables.lookups
  exact ⟨st, st', hst, hst', beq_iff_eq.mp hrun, (hacyclic _ (.refl _)).1⟩

end Validator

end SqlAnalysis

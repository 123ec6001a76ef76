import Mathlib.Data.List.Perm.Subperm
import SqlAnalysis.Proofs.Analysis.Grouping
import SqlAnalysis.Proofs.Number.Digits

/-!
How a select list is written down. Every written item becomes one item of the recorded list, and a
star as many as it stands for; each has passed the check against the groups of the query, and has
the name chosen for it, or a numbered one if that is taken.
-/

namespace SqlAnalysis

namespace Tree

variable {t : Tree}

theorem Extends.splitAlias_eq (hu : t.Extends u) (ho : t.Ordered) (hx : t.Has x) (k : Nat) :
    Analysis.splitAlias u x k = Analysis.splitAlias t x k := by
  unfold Analysis.splitAlias
  rw [hu.form?_eq hx]
  cases hf : t.form? x with
  | none => rfl
  | some f =>
    cases f with
    | call c =>
      have hname : t.Has (c.operand 1) := c.operand_of_operands (fun _ => .part ho hf) .absent 1
      simp only [hu.identifier?_eq hname]
    | _ => rfl

end Tree

namespace Analysis

variable {s : Setting} {a : Analysis} {t : Tree} {o : Outputs}

theorem Holds.of_extends (ho : t.Ordered) (hu : t.Extends u) (ha : t.Extends a.tree)
    (hx : t.Has x) : Holds u x a := by
  have hhas {y : Link} (hy : Relation.ReflTransGen u.Part x y) : t.Has y := by
    induction hy with
    | refl => exact hx
    | tail _ hz ih =>
      obtain ⟨f, hf, hmem⟩ := hz
      exact .part ho (hu.form?_eq ih ▸ hf) hmem
  intro j hj
  have hj := hhas hj
  obtain ⟨f, hf⟩ : ∃ f, t.form? (some j) = some f := by
    obtain ⟨n, hn⟩ : ∃ n, t.nodes[j]? = some n := ⟨_, Array.getElem?_eq_getElem (hj j rfl)⟩
    exact ⟨n.form, by simp only [Tree.form?, Tree.node?, Option.bind_some, hn, Option.map_some]⟩
  exact ⟨f, hu.form? hf, ha.form? hf⟩

theorem Holds.of_identifier (ha : a.tree.form? (some i) = some (.identifier name))
    (hu : a.tree.Extends u) : Holds u (some i) a := by
  intro j hj
  rcases Relation.ReflTransGen.cases_head hj with h | ⟨y, ⟨f, hf, hy⟩, _⟩
  · cases h
    exact ⟨_, hu.form? ha, ha⟩
  · cases (hu.form? ha).symm.trans hf
    cases hy

/-- The expression passes the check against the groups somewhere between two states. -/
def PassesCheck (s : Setting) (steps : Nat) (I : Analysis → Prop) (u : Tree)
    (scope : ScopeId) (a b : Analysis) (x : Link) : Prop :=
  ∃ c d, Passes I a c ∧ Holds u x c ∧
    checkGrouped (engine steps) scope x s c = (.ok (), d) ∧ Passes I d b

theorem PassesCheck.widen (h : PassesCheck s steps I u scope a b x) (ha : Passes I a' a)
    (hb : Passes I b b') : PassesCheck s steps I u scope a' b' x := by
  obtain ⟨c, d, hc, hx, hrun, hd⟩ := h
  exact ⟨c, d, ha.trans hc, hx, hrun, hd.trans hb⟩

/-- The items that a written item is recorded as. -/
inductive RecordedAs (s : Setting) (steps : Nat) (I : Analysis → Prop)
    (t u : Tree) (scope : ScopeId) (a b : Analysis) : Link → List NodeId → Prop where
  | columns {x : Link} {part : List NodeId} (hstar : t.isStar x)
      (h : ∀ item ∈ part, ∃ col, u.operand (some item) 0 = some col ∧
      PassesCheck s steps I u scope a b (some col)) : RecordedAs s steps I t u scope a b x part
  | expression {x : Link} {item : NodeId} (hstar : t.isStar x = false)
      (h : PassesCheck s steps I u scope a b (bareItem t x)) : RecordedAs
      s steps I t u scope a b x [item]

theorem RecordedAs.widen (h : RecordedAs s steps I t u scope a b x part) (ha : Passes I a' a)
    (hb : Passes I b b') : RecordedAs s steps I t u scope a' b' x part := by
  cases h with
  | columns hstar h =>
    refine .columns hstar fun item hitem => ?_
    obtain ⟨col, hcol, hcheck⟩ := h item hitem
    exact ⟨col, hcol, hcheck.widen ha hb⟩
  | expression hstar h => exact .expression hstar (h.widen ha hb)

/-- The name that an output column is given, and the operator that gives it. -/
def Outputs.nameFor (s : Setting) (o : Outputs) (name : String) : String :=
  uniqueName s.matcher (o.fields.map fun f => s.matcher.key f.1) name

def asOperator (s : Setting) : Operator := (s.operators.ofKind? .naming).getD default

/-- Numbers behind a name stay as they are in its key. -/
def KeepsNumbers (m : NameMatcher) : Prop :=
  ∀ name k, m.key (name ++ Number.natText k) = m.key name ++ Number.natText k

theorem uniqueName_new (hm : KeepsNumbers m) (taken : List String) (name : String) :
    m.key (uniqueName m taken name) ∉ taken := by
  unfold uniqueName
  split
  · dsimp only
    cases hfind : ((List.range (taken.length + 1)).map fun k => name ++ Number.natText k).find?
      fun n => !taken.contains (m.key n) with
    | some n => simpa using List.find?_some hfind
    | none =>
      -- not all of the numbered names are taken, since there are more of them
      have hsub : (List.range (taken.length + 1)).map
          (fun k => m.key name ++ Number.natText k) ⊆ taken := by
        intro key hkey
        obtain ⟨k, hk, rfl⟩ := List.mem_map.mp hkey
        simpa [hm name k] using List.find?_eq_none.mp hfind _ (List.mem_map_of_mem hk)
      have hnodup : ((List.range (taken.length + 1)).map fun k =>
          m.key name ++ Number.natText k).Nodup :=
        List.nodup_range.map fun k l h =>
          Number.natText_injective ((String.append_right_inj _).mp h)
      have hle := (hnodup.subperm hsub).length_le
      rw [List.length_map, List.length_range] at hle
      omega
  · rename_i h
    simpa using h

/-- The names that columns get one after the other, beside those chosen for them: a name matches
none before it, and is the one chosen unless a name before matches that. -/
inductive NamesFor (m : NameMatcher) : List String → List String → Prop where
  | nil : NamesFor m [] []
  | snoc {chosen names c n} : NamesFor m chosen names → m.key n ∉ names.map m.key →
    (m.key c ∉ names.map m.key → n = c) → NamesFor m (chosen ++ [c]) (names ++ [n])

theorem NamesFor.length_eq (h : NamesFor m chosen names) : names.length = chosen.length := by
  induction h with
  | nil => rfl
  | snoc _ _ _ ih => simp [ih]

theorem NamesFor.nodup (h : NamesFor m chosen names) : (names.map m.key).Nodup := by
  induction h with
  | nil => exact .nil
  | snoc _ hn _ ih => simpa [List.nodup_append] using ⟨ih, by simpa using hn⟩

def lastName (t : Tree) (col : NodeId) : String :=
  (t.identifier? (some col)).elim "" Identifier.last

/-- The names chosen for the columns of written items, `k` columns being before them, in an analysis
that ends in `fin`. -/
inductive Chosen (s : Setting) (steps : Nat) (scope : ScopeId) (t : Tree) (fin : Analysis) :
    Nat → List Link → List String → Prop where
  | nil {k} : Chosen s steps scope t fin k [] []
  | item {k x items names} : t.isStar x = false → Chosen s steps scope t fin (k + 1) items names →
    Chosen s steps scope t fin k (x :: items) ((splitAlias t x k).2 :: names)
  | star {k star i a cols b items names} : t.identifier? (some star) = some i →
    i.isStar → Later a fin → expandStar (engine steps) scope star i s a = (.ok cols, b) →
    Chosen s steps scope t fin (k + cols.length) items names →
    Chosen s steps scope t fin k (some star :: items) (cols.map (lastName b.tree) ++ names)

/-- The columns have got names for those chosen. -/
def Outputs.Named (s : Setting) (o : Outputs) (chosen : List String) : Prop :=
  NamesFor s.matcher chosen (o.fields.map Prod.fst)

def withItem (a : Analysis) (s : Setting) (x : Link) (name : String) : Analysis :=
  let b := a.grown (Tree.buildAlias (asOperator s) x name)
  match x.bind a.typeOf.get? with
  | some type => b.withType (Tree.buildAlias (asOperator s) x name a.tree).1 type
  | none => b

theorem Outputs.run_add : o.add x name type s a = (.ok
      { items := o.items ++ [(Tree.buildAlias (asOperator s) x (o.nameFor s name) a.tree).1]
        fields := o.fields ++ [(o.nameFor s name, type)] }, a.withItem s x (o.nameFor s name)) := by
  rw [Outputs.add, run_bind_read]
  dsimp only
  rw [run_bind_read, run_bind, run_growing]
  dsimp only
  rw [run_bind_get, withItem]
  cases hknown : x.bind a.typeOf.get? with
  | none =>
    simp only [grown, hknown]
    rfl
  | some known =>
    simp only [grown, hknown]
    rw [run_bind, run_setType]
    rfl

theorem Outputs.Named.add (hm : KeepsNumbers s.matcher) (ho : o.Named s chosen)
    (h : o.add x name type s a = (.ok o', b)) : o'.Named s (chosen ++ [name]) := by
  rw [Outputs.run_add] at h
  cases h
  rw [Outputs.Named, List.map_append]
  refine .snoc ho ?_ fun hfree => if_neg (by simpa using hfree)
  rw [List.map_map]
  exact uniqueName_new hm _ _

theorem tree_withItem :
    (a.withItem s x name).tree = (Tree.buildAlias (asOperator s) x name a.tree).2 := by
  unfold withItem
  split <;> rfl

theorem form?_withItem (a : Analysis) (s : Setting) (x : Link) (name : String) :
    ∃ j, (a.withItem s x name).tree.form? (some (Tree.buildAlias (asOperator s) x name a.tree).1) =
        some (.call { operator := asOperator s, operands := [x, some j] }) ∧
      (a.withItem s x name).tree.form? (some j) = some (.identifier { names := [name] }) := by
  rw [tree_withItem]
  refine ⟨a.tree.nodes.size, Tree.form?_add _ _, (Tree.Extends.add _ _).form? (Tree.form?_add _ _)⟩

/-- The steps by which an item that is no star comes into the list: what it names is typed and
checked, and then named. -/
structure ItemSteps (e : Engine) (s : Setting) (scope : ScopeId) (target : SqlType)
    (o : Outputs) (x expr : Link) (aliasName : String) (type : SqlType)
    (out : Link) (o' : Outputs) (a a₁ a₂ a₃ a₄ b : Analysis) : Prop where
  infer : e.infer scope expr ((target.fieldTypes[o.fields.length]?).getD .unknown)
    s a = (.ok (), a₁)
  derive : e.derive scope x s a₁ = (.ok type, a₂)
  known : type.isUnknown = false
  check : checkGrouped e scope expr s a₂ = (.ok (), a₃)
  expand : (if s.config.expandIdentifiers then expandIdentifier scope expr else pure expr) s a₃ =
    (.ok out, a₄)
  add : o.add out aliasName type s a₄ = (.ok o', b)

theorem addItem_ok (h : addItem e scope target o x s a = (.ok o', b)) :
    ∃ type out a₁ a₂ a₃ a₄, ItemSteps e s scope target o x (bareItem a.tree x)
      (splitAlias a.tree x o.fields.length).2 type out o' a a₁ a₂ a₃ a₄ b := by
  rw [addItem, run_bind_get] at h
  have hsplit := splitAlias_fst a.tree x o.fields.length
  generalize splitAlias a.tree x o.fields.length = p at hsplit h ⊢
  obtain ⟨expr, aliasName⟩ := p
  dsimp only at hsplit h ⊢
  subst hsplit
  obtain ⟨_, a₁, hinfer, h⟩ := run_bind_ok h
  obtain ⟨type, a₂, hderive, h⟩ := run_bind_ok h
  cases hknown : type.isUnknown with
  | true =>
    rw [hknown, if_pos rfl] at h
    obtain ⟨_, _, h, _⟩ := run_bind_ok h
    exact absurd h (refuse_ne_ok _)
  | false =>
    rw [hknown, if_neg Bool.false_ne_true] at h
    obtain ⟨_, a₃, hcheck, h⟩ := run_bind_ok h
    rw [run_bind_read] at h
    cases hconfig : s.config.expandIdentifiers with
    | true =>
      rw [hconfig, if_pos rfl] at h
      obtain ⟨out, a₄, hexpand, hadd⟩ := run_bind_ok h
      refine ⟨type, out, a₁, a₂, a₃, a₄, hinfer, hderive, hknown, hcheck, ?_, hadd⟩
      rwa [hconfig, if_pos rfl]
    | false =>
      rw [hconfig, if_neg Bool.false_ne_true] at h
      obtain ⟨out, a₄, hexpand, hadd⟩ := run_bind_ok h
      refine ⟨type, out, a₁, a₂, a₃, a₄, hinfer, hderive, hknown, hcheck, ?_, hadd⟩
      rwa [hconfig, if_neg Bool.false_ne_true]

/-- The step keeps what the engine keeps. -/
def Abides (s : Setting) (steps : Nat) {α : Type} (x : AnalysisM α) : Prop :=
  ∀ (J : Analysis → Prop) [Hushed J] [Entering s J],
    (engine steps).Settles s J (fun _ => True) .any → Keeps s J (fun _ => True) x

section Items

variable [Hushed I] [Entering s I] (he : (engine steps).Settles s I (fun _ => True) .any)
include he

theorem Abides.passes {x : AnalysisM α} (hx : Abides s steps x) (h : x s a = (.ok v, b)) :
    Passes I a b :=
  ⟨fun ha => ((hx I he).ok ha h).1, (hx _ (engine_sameDeclared s a steps)).proceeds h⟩

theorem passes_within {x : AnalysisM α} {P : Analysis → Prop}
    (hx : ∀ (J : Analysis → Prop) [Hushed J] [Entering s J], (engine steps).Settles
    s J (fun _ => True) .any → Keeps s (fun a => J a ∧ P a) (fun _ => True) x)
    (hp : P a) (h : x s a = (.ok v, b)) : Passes I a b :=
  ⟨fun ha => ((hx I he).ok ⟨ha, hp⟩ h).1.1,
    have hend := (hx _ (engine_sameDeclared s a steps)).ok ⟨.refl a, hp⟩ h
    ⟨hend.1.1, hend.2⟩⟩

theorem add_passes (hx : Held x a) (h : o.add x name type s a = (.ok o', b)) : Passes I a b :=
  passes_within he (fun _ _ _ _ => Outputs.add_keeps o (fun _ ha => ha.2) name type) hx h

omit he in
theorem abides_check : Abides s steps (checkGrouped (engine steps) scope x) :=
  fun _ _ _ he => he.check scope trivial

theorem addStar_passes (hcols : Columns cols a)
    (h : addStar (engine steps) scope o cols s a = (.ok o', b)) : Passes I a b :=
  passes_within he (fun _ _ _ he => addStar_keeps he) hcols h

/-- The columns of a star come into the list one by one, each being checked and then named. -/
theorem addStar_cons (hcols : Columns (col :: cols) a)
    (h : addStar (engine steps) scope o (col :: cols) s a = (.ok o', b)) :
    ∃ a₁ o₁ a₂, checkGrouped (engine steps) scope (some col) s a = (.ok (), a₁) ∧
      Passes I a a₁ ∧ o.add (some col) (lastName a₁.tree col)
      ((a₁.typeOf.get? col).getD .unknown) s a₁ = (.ok o₁, a₂) ∧ Passes I a₁ a₂ ∧
      Columns cols a₂ ∧ addStar (engine steps) scope o₁ cols s a₂ = (.ok o', b) := by
  rw [addStar] at h
  obtain ⟨_, a₁, hcheck, h⟩ := run_bind_ok h
  rw [run_bind_get] at h
  obtain ⟨o₁, a₂, hadd, h⟩ := run_bind_ok h
  have hfirst : Passes I a a₁ := abides_check.passes he hcheck
  have hsecond : Passes I a₁ a₂ := by
    obtain ⟨name, hname⟩ := hcols col List.mem_cons_self
    exact add_passes he (.of_form? (hfirst.2.1.tree.form? hname)) hadd
  exact ⟨a₁, o₁, a₂, hcheck, hfirst, hadd, hsecond, fun id hid =>
    (hcols id (List.mem_cons_of_mem _ hid)).imp fun _ hf =>
      (hfirst.trans hsecond).2.1.tree.form? hf, h⟩

theorem addStar_ok (hcols : Columns cols a)
    (h : addStar (engine steps) scope o cols s a = (.ok o', b)) (hu : b.tree.Extends u) :
    ∃ part, o'.items = o.items ++ part ∧ ∀ item ∈ part, ∃ col, u.operand (some item) 0 = some col ∧
      PassesCheck s steps I u scope a b (some col) := by
  induction cols generalizing o a with
  | nil =>
    cases h
    exact ⟨[], (List.append_nil _).symm, nofun⟩
  | cons col cols ih =>
    obtain ⟨a₁, o₁, a₂, hcheck, hfirst, hadd, hsecond, hcols₂, h⟩ := addStar_cons he hcols h
    have hrest : Passes I a₂ b := addStar_passes he hcols₂ h
    obtain ⟨part, hpart, hall⟩ := ih hcols₂ h
    rw [Outputs.run_add] at hadd
    cases hadd
    obtain ⟨j, hitem, _⟩ := a₁.form?_withItem s (some col) (o.nameFor s (lastName a₁.tree col))
    refine ⟨_ :: part, by rw [hpart, List.append_assoc]; rfl, fun item hmem => ?_⟩
    rcases List.mem_cons.mp hmem with rfl | hmem
    · refine ⟨col, ?_, a, a₁, .refl a, ?_, hcheck, hsecond.trans hrest⟩
      · rw [Tree.operand, Tree.call?_of_form? (hu.form? (hrest.2.1.tree.form? hitem))]
        rfl
      · obtain ⟨name, hname⟩ := hcols col List.mem_cons_self
        exact .of_identifier hname ((hfirst.trans (hsecond.trans hrest)).2.1.tree.trans hu)
    · obtain ⟨col, hcol, hpass⟩ := hall item hmem
      exact ⟨col, hcol, hpass.widen (hfirst.trans hsecond) (.refl b)⟩

omit he in
theorem abides_infer : Abides s steps ((engine steps).infer scope x type) :=
  fun _ _ _ he => he.infer trivial (.inl trivial)

omit he in
theorem abides_derive : Abides s steps ((engine steps).derive scope x) :=
  fun _ _ _ he => he.derive trivial trivial

omit he in
theorem abides_expand :
    Abides s steps (if s.config.expandIdentifiers then expandIdentifier scope x else pure x) :=
  fun _ _ _ _ => by
  split
  · exact expandIdentifier_gives.weaken fun _ _ _ _ => trivial
  · exact Keeps.pure _

omit he in
theorem abides_addItem : Abides s steps (addItem (engine steps) scope target o x) :=
  fun _ _ _ he => addItem_keeps he scope target o fun _ _ => ⟨trivial, .inl trivial, .inl trivial⟩

theorem addItem_passesCheck (ho : t.Ordered) (ha : t.Extends a.tree) (hx : t.Has x)
    (h : addItem (engine steps) scope target o x s a = (.ok o', b)) (hu : t.Extends u) :
    ∃ item, o'.items = o.items ++ [item] ∧ PassesCheck s steps I u scope a b (bareItem t x) := by
  obtain ⟨type, out, a₁, a₂, a₃, a₄, hsteps⟩ := addItem_ok h
  have hbare : bareItem a.tree x = bareItem t x := congrArg Prod.fst (ha.splitAlias_eq ho hx 0)
  rw [hbare] at hsteps
  have hbefore : Passes I a a₂ :=
    (abides_infer.passes he hsteps.infer).trans (abides_derive.passes he hsteps.derive)
  have hheld : Held (bareItem t x) a₃ := fun _ =>
    (has_bareItem (.refl t) ho hx).mono
      (ha.trans (hbefore.2.1.tree.trans (abides_check.passes he hsteps.check).2.1.tree))
  have hout : Held out a₄ := by
    have hend := (expanded_gives (s := s) (I := SameDeclared a₃) (H := fun _ => True)
      scope _ a₃ ⟨.refl a₃, hheld⟩).2
    rwa [hsteps.expand] at hend
  have hafter : Passes I a₃ b :=
    (abides_expand.passes he hsteps.expand).trans (add_passes he hout hsteps.add)
  have hadd := hsteps.add
  rw [Outputs.run_add] at hadd
  cases hadd
  refine ⟨_, rfl, a₂, a₃, hbefore, .of_extends ho hu (ha.trans hbefore.2.1.tree)
    (has_bareItem (.refl t) ho hx), hsteps.check, hafter⟩

omit he in
theorem abides_selectItems : Abides s steps (selectItems (engine steps) scope target o items) :=
  fun _ _ _ he => selectItems_keeps he scope target o fun _ _ _ _ =>
    ⟨trivial, .inl trivial, .inl trivial⟩

omit he in
theorem abides_expandStar {star : NodeId} :
    Abides s steps (expandStar (engine steps) scope star i) :=
  fun _ _ _ he => (expandStar_gives he.relation he.counted scope star i).weaken fun _ _ _ _ =>
    trivial

omit he in
theorem expandStar_columns {star : NodeId}
    (h : expandStar (engine steps) scope star i s a = (.ok cols, b)) : Columns cols b := by
  have he := engine_sameDeclared s a steps
  have hend := (expandStar_gives he.relation he.counted scope star i a (.refl a)).2
  rw [h] at hend
  exact hend

omit he [Hushed I] [Entering s I] in
/-- How a written item comes into the list: as it is, or with all the columns that it stands for. -/
theorem selectItems_cons (h : selectItems (engine steps) scope target o (x :: items) s a =
    (.ok o', b)) : ∃ o₁ a₁, selectItems (engine steps) scope target o₁ items s a₁ = (.ok o', b) ∧
      (a.tree.isStar x = false ∧ addItem (engine steps) scope target o x s a = (.ok o₁, a₁) ∨
      ∃ star i cols c, x = some star ∧ a.tree.identifier? x = some i ∧
      i.isStar ∧ expandStar (engine steps) scope star i s a = (.ok cols, c) ∧
      addStar (engine steps) scope o cols s c = (.ok o₁, a₁)) := by
  rw [selectItems, run_bind_get] at h
  cases x with
  | none =>
    obtain ⟨o₁, a₁, hadd, h⟩ := run_bind_ok h
    exact ⟨o₁, a₁, h, .inl ⟨rfl, hadd⟩⟩
  | some star =>
    cases hname : a.tree.identifier? (some star) with
    | none =>
      rw [hname] at h
      obtain ⟨o₁, a₁, hadd, h⟩ := run_bind_ok h
      exact ⟨o₁, a₁, h, .inl ⟨by rw [Tree.isStar, hname]; rfl, hadd⟩⟩
    | some i =>
      rw [hname] at h
      dsimp only at h
      cases hstar : i.isStar with
      | false =>
        rw [hstar, if_neg Bool.false_ne_true] at h
        obtain ⟨o₁, a₁, hadd, h⟩ := run_bind_ok h
        exact ⟨o₁, a₁, h, .inl ⟨by rw [Tree.isStar, hname]; exact hstar, hadd⟩⟩
      | true =>
        rw [hstar, if_pos rfl] at h
        obtain ⟨cols, c, hexpand, h⟩ := run_bind_ok h
        obtain ⟨o₁, a₁, hadd, h⟩ := run_bind_ok h
        exact ⟨o₁, a₁, h, .inr ⟨star, i, cols, c, rfl, rfl, hstar, hexpand, hadd⟩⟩

theorem selectItems_ok (ho : t.Ordered) (ha : t.Extends a.tree)
    {items : List Link} (hitems : ∀ x ∈ items, t.Has x)
    (h : selectItems (engine steps) scope target o items s a = (.ok o', b))
    (hu : b.tree.Extends u) : ∃ parts, o'.items = o.items ++ parts.flatten ∧
      List.Forall₂ (RecordedAs s steps I t u scope a b) items parts := by
  induction items generalizing o a with
  | nil =>
    cases h
    exact ⟨[], (List.append_nil _).symm, .nil⟩
  | cons x items ih =>
    have hx := hitems x List.mem_cons_self
    have hitems := fun y hy => hitems y (List.mem_cons_of_mem _ hy)
    obtain ⟨o₁, a₁, h, hrun⟩ := selectItems_cons h
    have hend : Passes I a₁ b := abides_selectItems.passes he h
    have hrest (hpass : Passes I a a₁) : ∃ parts, o'.items = o₁.items ++ parts.flatten ∧
        List.Forall₂ (RecordedAs s steps I t u scope a b) items parts := by
      obtain ⟨parts, hparts, hall⟩ := ih (ha.trans hpass.2.1.tree) hitems h
      exact ⟨parts, hparts, hall.imp fun _ _ h => h.widen hpass (.refl b)⟩
    rw [Tree.isStar, ha.identifier?_eq hx] at hrun
    rcases hrun with ⟨hstar, hadd⟩ | ⟨star, i, cols, c, rfl, hname, hstar, hexpand, hadd⟩
    · have hpass : Passes I a a₁ := abides_addItem.passes he hadd
      obtain ⟨parts, hparts, hall⟩ := hrest hpass
      have hext : t.Extends u := ha.trans ((hpass.trans hend).2.1.tree.trans hu)
      obtain ⟨item, hitem, hcheck⟩ := addItem_passesCheck he ho ha hx hadd hext
      refine ⟨[item] :: parts, ?_, .cons (.expression hstar (hcheck.widen (.refl a) hend)) hall⟩
      rw [hparts, hitem, List.append_assoc]
      rfl
    · have hcols := expandStar_columns hexpand
      have hbefore : Passes I a c := abides_expandStar.passes he hexpand
      obtain ⟨parts, hparts, hall⟩ := hrest (hbefore.trans (addStar_passes he hcols hadd))
      obtain ⟨part, hpart, hchecked⟩ := addStar_ok he hcols hadd (hend.2.1.tree.trans hu)
      refine ⟨part :: parts, ?_,
        .cons (.columns (by rw [Tree.isStar, hname]; exact hstar) fun item hitem => ?_) hall⟩
      · rw [hparts, hpart, List.append_assoc]
        rfl
      · obtain ⟨col, hcol, hcheck⟩ := hchecked item hitem
        exact ⟨col, hcol, hcheck.widen hbefore hend⟩

end Items

section Naming

variable (hm : KeepsNumbers s.matcher)
include hm

theorem addStar_named (hcols : Columns cols a) (ho : o.Named s chosen)
    (h : addStar (engine steps) scope o cols s a = (.ok o', b)) :
    o'.Named s (chosen ++ cols.map (lastName a.tree)) := by
  induction cols generalizing o a chosen with
  | nil =>
    cases h
    simpa using ho
  | cons col cols ih =>
    obtain ⟨a₁, o₁, a₂, _, hfirst, hadd, hsecond, hcols₂, h⟩ :=
      addStar_cons (engine_sameDeclared s a steps) hcols h
    have hname {c : Analysis} {col' : NodeId} (hc : Proceeds a c) (hmem : col' ∈ col :: cols) :
        lastName c.tree col' = lastName a.tree col' := by
      obtain ⟨i, hi⟩ := hcols col' hmem
      simp only [lastName, Tree.identifier?, hi, hc.1.tree.form? hi]
    have hrest := ih hcols₂ (ho.add hm hadd) h
    rw [List.map_congr_left fun col' hmem => hname (hfirst.trans hsecond).2
      (List.mem_cons_of_mem _ hmem), hname hfirst.2 List.mem_cons_self, List.append_assoc] at hrest
    exact hrest

theorem selectItems_named (hordered : t.Ordered) (ha : t.Extends a.tree)
    {items : List Link} (hitems : ∀ x ∈ items, t.Has x) (ho : o.Named s chosen)
    (h : selectItems (engine steps) scope target o items s a = (.ok o', b)) (hfin : Later b fin) :
    ∃ names, Chosen s steps scope t fin chosen.length items names ∧
      o'.Named s (chosen ++ names) := by
  induction items generalizing o a chosen with
  | nil =>
    cases h
    exact ⟨[], .nil, by simpa using ho⟩
  | cons x items ih =>
    have hx := hitems x List.mem_cons_self
    have hrest := fun y hy => hitems y (List.mem_cons_of_mem _ hy)
    have he := engine_sameDeclared s a steps
    obtain ⟨o₁, a₁, hnext, hrun⟩ := selectItems_cons h
    rw [Tree.isStar, ha.identifier?_eq hx] at hrun
    rcases hrun with ⟨hstar, hadd⟩ | ⟨star, i, cols, c, rfl, hname, hstar, hexpand, hadd⟩
    · have hlen : o.fields.length = chosen.length := by simpa using ho.length_eq
      obtain ⟨_, _, _, _, _, _, hsteps⟩ := addItem_ok hadd
      obtain ⟨names, hchosen, hnamed⟩ :=
        ih (ha.trans (abides_addItem.passes he hadd).2.1.tree) hrest (ho.add hm hsteps.add) hnext
      rw [ha.splitAlias_eq hordered hx, hlen] at hnamed hchosen
      rw [List.length_append] at hchosen
      exact ⟨_, .item hstar hchosen, by rwa [List.append_assoc] at hnamed⟩
    · have hcols := expandStar_columns hexpand
      have hpass := (abides_expandStar.passes he hexpand).trans (addStar_passes he hcols hadd)
      obtain ⟨names, hchosen, hnamed⟩ :=
        ih (ha.trans hpass.2.1.tree) hrest (addStar_named hm hcols ho hadd) hnext
      rw [List.length_append, List.length_map] at hchosen
      exact ⟨_, .star hname hstar ((abides_selectItems.passes he h).2.later.trans hfin)
        hexpand hchosen, by rwa [List.append_assoc] at hnamed⟩

end Naming

/-- The query block is in progress, and its select list is written down. -/
structure ListKept (a₀ : Analysis) (id : NamespaceId) (q : NodeId) (items : List NodeId)
    (a : Analysis) : Prop where
  same : SameDeclared a₀ a
  progress : InProgress id a
  list : a.selectLists.get? q = some items

namespace ListKept

variable {root : Link} {id : NamespaceId}

section

variable (h : ListKept a₀ id q items a)
include h

theorem of_notes (hab : Notes a b) (hlists : b.selectLists = a.selectLists) :
    ListKept a₀ id q items b :=
  ⟨h.same.trans hab.toSameDeclared, Stable.advances h.progress hab.advances, hlists ▸ h.list⟩

instance : Hushed (ListKept a₀ id q items) where
  silent h hs := h.of_notes hs.toNotes hs.selectLists

instance {W : Requests} : Heeding s W (ListKept a₀ id q items) where
  mark h := by
    obtain ⟨a, ha, hnotes, hlists⟩ := h.exists_notes
    exact ha.of_notes hnotes hlists

instance : Entering s (ListKept a₀ id q items) where
  entry h := by
    obtain ⟨a, ha, hnotes, hlists⟩ := h.exists_notes
    exact ha.of_notes hnotes hlists

theorem withStatus (hid : id' ≠ id) (st : Status) :
    ListKept a₀ id q items (a.withStatus id' st) := by
  refine ⟨h.same.trans sameDeclared_withStatus, ?_, h.list⟩
  obtain ⟨row, hrow⟩ := h.progress
  exact ⟨row, by rw [status?_withStatus, if_neg hid, hrow]⟩

theorem withSelectList (hq : q' ≠ q) (items' : List NodeId) :
    ListKept a₀ id q items (a.withSelectList q' items') := by
  have hnotes : Notes a (a.withSelectList q' items') := .of_eq rfl
  refine ⟨h.same.trans hnotes.toSameDeclared, Stable.advances h.progress hnotes.advances, ?_⟩
  rw [Analysis.withSelectList, Table.get?_insert, if_neg hq, h.list]

end

theorem engine_settles (hp : Placed t root a₀)
    (hn : a₀.store.declared? id = some n) (hk : n.kind = .select) (steps : Nat) :
    (engine steps).Settles s (ListKept a₀ id n.node items) (fun _ => True) .any := by
  refine engine_settles_of trivial Requests.closed_any (fun steps he id' target _ => ?_) steps
  by_cases hid : id' = id
  · -- the block itself is not validated once more
    subst hid
    refine validate_keeps (J := fun _ => False) (K := fun _ _ => True)
      (fun a m ha hm hst => ?_) (fun _ _ => False.elim) fun _ => False.elim
    obtain ⟨row, hrow⟩ := ha.progress
    rw [Store.status?, hm, Option.map_some, hst] at hrow
    cases hrow
  · refine validate_keeps (J := fun a => ListKept a₀ id n.node items a ∧
      InProgress id' a) (K := fun _ _ => True) (fun a m ha hm hst => ?_)
      (fun b row hb _ => hb.1.withStatus hid _) fun b hb => hb.1.withStatus hid _
    have hstatus : a.store.status? id' = some m.status := by rw [Store.status?, hm, Option.map_some]
    have hJ := And.intro (ha.withStatus hid (.inProgress none)) (inProgress_withStatus hstatus none)
    have hdecl : a₀.store.declared? id' = some m.declared := by
      rw [← ha.same.declared id', Store.declared?, hm, Option.map_some]
    refine ⟨hJ, rowType_keeps he.frame (Requests.opens_any _ _) (relates_withStatus hm hJ)
      (fun _ ha => ha.2) (fun hk' _ b _ _ o _ _ hb => ⟨hb.1.withSelectList ?_ o.items,
      Stable.advances hb.2 (.of_eq rfl)⟩) (publish_keeps fun b row hb _ => hb.withStatus hid _)⟩
    exact fun heq => hid (hp.block_unique hn hk hdecl heq)

end ListKept

section List

variable {root : Link} {id : NamespaceId} (hp : Placed t root a₀)
  (hn : a₀.store.declared? id = some n) (hk : n.kind = .select)
include hp hn hk

theorem validateSelectList_steps (hs : SameDeclared a₀ a) (hprogress : InProgress id a)
    (h : validateSelectList (engine steps) id n.node scope target s a = (.ok row, b)) :
    ∃ o c d, selectItems (engine steps) scope target {}
      (a.tree.elements (a.tree.select (some n.node)).list) s a = (.ok o, c) ∧
      Proceeds a c ∧ Proceeds c d ∧ building (TypeTable.row o.fields) s d = (.ok row, b) ∧
      ListKept a₀ id n.node o.items b := by
  rw [validateSelectList, run_bind_get] at h
  obtain ⟨o, c, hitems, h⟩ := run_bind_ok h
  obtain ⟨_, c₁, hlist, h⟩ := run_bind_ok h
  rw [run_bind_get] at h
  obtain ⟨sorted, c₂, hsorted, h⟩ := run_bind_ok h
  obtain ⟨_, d, hmonotonic, h⟩ := run_bind_ok h
  have hac : Proceeds a c :=
    Keeps.proceeds (abides_selectItems _ (engine_sameDeclared s a steps)) hitems
  have hcc₁ : Proceeds c c₁ := by
    cases hlist
    have hnotes : Notes c (c.withSelectList n.node o.items) := .of_eq rfl
    exact ⟨hnotes.toSameDeclared, hnotes.advances⟩
  have hprogress₁ : InProgress id c₁ := (hac.trans hcc₁).inProgress hprogress
  have hfirst : ListKept a₀ id n.node o.items c₁ := by
    refine ⟨hs.trans (hac.trans hcc₁).1, hprogress₁, ?_⟩
    cases hlist
    exact (Table.get?_insert _ _ _ _).trans (if_pos rfl)
  have hloop (J : Analysis → Prop) [Hushed J] [Entering s J] (he : (engine steps).Settles
      s J (fun _ => True) .any) {l : List (NodeId × Field)} : Keeps s J (fun _ => True)
      (l.filterM fun p => isMonotonic (engine steps) scope (c₁.tree.operand (some p.1) 0)) :=
    .filterM fun _ _ => isMonotonicUpTo_keeps he
  have hsorting : Proceeds c₁ c₂ :=
    Keeps.proceeds (hloop _ (engine_sameDeclared s c₁ steps)) hsorted
  have hprogress₂ := hsorting.inProgress hprogress₁
  have hsecond : ListKept a₀ id n.node o.items c₂ :=
    (Keeps.ok (hloop _ (ListKept.engine_settles hp hn hk steps)) hfirst hsorted).1
  have hsilent : Silent c₂ d := by
    cases hmonotonic
    exact Silent.modifyNamespace hprogress₂ (fun _ => rfl) fun _ => rfl
  have hbuild : Silent d b := by
    cases h
    exact .build (TypeTable.row_steady d.types).1
  refine ⟨o, c, d, hitems, hac,
    hcc₁.trans (hsorting.trans ⟨hsilent.toNotes.toSameDeclared, hsilent.advances⟩), h, ?_⟩
  exact Hushed.silent (Hushed.silent hsecond hsilent) hbuild

end List

end Analysis

end SqlAnalysis

import SqlAnalysis.Analysis.Validation
import SqlAnalysis.Proofs.Analysis.Registration

/-!
Registration keeps how scopes and namespaces hang together. Every rule is stated for a registrar
that serves the parts.
-/

namespace SqlAnalysis.Analysis

variable {t : Tree} {r : Registrar}

theorem Keeps.registering {P : Analysis → Prop} [Registering t I] (hP : ∀ a, I a → P a)
    (hx : ∀ w, Keeps s (fun a => (Registered t a ∧ P a) ∧ Unwritten w a) H x) : Keeps s I H x := by
  intro a ha
  obtain ⟨⟨⟨hb, hw⟩, hadv⟩, hr⟩ := hx a a ⟨⟨Registering.registered ha, hP a ha⟩, .refl a⟩
  exact ⟨⟨Registering.advances ha hb.1 hadv hw, hadv⟩, hr⟩

/-- Registers the nodes in `A`, below scopes that are there. -/
structure Registrar.Serves (r : Registrar) (s : Setting) (t : Tree) (H : Halt → Prop)
    (A : Link → Prop) : Prop where
  query : ∀ place x, A x → ∀ w, Keeps s (fun a => (Registered t a ∧ HasScope place.parent a) ∧
    Unwritten w a) H (r.query place x)
  item : ∀ place host isLateral x, A x → ∀ w,
    Keeps s (fun a => (Registered t a ∧ HasScope place.parent a ∧ HasScope host a) ∧
    Unwritten w a) H
      (r.item place host isLateral x)

/-- A scope for the select list of a block. -/
def ListScope (t : Tree) (i : NodeId) (list : ScopeId) (a : Analysis) : Prop :=
  ∃ sc, Scoped list sc a ∧ ClauseScope t i .list sc ∧ (sc.kind = .select ∨ sc.kind = .aggregating)

instance (i : NodeId) (list : ScopeId) : Stable (ListScope t i list) where
  advances h hadv := by
    obtain ⟨sc, hsc, h⟩ := h
    exact ⟨sc, Stable.advances hsc hadv, h⟩

/-- The clauses of a block have their scopes. -/
def Block.Scoped (t : Tree) (i : NodeId) (b : Block) (a : Analysis) : Prop :=
  ∀ c, ∃ sc, a.store.scope? (b.scope c) = some sc ∧ ClauseScope t i c sc

instance (i : NodeId) (b : Block) : Stable (b.Scoped t i) where
  advances h hadv c := by
    obtain ⟨sc, hsc, hc⟩ := h c
    obtain ⟨more, hmore⟩ := hadv.scopes _ sc hsc
    exact ⟨_, hmore, hc⟩

theorem Block.Scoped.hasScope {b : Block} (h : b.Scoped t i a) (c : Clause) :
    HasScope (b.scope c) a := by
  obtain ⟨sc, hsc, _⟩ := h c
  exact ⟨sc, hsc⟩

def levels : Link → Nat
  | none => 1
  | some i => i + 2

theorem levels_lt_of_below (ht : t.Ordered) (h : t.Below x y) : levels y < levels x := by
  obtain ⟨i, rfl⟩ : ∃ i, x = some i := Option.ne_none_iff_exists'.mp fun hx => by
    obtain ⟨z, hz, _⟩ := Relation.TransGen.head'_iff.mp (hx ▸ h)
    exact Tree.not_part_none hz
  cases y with
  | none => exact Nat.lt_add_left i (Nat.one_lt_two)
  | some j => exact Nat.add_lt_add_right (ht.lt_of_below h) 2

/-- What is refused while a statement is registered is refused where a node of the statement
stands. -/
instance [Registering t I] [h : Refusing (Registered t) H] : Refusing I H :=
  ⟨fun ha => h.refused (Registering.registered ha), h.catalog, h.faulted⟩

section Rules

variable [Registering t I]

theorem registerNested_keeps (hr : r.Serves s t H A) {scope : ScopeId} (hscope : ∀ a, I a →
    HasScope scope a) (hx : ∀ n c, t.Spans x n → t.call? (some n) = some c → A (some n)) :
    Keeps s I H (registerNested r scope x) := by
  refine Runs.bind_get fun a ha => Keeps.forM fun n hn => ?_
  rw [(Registering.registered ha).tree] at hn
  obtain ⟨hmem, hkind⟩ := List.mem_filter.mp hn
  obtain ⟨c, hc⟩ : ∃ c, t.call? (some n) = some c := Option.ne_none_iff_exists'.mp fun hc => by
    simp only [Tree.kind, hc] at hkind
    cases hkind
  have hquery := hr.query { parent := scope, enclosing := some n } _
    (hx n c (Tree.reflTransGen_of_mem_preorderWhere hmem) hc)
  exact .registering hscope hquery

theorem listScope_gives {c : Scope} (hnode : c.node = some i) (hkind : c.kind = .select)
    (hi : t.kind (some i) = .select) (hsource : ∀ a, I a → Scoped source c a) :
    Gives s I H (listScope source i) (ListScope t i) := by
  refine .bind_get fun a ha => ?_
  rw [(Registering.registered ha).tree]
  dsimp only
  split
  · rename_i hagg
    have hok (b : Analysis) (hb : I b) : ScopeOk b b.store.scopes.size
        { kind := .aggregating, parent := some source, node := some i
          groups := t.elements (t.select i).groups } := by
      obtain ⟨more, hmore⟩ := hsource b hb
      refine ⟨?_, ?_, fun _ => ⟨source, _, rfl, hmore, hnode, .inl hkind⟩⟩
      · rintro p ⟨⟩
        exact HasScope.lt ⟨_, hmore⟩
      · rintro _ x ⟨⟩
        rwa [(Registering.registered hb).tree]
    refine (newScope_gives hok).weaken fun list a _ h => ⟨_, h, ⟨rfl, ?_⟩, .inr rfl⟩
    rw [if_pos hagg]
    exact ⟨rfl, rfl⟩
  · rename_i hagg
    refine .pure fun a ha => ⟨c, hsource a ha, ⟨hnode, ?_⟩, .inl hkind⟩
    rw [if_neg hagg]
    exact hkind

theorem setClauses_gives {b : Block} (hb : ∀ a, I a → b.Scoped t i a) :
    Gives s I H (Clause.all.forM fun c => setClause i c (b.scope c)) fun _ a =>
      ∀ c, (a.clauses.get? (i, c)).isSome := by
  have hstep (c : Clause) : Gives s I H (setClause i c (b.scope c)) fun _ a =>
      (a.clauses.get? (i, c)).isSome := by
    intro a ha
    refine ⟨(setClause_keeps (s := s) (H := H) (fun a ha => hb a ha c) a ha).1, ?_⟩
    change ((a.clauses.insert (i, c) (b.scope c)).get? (i, c)).isSome
    rw [Table.get?_insert, if_pos rfl]
    rfl
  refine (Gives.forM fun c _ => hstep c).weaken fun _ a _ h c => h c ?_
  cases c <;> decide

theorem newBlock_gives (hi : t.kind (some i) = .select)
    (hplace : ∀ a, I a → HasScope place.parent a) :
    Gives s I H (newBlock place i) (Block.Scoped t i) := by
  have hsource (b : Analysis) (hb : I b) : ScopeOk b b.store.scopes.size
      { kind := .select, parent := some place.parent, node := some i } := by
    refine ⟨?_, ?_, fun h => by cases h <;> contradiction⟩
    · rintro p ⟨⟩
      exact (hplace b hb).lt
    · rintro _ x ⟨⟩
      rwa [(Registering.registered hb).tree]
  refine (newScope_gives hsource).bind fun source => ?_
  refine (listScope_gives (by rfl) (by rfl) hi fun b hb => hb.2).bind fun list => ?_
  have horder (b : Analysis) (hb : I b ∧ ListScope t i list b) :
      ScopeOk b b.store.scopes.size { kind := .orderBy, parent := some list, node := some i } := by
    obtain ⟨hb, sl, ⟨more, hmore⟩, hclause, hkind⟩ := hb
    refine ⟨?_, ?_, fun _ => ⟨list, _, rfl, hmore, hclause.1, hkind.imp_right fun h => ⟨rfl, h⟩⟩⟩
    · rintro p ⟨⟩
      exact HasScope.lt ⟨_, hmore⟩
    · rintro _ x ⟨⟩
      rwa [(Registering.registered hb).tree]
  refine (newScope_gives fun b hb => horder b ⟨hb.1.1, hb.2⟩).bind fun order => ?_
  have hblock (b : Analysis)
    (hsource : Scoped source { kind := .select, parent := some place.parent, node := some i } b)
      (hlist : ListScope t i list b)
      (horder : Scoped order { kind := .orderBy, parent := some list, node := some i } b) :
      Block.Scoped t i { source, list, order } b := by
    obtain ⟨m, hsource⟩ := hsource
    obtain ⟨sl, ⟨m', hlist⟩, hclause, _⟩ := hlist
    obtain ⟨m'', horder⟩ := horder
    intro c
    cases c with
    | source | condition | groups => exact ⟨_, hsource, rfl, rfl⟩
    | list | having => exact ⟨_, hlist, hclause⟩
    | order => exact ⟨_, horder, rfl, rfl⟩
  refine (setClauses_gives fun b hb => hblock b hb.1.1.2 hb.1.2 hb.2).bind fun _ => ?_
  refine .seq (newNamespace_keeps (Tree.exists_form?_of_kind (by rw [hi]; decide))
    (fun _ c b hb => hb.2 c)) fun ns => ?_
  refine .seq addTo_keeps fun _ => .pure fun b hb => hblock b hb.1.1.1.2 hb.1.1.2 hb.1.2

section

variable (hr : r.Serves s t H A)
include hr

section

variable (hc : t.call? (some i) = some c)
include hc

theorem registerSelect_keeps (hk : c.kind = .select) (hplace : ∀ a, I a → HasScope place.parent a)
    (hx : ∀ y, t.Below (some i) y → A y) (h0 : A none) :
    Keeps s I H (registerSelect r place i) := by
  refine .bind_gives (newBlock_gives ((Tree.kind_of_call? hc).trans hk) hplace) fun b =>
    .bind_get fun a ha => ?_
  rw [(Registering.registered ha.1).tree]
  have hparts : t.select (some i) = .ofCall c := by rw [Tree.select, hc]; rfl
  have hscope (clause : Clause) (a : Analysis) (ha : I a ∧ b.Scoped t i a) : HasScope
      (b.scope clause) a :=
    ha.2.hasScope clause
  have hnested (clause : Clause) (k : Nat) :
      Keeps s (fun a => I a ∧ b.Scoped t i a) H (registerNested r (b.scope clause) (c.operand k)) :=
    registerNested_keeps hr (hscope clause) fun n _ hn _ => hx _ (Tree.below_of_operand hc hn)
  have hsource : Keeps s (fun a => I a ∧ b.Scoped t i a) H
      (r.item { parent := place.parent, enclosing := c.operand 2 } b.source false (c.operand 2)) :=
    .registering (fun a ha => ⟨hplace a ha.1, hscope .source a ha⟩)
      (hr.item { parent := place.parent, enclosing := c.operand 2 } _ _
      _ (Tree.operand_of_below hc hx h0 2))
  have hgroups : Keeps s (fun a => I a ∧ b.Scoped t i a) H
      ((t.elements (c.operand 4)).forM (registerNested r b.source)) := by
    refine Keeps.forM fun y hy => registerNested_keeps hr (hscope .source) fun n _ hn _ => ?_
    exact hx _ (Tree.below_of_operand hc ((Tree.reflTransGen_of_mem_elements hy).trans hn))
  dsimp only
  rw [hparts]
  have hrest := Runs.seq (hnested .condition 3) fun _ => Runs.seq hgroups fun _ =>
    Runs.seq (hnested .list 1) fun _ => Runs.seq (hnested .having 5) fun _ =>
      Runs.seq (hnested .source 6) fun _ => hnested .order 7
  split
  · exact .seq hsource fun _ => hrest
  · exact hrest

theorem registerChange_keeps [Refusing (Registered t) H]
    (hplace : ∀ a, I a → HasScope place.parent a) {target query : Link} (hquery : A query) :
    Keeps s I H (registerChange r place i c target query) := by
  refine .seq (newNamespace_keeps ⟨_, Tree.form?_of_call? hc⟩ nofun) fun _ =>
    .bind_get fun a ha => ?_
  rw [(Registering.registered ha).tree]
  split
  · rename_i table name hname
    refine .seq (newNamespace_keeps ⟨_, Tree.form?_of_identifier? hname⟩ nofun) fun _ => ?_
    have hrows : Keeps s I H
        (r.query { parent := place.parent, host := place.host, enclosing := query } query) :=
      .registering hplace
        (hr.query { parent := place.parent, host := place.host, enclosing := query } _ hquery)
    dsimp only
    split
    · exact .refuse_bind
    · exact hrows
  · exact .refuse

theorem registerOther_keeps [Refusing (Registered t) H]
    (hplace : ∀ a, I a → HasScope place.parent a) (hx : ∀ y, t.Below (some i) y → A y)
    (h0 : A none) : Keeps s I H (registerOther r place i c) := by
  have hform : ∃ f, t.form? (some i) = some f := ⟨_, Tree.form?_of_call? hc⟩
  have hoperand := Tree.operand_of_below hc hx h0
  have hquery (enclosing y : Link) (hy : A y) : Keeps s I H
      (r.query { parent := place.parent, enclosing } y) :=
    .registering hplace (hr.query { parent := place.parent, enclosing } _ hy)
  have hplaced (kind : NamespaceKind) (hkind : kind ≠ .select)
      {rest : AnalysisM Unit} (hrest : Keeps s I H rest) : Keeps s I H
      (newNamespace kind i place.enclosing place.parent >>= fun ns =>
        publish place ns >>= fun _ => rest) :=
    .seq (newNamespace_keeps hform (fun h => absurd h hkind)) fun ns =>
      .seq addTo_keeps fun _ => hrest
  have hbranches : Keeps s I H (c.operands.forM fun y =>
      r.query { parent := place.parent, enclosing := y } y) :=
    Keeps.forM fun y hy => hquery y y (hx y (.single (.of_operands hc hy)))
  have hrows : Keeps s I H (c.operands.forM (registerNested r place.parent)) :=
    Keeps.forM fun y hy => registerNested_keeps hr hplace fun n _ hn _ =>
      hx _ (.head' (.of_operands hc hy) hn)
  unfold registerOther
  split
  · exact hplaced .setOp nofun hbranches
  · exact hplaced .setOp nofun hbranches
  · exact hplaced .setOp nofun hbranches
  · exact hplaced .values nofun hrows
  · exact registerChange_keeps hr hc hplace (hoperand 3)
  · exact registerChange_keeps hr hc hplace (hoperand 5)
  · exact registerChange_keeps hr hc hplace (hoperand 3)
  · exact hplaced .collect nofun (hquery _ _ (hoperand 0))
  · exact .refuse

end

theorem registerQuery_keeps [Refusing (Registered t) H]
    (hplace : ∀ a, I a → HasScope place.parent a) (hx : ∀ y, t.Below x y → A y)
    (h0 : x.isSome → A none) : Keeps s I H (registerQuery r place x) := by
  have hregister : Keeps s I H (registerQuery.register r place x t) := by
    unfold registerQuery.register
    split
    · rename_i i c hc
      split
      · exact registerSelect_keeps hr hc ‹_› hplace hx (h0 rfl)
      · exact registerOther_keeps hr hc hplace hx (h0 rfl)
    · exact .refuse
  refine .bind_get fun a ha => ?_
  rw [(Registering.registered ha).tree]
  split
  · split
    · exact addTo_keeps
    · exact hregister
  · exact hregister

theorem registerJoin_keeps {host : ScopeId} (hc : t.call? (some i) = some c)
    (hplace : ∀ a, I a → HasScope place.parent a) (hx : ∀ y, t.Below (some i) y → A y)
    (h0 : A none) : Keeps s I H (registerJoin r place host isLateral i c) := by
  have hform : ∃ f, t.form? (some i) = some f := ⟨_, Tree.form?_of_call? hc⟩
  have hok (a : Analysis) (ha : I a) : ScopeOk a a.store.scopes.size
      { kind := .join, parent := some place.parent, node := some i, host := some host } := by
    refine ⟨?_, nofun, fun h => by cases h <;> contradiction⟩
    rintro p ⟨⟩
    exact (hplace a ha).lt
  refine .bind_gives (newScope_gives hok) fun scope => .seq (.modify fun a ha => ?_) fun _ =>
    .bind_get fun a ha => ?_
  · have hadv : Advances a { a with joinScopes := a.joinScopes.insert i scope } :=
      { Advances.refl a with }
    have hreg : Registered t { a with joinScopes := a.joinScopes.insert i scope } :=
      (Registering.registered ha.1).showing rfl rfl rfl rfl fun id => ⟨[], by simp⟩
    exact ⟨⟨Registering.advances ha.1 hreg hadv ⟨rfl, rfl⟩, Stable.advances ha.2 hadv⟩, hadv⟩
  · have hitem (k : Nat) (enclosing : Link) (nullable isLateral : Bool) :=
      hr.item { parent := place.parent, enclosing, nullable } scope isLateral
        _ (Tree.operand_of_below hc hx h0 k)
    refine .seq (.registering (fun a ha => ⟨hplace a ha.1, ha.2.hasScope⟩) (hitem 0 _ _ _)) fun _ =>
      ?_
    refine .seq (.registering (fun a ha => ⟨hplace a ha.1, ha.2.hasScope⟩) (hitem 3 _ _ _)) fun _ =>
      ?_
    refine .seq (newNamespace_keeps hform nofun) fun _ => ?_
    exact registerNested_keeps hr (fun a ha => ha.2.hasScope) fun n _ hn _ =>
      hx _ (Tree.below_of_operand hc hn)

theorem registerItem_keeps [Refusing (Registered t) H] {host : ScopeId}
    (hplace : ∀ a, I a → HasScope place.parent a) (hhost : ∀ a, I a → HasScope host a)
    (hx : ∀ y, t.Below x y → A y) (h0 : x.isSome → A none) :
    Keeps s I H (registerItem r place host isLateral x) := by
  unfold registerItem
  generalize hp : (if isLateral then { place with parent := host } else place) = p
  have hparent (a : Analysis) (ha : I a) : HasScope p.parent a := by
    subst hp
    split
    · exact hhost a ha
    · exact hplace a ha
  have hitem (q : Place) (hq : q.parent = p.parent) (isLateral : Bool) {y : Link} (hy : A y) :
      Keeps s I H (r.item q host isLateral y) :=
    .registering (fun a ha => ⟨hq ▸ hparent a ha, hhost a ha⟩) (hr.item q host isLateral y hy)
  have hplaced {i : NodeId} (hi : ∃ f, t.form? (some i) = some f) (kind : NamespaceKind)
    (hkind : kind ≠ .select)
      {other : AnalysisM String} (hother : Keeps s I H other) {rest : AnalysisM Unit}
        (hrest : Keeps s I H rest) :
      Keeps s I H (aliasOr p.aliasName other >>= fun aliasName =>
        newNamespace kind i p.enclosing p.parent >>= fun ns =>
          addChild host aliasName ns p.nullable >>= fun _ => rest) :=
    .seq (aliasOr_keeps hother) fun _ =>
      .seq (newNamespace_keeps hi (fun h => absurd h hkind)) fun _ =>
      .seq addChild_keeps fun _ => hrest
  refine .bind_get fun a ha => ?_
  rw [(Registering.registered ha).tree]
  dsimp only
  split
  · rename_i i name hname
    refine .seq (aliasOr_keeps (Keeps.pure _)) fun _ =>
      .seq (newNamespace_keeps ⟨_, hname⟩ nofun) fun _ => ?_
    exact addChild_keeps
  · rename_i i c hform
    have hc := Tree.call?_of_form? hform
    have hquery : Keeps s I H (aliasOr p.aliasName freshAlias >>= fun aliasName =>
        registerQuery r { p with host := some host, aliasName } (some i)) :=
      .seq (aliasOr_keeps freshAlias_keeps) fun _ => registerQuery_keeps hr hparent hx h0
    have hoperand := Tree.operand_of_below hc hx (h0 rfl)
    split
    · split
      · rename_i name _
        exact hitem { p with enclosing := some i, aliasName := name.last } rfl _ (hoperand 0)
      · exact .refuse
    · exact registerJoin_keeps hr hc hparent hx (h0 rfl)
    · exact hitem _ rfl _ (hoperand 0)
    · refine hplaced ⟨_, hform⟩ .unnest nofun freshAlias_keeps ?_
      exact registerNested_keeps hr hparent fun n _ hn _ => hx _ (Tree.below_of_operand hc hn)
    · exact hquery
    · exact hquery
    · exact hquery
    · exact hquery
    · exact hquery
    · exact .refuse
  · exact .refuse

end

omit [Registering t I] in
/-- The places of nodes bound the depth of registration. -/
theorem registrar_serves [Refusing (Registered t) H] (ht : H .exhausted ∨ t.Ordered) :
    (registrar depth).Serves s t H fun x => H .exhausted ∨ levels x ≤ depth := by
  induction depth with
  | zero =>
    have hnone (x : Link) (hx : H .exhausted ∨ levels x ≤ 0) : H .exhausted := by
      rcases hx with h | h
      · exact h
      · cases x <;> contradiction
    exact ⟨fun _ x hx _ => Runs.throw (hnone x hx), fun _ _ _ x hx _ => Runs.throw (hnone x hx)⟩
  | succ depth ih =>
    have hbelow {x y : Link} (hx : H .exhausted ∨ levels x ≤ depth + 1) (h : t.Below x y) :
        H .exhausted ∨ levels y ≤ depth := by
      rcases ht with ht | ht
      · exact .inl ht
      · exact hx.imp_right fun hx =>
          Nat.le_of_lt_succ (Nat.lt_of_lt_of_le (levels_lt_of_below ht h) hx)
    have hnone {x : Link} (hx : H .exhausted ∨ levels x ≤ depth + 1) (h : x.isSome) :
        H .exhausted ∨ levels none ≤ depth := by
      obtain ⟨i, rfl⟩ := Option.isSome_iff_exists.mp h
      exact hx.imp_right fun hx => Nat.le_trans (Nat.le_add_left 1 i) (Nat.le_of_succ_le_succ hx)
    constructor
    · intro place x hx w
      exact registerQuery_keeps ih (fun a ha => ha.1.2) (fun y => hbelow hx) (hnone hx)
    · intro place host isLateral x hx w
      exact registerItem_keeps ih (fun a ha => ha.1.2.1) (fun a ha => ha.1.2.2)
        (fun y => hbelow hx) (hnone hx)

end Rules

section Statements

variable [Registering t I] [Refusing (Registered t) H]

section

variable (ht : H .exhausted ∨ t.Ordered)
include ht

theorem register_keeps (hplace : ∀ a, I a → HasScope place.parent a)
    (hx : ∃ f, t.form? x = some f) : Keeps s I H (register place x) := by
  refine .bind_get fun a ha => ?_
  rw [(Registering.registered ha).tree]
  obtain ⟨f, hf⟩ := hx
  obtain ⟨i, rfl⟩ : ∃ i, x = some i := Option.ne_none_iff_exists'.mp fun hx => by
    rw [hx] at hf; cases hf
  have hi : i < t.size := Tree.lt_size_of_form? hf
  refine registerQuery_keeps (registrar_serves ht) hplace (fun y hy => ?_) fun _ =>
    .inr (Nat.lt_of_le_of_lt (Nat.zero_le i) hi)
  exact ht.imp_right fun ht => Nat.le_trans (Nat.le_of_lt_succ (levels_lt_of_below ht hy)) hi

theorem registerSubqueries_keeps (hscope : ∀ a, I a → HasScope scope a) (x : Link) :
    Keeps s I H (registerSubqueries scope x) := by
  refine .bind_get fun a ha => ?_
  rw [(Registering.registered ha).tree]
  refine registerNested_keeps (registrar_serves ht) hscope fun n c _ hc => .inr ?_
  exact Nat.succ_le_succ (Tree.lt_size_of_form? (Tree.form?_of_call? hc))

theorem registerStatement_keeps (x : Link) : Keeps s I H (registerStatement x) := by
  refine .bind_get_after fun a ha => ?_
  have hscope (b : Analysis) (hb : I b ∧ Advances a b) : HasScope a.root b :=
    Stable.advances (Registering.registered ha).root hb.2
  rw [(Registering.registered ha).tree]
  dsimp only
  split
  · rename_i hkind
    refine register_keeps ht hscope (Option.ne_none_iff_exists'.mp fun hf => ?_)
    rw [Tree.kind, Tree.call?, hf] at hkind
    cases hkind
  · exact registerSubqueries_keeps ht hscope x

end

end Statements

end SqlAnalysis.Analysis

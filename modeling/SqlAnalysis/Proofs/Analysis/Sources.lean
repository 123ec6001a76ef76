import SqlAnalysis.Proofs.Analysis.Placement

/-!
Registration shows in the scope of each query exactly the relations that the query selects from,
each of them once, from left to right, and nullable where an outer join may lack a match for it.
-/

namespace SqlAnalysis.Analysis

variable {root : Link} {r : Registrar}

abbrev Unshown (t : Tree) (root : Link) : Analysis → Analysis → Prop :=
  Adds t root (fun _ => []) fun _ => False

/-- A registration that shows nothing in the scopes that were there. -/
def Quiet (t : Tree) (root : Link) (a b : Analysis) : Prop := Unshown t root a b ∧ AddsBlocks t a b

namespace Quiet

theorem refl (h : Placed t root a) : Quiet t root a a := ⟨.refl h, .of_clauses rfl⟩

theorem trans (h : Quiet t root a b) (h' : Quiet t root b c) : Quiet t root a c :=
  ⟨h.1.trans h'.1, h.2.trans h'.2 h'.1 h.1.size_le fun _ _ => rfl⟩

end Quiet

/-- As long as the scopes in `S` are there, the step shows nothing in scopes that were there. -/
def Quietly (s : Setting) (t : Tree) (root : Link) (S : ScopeId → Prop)
    (step : AnalysisM Unit) : Prop :=
  ∀ a b, Placed t root a → (∀ σ, S σ → HasScope σ a) → step s a = (.ok (), b) → Quiet t root a b

namespace Quietly

theorem seq {step next : AnalysisM Unit} (h : Quietly s t root S step)
    (h' : Quietly s t root S next) : Quietly s t root S (step >>= fun _ => next) := by
  intro a b ha hS hrun
  obtain ⟨⟨⟩, c, hstep, hrun⟩ := run_bind_ok hrun
  have hc := h a c ha hS hstep
  exact hc.trans (h' c b hc.1.placed (fun σ hσ => hc.1.hasScope (hS σ hσ)) hrun)

theorem forM {l : List α} (hf : ∀ x ∈ l, Quietly s t root S (f x)) :
    Quietly s t root S (l.forM f) := by
  induction l with
  | nil =>
    rintro a _ ha _ ⟨⟩
    exact .refl ha
  | cons x l ih =>
    exact (hf x List.mem_cons_self).seq (ih fun y hy => hf y (List.mem_cons_of_mem x hy))

end Quietly

def shownIn (place : Place) (a : Analysis) : List ScopeId := place.host.elim [] a.store.hosts

/-- What brings in a query is the query itself or an item that is the query. -/
def Introduces (t : Tree) (enclosing x : Link) : Prop :=
  ∀ e, enclosing = some e → some e = x ∨ ∃ i, x = some i ∧ t.Presents (some e) i

structure QueryReady (t : Tree) (root : Link) (place : Place) (x : Link) (a : Analysis) : Prop where
  placed : Placed t root a
  reaches : ∀ i, x = some i → t.Spans root i
  hasHost : ∀ h, place.host = some h → HasScope h a
  hasParent : HasScope place.parent a
  enclosing : Introduces t place.enclosing x

namespace QueryReady

variable (h : QueryReady t root place x a)
include h

theorem showing_eq_nil (cs : List Child) (hσ : a.store.scopes.size ≤ σ) :
    showing (shownIn place a) cs σ = [] := by
  unfold shownIn
  cases hh : place.host with
  | none => rfl
  | some host => exact showing_hosts_eq_nil h.placed (h.hasHost host hh) hσ

variable (hab : Adds t root more R a b)
include hab

theorem shownIn_eq : shownIn place b = shownIn place a := by
  unfold shownIn
  cases hh : place.host with
  | none => rfl
  | some host => exact hab.hosts_eq h.placed (h.hasHost host hh)

theorem adds : QueryReady t root place x b :=
  { h with
    placed := hab.placed
    hasHost := fun host hh => hab.hasScope (h.hasHost host hh)
    hasParent := hab.hasScope h.hasParent }

end QueryReady

/-- The state of an analysis that is about to register an item of the query `q`: nothing that is no
query has been registered for the item. -/
structure ItemReady (t : Tree) (root : Link) (q : NodeId) (place : Place)
    (host : ScopeId) (isLateral : Bool) (x : Link) (a : Analysis) : Prop where
  placed : Placed t root a
  query : t.Spans root q
  draws : t.Draws q x
  known : Known q a
  fresh : ∀ k, t.Item x (some k) → Known k a → (t.kind (some k)).standsAlone
  hasHost : HasScope host a
  hasParent : HasScope place.parent a
  apart : isLateral = false → place.parent ≠ host
  enclosing : ∀ e i, place.enclosing = some e → t.Presents x i → t.Presents (some e) i

def QueryPlaced (t : Tree) (root : Link) (place : Place) (x : Link) (a b : Analysis) : Prop :=
  ∃ cs, Adds t root (showing (shownIn place a) cs) (fun _ => False) a b ∧ AddsBlocks t a b ∧
    ∀ i, x = some i → (t.kind x).givesRows → place.host.isSome →
      List.Forall₂ (ShownAs b) cs [(i, place.nullable)]

theorem QueryPlaced.quiet (h : QueryPlaced t root place x a b) (hhost : place.host = none) :
    Quiet t root a b := by
  obtain ⟨cs, hadds, hblocks, _⟩ := h
  rw [shownIn, hhost] at hadds
  exact ⟨hadds, hblocks⟩

def ItemPlaced (t : Tree) (root : Link) (place : Place) (host : ScopeId) (isLateral : Bool)
    (x : Link) (a b : Analysis) : Prop :=
  ∃ cs, Adds t root (showing (a.store.hosts host) cs) (fun k => t.Item x (some k)) a b ∧
    AddsBlocks t a b ∧ (∀ c ∈ cs, ShownOf t x b c) ∧ ∀ src, t.Joins x src →
    (isLateral → ∃ i, src = .relation i) →
      List.Forall₂ (ShownAs b) cs (src.leavesUnder place.nullable)

structure Registrar.Places (r : Registrar) (s : Setting) (t : Tree) (root : Link) : Prop where
  query : ∀ {place x a b}, QueryReady t root place x a → r.query place x s a = (.ok (), b) →
    QueryPlaced t root place x a b
  item : ∀ {q place host isLateral x a b}, ItemReady t root q place host isLateral x a →
    r.item place host isLateral x s a = (.ok (), b) → ItemPlaced t root place host isLateral x a b

namespace ItemReady

theorem reaches (h : ItemReady t root q place host isLateral x a) (hi : t.Item x (some i)) :
    t.Spans root i := by
  obtain ⟨c, hc, _, hx⟩ := h.draws
  exact h.query.trans (Tree.below_of_operand hc (hx.trans hi).reaches).to_reflTransGen

theorem adds {more : ScopeId → List Child}
    (h : ItemReady t root q place host isLateral x a) (hab : Adds t root more R a b)
    (hR : ∀ k, t.Item x (some k) → R k → (t.kind (some k)).standsAlone) :
    ItemReady t root q place host isLateral x b where
  placed := hab.placed
  query := h.query
  draws := h.draws
  known := hab.known h.known
  fresh k hk := by
    rintro ⟨ns, n, hn, rfl⟩
    rcases hab.created q ns n h.query (h.draws.item hk) hn with hn | halone | hr | hnot
    · exact h.fresh _ hk ⟨ns, n, hn, rfl⟩
    · exact halone
    · exact hR _ hk hr
    · exact absurd h.known hnot
  hasHost := hab.hasScope h.hasHost
  hasParent := hab.hasScope h.hasParent
  apart := h.apart
  enclosing := h.enclosing

theorem adds_namespace (hu : t.Unshared root) (h : ItemReady t root q place host isLateral x a)
    {kind : NamespaceKind} (hx : x = some i) (scope : ScopeId) (hst : t.Stands i kind)
    (hkind : (t.kind (some i)).standsAlone = false) {enclosing : Link}
    (hen : ∀ e, enclosing = some e → e = i ∨ t.Presents (some e) i) :
    Adds t root (fun _ => []) (fun k => t.Item x (some k)) a
      (a.withNamespace kind i enclosing scope) := by
  subst hx
  refine h.placed.adds_namespace scope hst (h.reaches (.refl _)) (fun e he => (hen e he).imp_right
    .inl) (fun q' hq' hd => ?_) fun halone => by rw [hkind] at halone; cases halone
  have heq : q' = q := hu.query q' q i hq' h.query hd h.draws
  refine ⟨fun hknown => ?_, .inr ⟨.refl _, heq ▸ h.known⟩⟩
  rw [h.fresh i (.refl _) hknown] at hkind
  cases hkind

end ItemReady

section Rules

theorem publish_adds (ha : Placed t root a) (h : publish place ns s a = (.ok (), b)) :
    ∃ cs, Adds t root (showing (shownIn place a) cs) R a b ∧ b.clauses = a.clauses ∧
      b.store.namespaces = a.store.namespaces ∧ ∀ i n, a.store.namespace? ns = some n →
      n.node = i → place.host.isSome → List.Forall₂ (ShownAs b) cs [(i, place.nullable)] := by
  unfold publish at h
  unfold shownIn
  cases hhost : place.host with
  | some host =>
    rw [hhost] at h
    cases h
    refine ⟨_, ha.adds_child host _, rfl, a.store.namespaces_addChild host _, fun i n hn hi _ => ?_⟩
    refine .cons ⟨rfl, n, ?_, hi⟩ .nil
    exact (ha.adds_child (R := R) host
      { aliasName := place.aliasName, source := ns, nullable := place.nullable }).namespaces _ n hn
  | none =>
    rw [hhost] at h
    cases h
    exact ⟨[], .refl ha, rfl, rfl, fun _ _ _ _ => nofun⟩

theorem Placed.adds_query (ha : Placed t root a) (scope : ScopeId)
    (hst : t.Stands i kind) (halone : (t.kind (some i)).standsAlone) (hi : ¬ Known i a)
    (hreach : t.Spans root i) (hen : Introduces t enclosing (some i)) :
    Adds t root (fun _ => []) R a (a.withNamespace kind i enclosing scope) := by
  refine ha.adds_namespace scope hst hreach (fun e he => ?_)
    (fun _ _ _ => ⟨hi, .inl halone⟩) fun _ => hi
  rcases hen e he with h | ⟨j, h, hj⟩
  · exact .inl (Option.some.inj h)
  · cases h
    exact .inr (.inl hj)

theorem newQuery_adds (ha : QueryReady t root place (some i) a) (kind : NamespaceKind)
    (hst : t.Stands i kind) (halone : (t.kind (some i)).standsAlone) (hi : ¬ Known i a) (h : publish
    place a.store.namespaces.size s (a.withNamespace kind i place.enclosing scope) = (.ok (), b)) :
    ∃ cs, Adds t root (showing (shownIn place a) cs) R a b ∧ b.clauses = a.clauses ∧ Known i b ∧
      (∀ ns n, b.store.namespace? ns = some n → a.store.namespace? ns = some n ∨ n.node = i) ∧
      (place.host.isSome → List.Forall₂ (ShownAs b) cs [(i, place.nullable)]) := by
  have hadd : Adds t root (fun _ => []) R a (a.withNamespace kind i place.enclosing scope) :=
    ha.placed.adds_query scope hst halone hi (ha.reaches i rfl) ha.enclosing
  have hget (id : NamespaceId) : (a.withNamespace kind i place.enclosing scope).store.namespace?
      id =
      if id = a.store.namespaces.size then
        some { kind, node := i, enclosing := place.enclosing.getD i, scope }
      else a.store.namespace? id := a.store.namespace?_addNamespace _ id
  obtain ⟨cs, hpub, hclauses, hns, hshown⟩ := publish_adds (R := R) hadd.placed h
  rw [ha.shownIn_eq hadd] at hpub
  have hown := (hget a.store.namespaces.size).trans (if_pos rfl)
  refine ⟨cs, hadd.trans hpub, hclauses, ⟨_, _, hpub.namespaces _ _ hown, rfl⟩,
    fun ns n hn => ?_, hshown i _ hown rfl⟩
  rw [Store.namespace?, hns] at hn
  have hn := (hget ns).symm.trans hn
  split at hn
  · cases hn
    exact .inr rfl
  · exact .inl hn

theorem run_setClauses (b : Block) (i : NodeId) :
    (Clause.all.forM fun c => setClause i c (b.scope c)) s a = (.ok (), { a with
      clauses := Clause.all.foldl (fun m c => m.insert (i, c) (b.scope c)) a.clauses }) := rfl

theorem get?_setClauses (m : Table (NodeId × Clause) ScopeId) (b : Block)
    (i q : NodeId) (c : Clause) :
    (Clause.all.foldl (fun m c => m.insert (i, c) (b.scope c)) m).get? (q, c) =
      if i = q then some (b.scope c) else m.get? (q, c) := by
  cases c <;> simp [Clause.all, Table.get?_insert, Block.scope]

theorem listScope_adds (ha : Placed t root a) (hsource : HasScope source a)
    (h : listScope source i s a = (.ok list, b)) :
    Unshown t root a b ∧ b.clauses = a.clauses ∧
      b.store.namespaces = a.store.namespaces ∧ HasScope list b ∧ (list = source ∨
      ∃ sc, b.store.scope? list = some sc ∧ sc.kind = .aggregating ∧ sc.parent = some source) := by
  unfold listScope at h
  rw [run_bind_get] at h
  split at h
  · cases h
    exact ⟨ha.adds_scope nofun, rfl, rfl, ⟨_, a.store.scope?_new _⟩,
      .inr ⟨_, a.store.scope?_new _, rfl, rfl⟩⟩
  · cases h
    exact ⟨.refl ha, rfl, rfl, hsource, .inl rfl⟩

theorem newBlock_adds (ha : QueryReady t root place (some i) a)
    {block : Block} (hk : t.kind (some i) = .select)
    (hi : ¬ Known i a) (h : newBlock place i s a = (.ok block, b)) :
    ∃ cs, Adds t root (showing (shownIn place a) cs) (fun _ => False) a b ∧
      (place.host.isSome → List.Forall₂ (ShownAs b) cs [(i, place.nullable)]) ∧ Known i b ∧
      (∀ ns n, b.store.namespace? ns = some n → a.store.namespace? ns = some n ∨ n.node = i) ∧
      a.store.scopes.size ≤ block.source ∧ b.store.scope? block.source =
      some { kind := .select, parent := some place.parent, node := some i } ∧
      (∀ c, HasScope (block.scope c) b) ∧
      ∀ q σ, b.clauses.get? (q, .source) = some σ → a.clauses.get? (q, .source) = some σ ∨
        q = i ∧ σ = block.source := by
  unfold newBlock at h
  rw [run_newScope] at h
  have ha₁ : Unshown t root a
      (a.withScope { kind := .select, parent := some place.parent, node := some i }) :=
    ha.placed.adds_scope (by rintro _ ⟨⟩)
  have hsc₁ : (a.withScope
      { kind := .select, parent := some place.parent, node := some i }).store.scope?
      a.store.scopes.size =
      some { kind := .select, parent := some place.parent, node := some i } :=
    a.store.scope?_new _
  obtain ⟨list, a₂, hlist, h⟩ := run_bind_ok h
  obtain ⟨ha₂, hcl₂, hns₂, hlist, hlisted⟩ := listScope_adds ha₁.placed ⟨_, hsc₁⟩ hlist
  rw [run_newScope] at h
  generalize ha₃ : a₂.withScope { kind := .orderBy, parent := some list, node := some i } = a₃ at h
  have hadds₃ : Unshown t root a₂ a₃ :=
    ha₃ ▸ ha₂.placed.adds_scope (by rintro _ ⟨⟩)
  have hadds : Unshown t root a a₃ := (ha₁.trans ha₂).trans hadds₃
  have hsc₃ : a₃.store.scope? a.store.scopes.size =
      some { kind := .select, parent := some place.parent, node := some i } :=
    hadds₃.scopes _ _ (ha₂.scopes _ _ hsc₁)
  have horder : HasScope a₂.store.scopes.size a₃ := by
    rw [← ha₃]
    exact ⟨_, a₂.store.scope?_new _⟩
  have hns₃ : a₃.store.namespaces = a.store.namespaces := by rw [← ha₃]; exact hns₂
  have hcl₃ : a₃.clauses = a.clauses := by rw [← ha₃]; exact hcl₂
  obtain ⟨⟨⟩, a₄, hset, h⟩ := run_bind_ok h
  rw [run_setClauses] at hset
  have hstore : a₄.store = a₃.store := by cases hset; rfl
  have hclauses (q : NodeId) (σ : ScopeId) (hq : a₄.clauses.get? (q, .source) = some σ) :
      a.clauses.get? (q, .source) = some σ ∨ q = i ∧ σ = a.store.scopes.size := by
    cases hset
    rw [get?_setClauses, hcl₃] at hq
    split at hq
    · rename_i heq
      exact .inr ⟨heq.symm, (Option.some.inj hq).symm⟩
    · exact .inl hq
  have hplaced : Placed t root a₄ := by
    refine hadds.placed.of_eq (by cases hset; rfl) (by cases hset; rfl)
      (by rw [hstore]) (hstore ▸ hadds.placed.inward) (fun q σ hq => ?_) fun q σ hq => ?_
    · rw [HasScope, hstore]
      rcases hclauses q σ hq with hq | ⟨_, rfl⟩
      · exact hadds.hasScope (ha.placed.clauses q σ hq)
      · exact ⟨_, hsc₃⟩
    · cases hset
      rw [get?_setClauses] at hq
      split at hq
      · refine ⟨⟨a.store.scopes.size, list, a₂.store.scopes.size⟩,
          fun c => (get?_setClauses _ _ i q c).trans (if_pos ‹_›), ?_, ?_⟩
        · refine hlisted.imp_right ?_
          rintro ⟨sc, hsc, hkind, hparent⟩
          exact ⟨_, hadds₃.scopes _ _ hsc, hkind, hparent⟩
        · rw [← ha₃]
          exact ⟨_, a₂.store.scope?_new _, rfl, rfl⟩
      · refine (hadds.placed.blocks q σ hq).imp fun block hblock =>
          ⟨fun c => ?_, hblock.list, hblock.order⟩
        exact ((get?_setClauses _ _ i q c).trans (if_neg ‹_›)).trans (hblock.clauses c)
  have hadds₄ : Unshown t root a a₄ := by
    refine ⟨hplaced, ?_, ?_, ?_⟩
    · rw [hstore]; exact hadds.scopes
    · rw [hstore]; exact hadds.namespaces
    · rw [hstore]; exact hadds.created
  have hget (ns : NamespaceId) : a₄.store.namespace? ns = a.store.namespace? ns := by
    rw [hstore, Store.namespace?, hns₃]; rfl
  rw [run_newNamespace] at h
  obtain ⟨⟨⟩, a₅, hpub, h⟩ := run_bind_ok h
  cases h
  have hunknown : ¬ Known i a₄ := by
    rintro ⟨ns, n, hn, hnode⟩
    exact hi ⟨ns, n, (hget ns).symm.trans hn, hnode⟩
  obtain ⟨cs, hadds₅, hcl₅, hknown, hnodes, hshown⟩ :=
    newQuery_adds (R := fun _ => False) (ha.adds hadds₄) .select hk (by rw [hk]; rfl) hunknown hpub
  rw [ha.shownIn_eq hadds₄] at hadds₅
  refine ⟨cs, hadds₄.trans hadds₅, hshown, hknown, fun ns n hn => ?_, Nat.le_refl _, ?_, ?_, ?_⟩
  · exact (hnodes ns n hn).imp_left fun hn => (hget ns).symm.trans hn
  · have hsc := hadds₅.scopes a.store.scopes.size _ (by rw [hstore]; exact hsc₃)
    rw [ha.showing_eq_nil cs (Nat.le_refl _)] at hsc
    exact hsc
  · have hscope (σ : ScopeId) (hσ : HasScope σ a₃) : HasScope σ b := by
      refine hadds₅.hasScope ?_
      rw [HasScope, hstore]
      exact hσ
    intro c
    cases c with
    | source | condition | groups => exact hscope _ ⟨_, hsc₃⟩
    | list | having => exact hscope _ (hadds₃.hasScope hlist)
    | order => exact hscope _ horder
  · intro q σ hq
    rw [hcl₅] at hq
    exact hclauses q σ hq

theorem QueryReady.placed_of_quiet (ha : QueryReady t root place (some i) a) (hi : ¬ Known i a)
    (kind : NamespaceKind) (hst : t.Stands i kind) (halone : (t.kind (some i)).standsAlone)
    (hrest : Quietly s t root (· = place.parent) rest) (h : (newNamespace kind i place.enclosing
    place.parent >>= fun ns => publish place ns >>= fun _ => rest) s a = (.ok (), b)) :
    QueryPlaced t root place (some i) a b := by
  rw [run_newNamespace] at h
  obtain ⟨⟨⟩, c, hpub, h⟩ := run_bind_ok h
  obtain ⟨cs, hadds, hclauses, _, _, hshown⟩ :=
    newQuery_adds (R := fun _ => False) ha kind hst halone hi hpub
  have hquiet := hrest c b hadds.placed (fun σ hσ => hσ ▸ hadds.hasScope ha.hasParent) h
  refine ⟨cs, hadds.append_silent hquiet.1,
    AddsBlocks.trans (.of_clauses hclauses) hquiet.2 hquiet.1 hadds.size_le fun _ _ =>
    rfl, fun j hj _ hsome => ?_⟩
  cases hj
  exact (hshown hsome).imp fun _ _ hp => hp.of_namespaces hquiet.1.namespaces

theorem aliasOr_adds (ha : Placed t root a) (hother : other = freshAlias ∨
    ∃ name, other = pure name) (h : aliasOr aliasName other s a = (.ok v, b)) :
    Adds t root (fun _ => []) R a b ∧ b.clauses = a.clauses ∧ b.store = a.store := by
  unfold aliasOr at h
  rcases hother with rfl | ⟨name, rfl⟩ <;> split at h <;> cases h <;>
    exact ⟨(Adds.refl ha).of_eq rfl rfl rfl rfl, rfl, rfl⟩

theorem ItemReady.placed_of_quiet (hu : t.Unshared root)
    (ha : ItemReady t root q place host isLateral (some i) a) (kind : NamespaceKind)
    (hst : t.Stands i kind) (hkind : (t.kind (some i)).standsAlone = false)
    (hp : t.Presents (some i) i) (hother : other = freshAlias ∨ ∃ name, other = pure name)
    (hname : aliasOr place.aliasName other s a = (.ok aliasName, a₁))
    (hrest : Quietly s t root (· = place.parent) f)
    (h : f s ((a₁.withNamespace kind i place.enclosing place.parent).withChild host
    { aliasName, source := a₁.store.namespaces.size, nullable := place.nullable }) = (.ok (), b)) :
    ItemPlaced t root place host isLateral (some i) a b := by
  obtain ⟨hadd₁, hcl₁, hstore⟩ := aliasOr_adds (R := fun _ => False) ha.placed hother hname
  have ha₁ := ha.adds hadd₁ fun _ _ h => h.elim
  have hadd₂ := ha₁.adds_namespace hu rfl place.parent hst hkind fun e he =>
    .inr (ha.enclosing e i he hp)
  have hown : (a₁.withNamespace kind i place.enclosing place.parent).store.namespace?
      a₁.store.namespaces.size =
      some { kind, node := i, enclosing := place.enclosing.getD i, scope := place.parent } :=
    a₁.store.namespace?_new _
  have hhosts : (a₁.withNamespace kind i place.enclosing place.parent).store.hosts host =
      a.store.hosts host :=
    (hadd₂.hosts_eq ha₁.placed ha₁.hasHost).trans (by rw [hstore])
  have hcl₂ : (a₁.withNamespace kind i place.enclosing place.parent).clauses = a.clauses := hcl₁
  generalize a₁.withNamespace kind i place.enclosing place.parent = a₂ at hadd₂ hown hhosts hcl₂ h
  generalize hchild : Child.mk aliasName a₁.store.namespaces.size place.nullable = child at h
  have hadd₃ := hadd₂.placed.adds_child (R := fun k => t.Item (some i) (some k)) host child
  rw [hhosts] at hadd₃
  have hadd := (hadd₁.weaken fun _ => False.elim).trans (hadd₂.trans hadd₃)
  have hblocks : AddsBlocks t a (a₂.withChild host child) := .of_clauses hcl₂
  have hquiet := hrest _ b hadd.placed (fun _ hσ => hσ ▸ hadd.hasScope ha.hasParent) h
  have hend := hquiet.1.namespaces _ _ (hadd₃.namespaces _ _ hown)
  refine ⟨[child], hadd.append_silent (hquiet.1.weaken fun _ => False.elim),
    hblocks.trans hquiet.2 hquiet.1 hadd.size_le fun _ _ => rfl, fun d hd =>
    ?_, fun src hsrc _ => ?_⟩
  · rw [List.mem_singleton.mp hd, ← hchild]
    exact ⟨_, hend, .refl _, hp⟩
  · cases hsrc with
    | relation hp' =>
      rw [hp'.unique hp, JoinTree.leavesUnder_relation, ← hchild]
      exact .cons ⟨rfl, _, hend, rfl⟩ .nil
    | join hc hk => exact absurd hp (Tree.not_presents_join hc hk)

section

variable (hu : t.Unshared root) (hr : r.Places s t root)
include hr

theorem query_quiet (hparent : S parent) (hx : ∀ i, x = some i → t.Spans root i) :
    Quietly s t root S (r.query { parent, enclosing := x } x) := by
  intro a b ha hS h
  have hready : QueryReady t root { parent, enclosing := x } x a :=
    ⟨ha, hx, nofun, hS _ hparent, fun e he => .inl he.symm⟩
  exact (hr.query hready h).quiet rfl

theorem registerNested_quiet {S : ScopeId → Prop} (hscope : S scope)
    (hx : ∀ n, t.Spans x n → t.Spans root n) : Quietly s t root S (registerNested r scope x) := by
  intro a b ha hS h
  refine Quietly.forM (fun n hn => query_quiet hr hscope fun _ hi => ?_) a b ha hS h
  rw [ha.tree] at hn
  exact Option.some.inj hi ▸ hx n (Tree.reflTransGen_of_mem_preorderWhere (List.mem_filter.mp hn).1)

theorem ItemReady.placed_under (ha : ItemReady t root q place host isLateral (some i) a)
    (hk : t.call? (some i) = some k) (hkind : k.kind = .naming ∨ k.kind = .lateral) (h : r.item
    { place with enclosing := e, aliasName } host isLateral' (k.operand 0) s a = (.ok (), b))
    (hlat : isLateral' = false → isLateral = false)
    (he : ∀ k m, e = some k → t.Presents (some i) m → t.Presents (some k) m) :
    ItemPlaced t root place host isLateral (some i) a b := by
  have hready : ItemReady t root q { place with enclosing := e, aliasName }
      host isLateral' (k.operand 0) a :=
    { ha with
      draws := ha.draws.item (.under hk hkind (.refl _))
      fresh := fun m hm => ha.fresh m (.under hk hkind hm)
      apart := fun h => ha.apart (hlat h)
      enclosing := fun k' m hk' hm => he k' m hk' (.under hk hkind hm) }
  obtain ⟨cs, hadds, hblocks, hof, hsrc⟩ := hr.item hready h
  refine ⟨cs, hadds.weaken fun m hm => .under hk hkind hm, hblocks,
    fun d hd => (hof d hd).item (.under hk hkind (.refl _)), fun src hj _ => ?_⟩
  obtain ⟨m, rfl, hm⟩ := hj.of_under hk hkind
  exact hsrc _ (.relation hm) fun _ => ⟨m, rfl⟩

include hu

theorem registerSelect_places (ha : QueryReady t root place (some i) a)
    (hk : t.call? (some i) = some k) (hkind : k.kind = .select) (hi : ¬ Known i a)
    (h : registerSelect r place i s a = (.ok (), b)) : QueryPlaced t root place (some i) a b := by
  have hreach := ha.reaches i rfl
  unfold registerSelect at h
  obtain ⟨block, a₁, hblock, h⟩ := run_bind_ok h
  obtain ⟨cs, hadds, hshown, hknown, hnodes, hle, hsc, hscopes, hclauses⟩ :=
    newBlock_adds ha ((Tree.kind_of_call? hk).trans hkind) hi hblock
  rw [run_bind_get, hadds.placed.tree] at h
  have hparts : t.select (some i) = .ofCall k := by rw [Tree.select, hk]; rfl
  dsimp only at h
  rw [hparts] at h
  have hbelow (j : Nat) (n : NodeId) (hn : t.Spans (k.operand j) n) :
      t.Spans root n := hreach.trans (Tree.below_of_operand hk hn).to_reflTransGen
  have hnested (cl : Clause) (j : Nat) :
      Quietly s t root (fun σ => ∃ cl, σ = block.scope cl)
      (registerNested r (block.scope cl) (k.operand j)) :=
    registerNested_quiet hr ⟨cl, rfl⟩ (hbelow j)
  have hgroups : Quietly s t root (fun σ => ∃ cl, σ = block.scope cl)
      ((t.elements (k.operand 4)).forM (registerNested r block.source)) :=
    .forM fun y hy => registerNested_quiet hr ⟨.source, rfl⟩
      fun n hn => hbelow 4 n ((Tree.reflTransGen_of_mem_elements hy).trans hn)
  have hrest := (hnested .source 3).seq (hgroups.seq ((hnested .list 1).seq ((hnested .having 5).seq
    ((hnested .source 6).seq (hnested .order 7)))))
  have hready : ItemReady t root i { parent := place.parent, enclosing := k.operand 2 }
      block.source false (k.operand 2) a₁ := by
    refine ⟨hadds.placed, hreach, ⟨k, hk, hkind, .refl _⟩, hknown, fun m hm => ?_,
      ⟨_, hsc⟩, hadds.hasScope ha.hasParent, fun _ heq => ?_, fun e j he hj => ?_⟩
    · rintro ⟨ns, n, hn, rfl⟩
      rcases hnodes ns n hn with hn | hnode
      · exact (ha.placed.drawn i ns n hreach ⟨k, hk, hkind, hm⟩ hn).resolve_right hi
      · rw [hnode, Tree.kind_of_call? hk, hkind]
        rfl
    · exact absurd (heq ▸ ha.hasParent.lt) (Nat.not_lt.mpr hle)
    · rwa [← show k.operand 2 = some e from he]
  -- the state in between shows the relations of the block, and the rest is quiet
  have hmid : ∃ c ds, Adds t root (showing [block.source] ds) (fun m => t.Item
      (k.operand 2) (some m)) a₁ c ∧ AddsBlocks t a₁ c ∧ (∀ d ∈ ds, ShownOf t (k.operand 2) c d) ∧
      (∀ src, t.Joins (k.operand 2) src → List.Forall₂ (ShownAs c) ds src.leaves) ∧
        Quiet t root c b := by
    split at h
    · obtain ⟨⟨⟩, c, hitem, h⟩ := run_bind_ok h
      obtain ⟨ds, hadd, hblocks, hof, hsrc⟩ := hr.item hready hitem
      rw [Store.hosts_of_kind hsc (by rintro ⟨⟩)] at hadd
      refine ⟨c, ds, hadd, hblocks, hof, fun src hj => ?_, hrest _ _ hadd.placed ?_ h⟩
      · exact src.leavesUnder_false ▸ hsrc src hj (by rintro ⟨⟩)
      · rintro _ ⟨cl, rfl⟩
        exact hadd.hasScope (hscopes cl)
    · rename_i hnone
      have hnone : k.operand 2 = none := Option.not_isSome_iff_eq_none.mp hnone
      refine ⟨a₁, [], (Adds.refl hadds.placed).congr fun id _ => ?_, .of_clauses rfl,
        List.forall_mem_nil _, fun src hj => ?_, hrest _ _ hadds.placed ?_ h⟩
      · unfold showing
        split <;> rfl
      · rw [hnone] at hj
        cases hj with
        | relation hp => cases hp
      · rintro _ ⟨cl, rfl⟩
        exact hscopes cl
  obtain ⟨c, ds, hadd, hblocks, hof, hsrc, hquiet⟩ := hmid
  refine ⟨cs, ((((hadds.weaken fun _ => False.elim).trans hadd).trans (hquiet.1.weaken fun _ =>
    False.elim)).congr fun id hid => ?_).restrict fun q m hq hd hqa hm => ?_,
    fun q σ hq => ?_, fun j hj _ hsome => ?_⟩
  · have hne : id ∉ [block.source] := fun hmem => by
      rw [List.mem_singleton.mp hmem] at hid
      exact absurd hid.lt (Nat.not_lt.mpr hle)
    rw [List.append_nil, show showing [block.source] ds id = [] from if_neg hne, List.append_nil]
  · exact hi (hu.query q i m hq hreach hd ⟨k, hk, hkind, hm⟩ ▸ hqa)
  · rcases hquiet.2 q σ hq with hq | ⟨hσ, hshows⟩
    · rcases hblocks q σ hq with hq | ⟨hσ, hshows⟩
      · refine (hclauses q σ hq).imp_right ?_
        rintro ⟨rfl, rfl⟩
        have hscope := hadd.scopes _ _ hsc
        rw [showing, if_pos (List.mem_singleton.mpr rfl)] at hscope
        refine ⟨hle, Shows.adds ⟨_, hscope, fun d hd => ?_, fun src hj => ?_⟩ hquiet.1 rfl⟩
        · rw [hparts]
          exact hof d hd
        · rw [hparts] at hj
          exact hsrc src hj
      · exact .inr ⟨Nat.le_trans hadds.size_le hσ, hshows.adds hquiet.1 rfl⟩
    · exact .inr ⟨Nat.le_trans hadds.size_le (Nat.le_trans hadd.size_le hσ), hshows⟩
  · cases hj
    refine (hshown hsome).imp fun _ _ hp => ?_
    exact (hp.of_namespaces hadd.namespaces).of_namespaces hquiet.1.namespaces

theorem registerChange_places (ha : QueryReady t root place (some i) a)
    (hk : t.call? (some i) = some k) (hkind : k.kind.isUpdate) (hi : ¬ Known i a)
    (htarget : target = k.operand 0) (hquery : query = k.operand j)
    (h : registerChange r place i k target query s a = (.ok (), b)) :
    QueryPlaced t root place (some i) a b := by
  have hupdate : (t.kind (some i)).isUpdate := by rwa [Tree.kind_of_call? hk]
  have halone : (t.kind (some i)).standsAlone := by
    rw [Kind.standsAlone, Kind.isStatement, hupdate, Bool.or_true, Bool.true_or]
  have hreach := ha.reaches i rfl
  unfold registerChange at h
  rw [run_newNamespace] at h
  generalize ha₁ : a.withNamespace .change i (some i) place.parent = a₁ at h
  have hadds₁ : Unshown t root a a₁ :=
    ha₁ ▸ ha.placed.adds_query _ hupdate halone hi hreach fun e he => .inl he.symm
  have hknown : Known i a₁ := by
    rw [← ha₁]
    exact ⟨_, _, a.store.namespace?_new _, rfl⟩
  rw [run_bind_get, hadds₁.placed.tree] at h
  have hrefused : ∀ id cause, (refuse id cause : AnalysisM Unit) s a₁ ≠ (.ok (), b) :=
    fun _ _ => nofun
  cases target with
  | none => exact absurd h (hrefused _ _)
  | some table =>
    cases hname : t.identifier? (some table) with
    | none =>
      rw [hname] at h
      exact absurd h (hrefused _ _)
    | some name =>
      rw [hname] at h
      dsimp only at h
      rw [run_newNamespace] at h
      generalize ha₂ : a₁.withNamespace .table table (some i) place.parent = a₂ at h
      have hadds₂ : Unshown t root a₁ a₂ := by
        rw [← ha₂]
        have htable : t.Spans root table :=
          hreach.trans (Tree.below_of_operand hk (k := 0) (by rw [← htarget])).to_reflTransGen
        refine hadds₁.placed.adds_namespace _ ⟨name, hname⟩ htable (fun e he => .inr (.inr ?_))
          (fun q hq hd => ?_) fun halone => ?_
        · cases he
          obtain ⟨ns, _, hns, _⟩ := hadds₁.placed.exists_namespaceOf hknown
          rw [hns]
          nofun
        · exact absurd hd (hu.target i k table q hreach hq hk hkind htarget.symm)
        · rw [Tree.kind_eq_other (Tree.form?_of_identifier? hname) fun _ => nofun] at halone
          cases halone
      have hadds : Unshown t root a a₂ := hadds₁.trans hadds₂
      have hready : QueryReady t root
          { parent := place.parent, host := place.host, enclosing := query } query a₂ :=
        { ha.adds hadds with
          reaches := fun m hm =>
            hreach.trans (Tree.below_of_operand hk (k := j) (by rw [← hquery, hm])).to_reflTransGen
          enclosing := fun e he => .inl he.symm }
      split at h
      · cases h
      · obtain ⟨cs, hq, hblocks, _⟩ := hr.query hready h
        have hq : Adds t root (showing (shownIn place a₂) cs) (fun _ => False) a₂ b := hq
        rw [ha.shownIn_eq hadds] at hq
        have hclauses : a₂.clauses = a.clauses := by rw [← ha₂, ← ha₁]; rfl
        exact ⟨cs, hadds.trans hq, AddsBlocks.trans (.of_clauses hclauses) hblocks hq
          hadds.size_le fun σ => ha.showing_eq_nil cs, fun _ _ hrows _ =>
          (Kind.not_isUpdate_of_givesRows hrows hupdate).elim⟩

theorem registerOther_places (ha : QueryReady t root place (some i) a)
    (hk : t.call? (some i) = some k) (hi : ¬ Known i a)
    (h : registerOther r place i k s a = (.ok (), b)) : QueryPlaced t root place (some i) a b := by
  have hkind := Tree.kind_of_call? hk
  have hreach := ha.reaches i rfl
  have hbranches : Quietly s t root (· = place.parent)
      (k.operands.forM fun branch =>
      r.query { parent := place.parent, enclosing := branch } branch) :=
    .forM fun y hy => query_quiet hr rfl fun n hn => hreach.tail (hn ▸ .of_operands hk hy)
  have hrows : Quietly s t root (· = place.parent)
      (k.operands.forM (registerNested r place.parent)) :=
    .forM fun y hy => registerNested_quiet hr rfl fun n hn =>
      (hreach.tail (.of_operands hk hy)).trans hn
  unfold registerOther at h
  cases hkk : k.kind <;> simp only [hkk] at h
  case union | except | intersect =>
    exact ha.placed_of_quiet hi .setOp (by rw [Tree.Stands, hkind, hkk]; rfl)
      (by rw [hkind, hkk]; rfl) hbranches h
  case values =>
    exact ha.placed_of_quiet hi .values (hkind.trans hkk) (by rw [hkind, hkk]; rfl) hrows h
  case insert | delete =>
    exact registerChange_places hu hr ha hk (by rw [hkk]; rfl) hi rfl (j := 3) rfl h
  case update =>
    exact registerChange_places hu hr ha hk (by rw [hkk]; rfl) hi rfl (j := 5) rfl h
  case multisetQuery =>
    refine ha.placed_of_quiet hi .collect (hkind.trans hkk) (by rw [hkind, hkk]; rfl)
      (query_quiet hr rfl fun n hn => ?_) h
    exact hreach.trans (Tree.below_of_operand hk (k := 0) (by rw [hn])).to_reflTransGen
  all_goals cases h

theorem registerQuery_places (ha : QueryReady t root place x a)
    (h : registerQuery r place x s a = (.ok (), b)) : QueryPlaced t root place x a b := by
  unfold registerQuery at h
  rw [run_bind_get, ha.placed.tree] at h
  have hregister (hx : ∀ i, x = some i → ¬ Known i a)
      (h : registerQuery.register r place x t s a = (.ok (), b)) :
      QueryPlaced t root place x a b := by
    unfold registerQuery.register at h
    cases x with
    | none => cases h
    | some i =>
      cases hk : t.call? (some i) with
      | none => rw [hk] at h; cases h
      | some k =>
        simp only [hk] at h
        split at h
        · exact registerSelect_places hu hr ha hk ‹_› (hx i rfl) h
        · exact registerOther_places hu hr ha hk (hx i rfl) h
  cases hns : a.namespaceAt x with
  | none =>
    rw [hns] at h
    refine hregister (fun i hi hknown => ?_) h
    obtain ⟨ns, _, hof, _⟩ := ha.placed.exists_namespaceOf hknown
    rw [hi] at hns
    cases hof.symm.trans hns
  | some ns =>
    obtain ⟨i, rfl⟩ : ∃ i, x = some i := Option.ne_none_iff_exists'.mp fun hx => by
      rw [hx] at hns; cases hns
    obtain ⟨n, hn, _⟩ := ha.placed.leads i ns hns
    rw [relation?, hns, Option.bind_some, hn] at h
    dsimp only at h
    split at h
    · rename_i hnode
      obtain ⟨cs, hadds, hclauses, _, hshown⟩ := publish_adds (R := fun _ => False) ha.placed h
      refine ⟨cs, hadds, .of_clauses hclauses, fun j hj _ hsome => ?_⟩
      exact hshown j n hn (Option.some.inj (hnode.trans hj)) hsome
    · rename_i hnode
      refine hregister (fun j hj hknown => hnode ?_) h
      cases hj
      obtain ⟨ns', n', hof, hn', hnode'⟩ := ha.placed.exists_namespaceOf hknown
      cases hof.symm.trans hns
      cases hn'.symm.trans hn
      rw [hnode']

theorem registerJoin_places (ho : t.Ordered)
    (ha : ItemReady t root q place host isLateral (some i) a) (hk : t.call? (some i) = some k)
    (hkind : k.kind = .join) (h : registerJoin r place host isLateral i k s a = (.ok (), b)) :
    ItemPlaced t root place host isLateral (some i) a b := by
  have hbelow (j : Nat) (n : NodeId) (hn : t.Spans (k.operand j) n) :
      t.Spans root n :=
    (ha.reaches (.refl _)).trans (Tree.below_of_operand hk hn).to_reflTransGen
  unfold registerJoin at h
  rw [run_newScope] at h
  generalize hσ : a.store.scopes.size = σ at h
  obtain ⟨⟨⟩, a₁, hset, h⟩ := run_bind_ok h
  -- the scope of the join is there and shows nothing
  have hadd₁ : Unshown t root a a₁ := by
    cases hset
    exact (ha.placed.adds_scope fun h hh => by cases hh; exact ha.hasHost).of_eq rfl rfl rfl rfl
  have hsc₁ : a₁.store.scope? σ =
      some { kind := .join, parent := some place.parent, node := some i, host := some host } := by
    cases hset
    exact hσ ▸ a.store.scope?_new _
  have hns₁ : a₁.store.namespaces = a.store.namespaces := by cases hset; rfl
  have hcl₁ : a₁.clauses = a.clauses := by cases hset; rfl
  have hparent : place.parent ≠ σ := Nat.ne_of_lt (hσ ▸ ha.hasParent.lt)
  have hside (j : Nat) (nullable isLateral : Bool) (hj : ∀ y, t.Item (k.operand j) y →
      t.Item (some i) y) :
      ItemReady t root q { parent := place.parent, enclosing := k.operand j, nullable }
        σ isLateral (k.operand j) a₁ := by
    refine ⟨hadd₁.placed, ha.query, ha.draws.item (hj _ (.refl _)), hadd₁.known ha.known,
      fun m hm => ?_, ⟨_, hsc₁⟩, hadd₁.hasScope ha.hasParent, fun _ => hparent, fun e m he hm => ?_⟩
    · rintro ⟨ns, n, hn, hnode⟩
      refine ha.fresh m (hj _ hm) ⟨ns, n, ?_, hnode⟩
      rwa [Store.namespace?, hns₁] at hn
    · rwa [← show k.operand j = some e from he]
  rw [run_bind_get, hadd₁.placed.tree] at h
  obtain ⟨⟨⟩, a₂, hleft, h⟩ := run_bind_ok h
  obtain ⟨cs, hadd₂, hblocks₂, hof₂, hsrc₂⟩ :=
    hr.item (hside 0 _ _ fun y hy => .left hk hkind hy) hleft
  obtain ⟨⟨⟩, a₃, hright, h⟩ := run_bind_ok h
  have hready := (hside 3 (place.nullable || (t.joinType (.ofCall k)).rightNullable)
    false fun y hy => .right hk hkind hy).adds hadd₂ fun m hm hm' =>
    absurd hm (hu.side i k m (ha.reaches (.refl _)) hk hkind hm')
  obtain ⟨ds, hadd₃, hblocks₃, hof₃, hsrc₃⟩ := hr.item hready hright
  rw [hadd₂.hosts_eq hadd₁.placed ⟨_, hsc₁⟩] at hadd₃
  have hboth :=
    (hadd₁.weaken (S := fun m => t.Item (k.operand 0) (some m) ∨ t.Item (k.operand 3) (some m))
    fun _ => False.elim).trans ((hadd₂.weaken fun _ => .inl).trans (hadd₃.weaken fun _ => .inr))
  have hjoin : (t.kind (some i)).standsAlone = false := by rw [Tree.kind_of_call? hk, hkind]; rfl
  have hnotin (j : Nat) (hm : t.Item (k.operand j) (some i)) : False :=
    absurd (ho.lt_of_below (Tree.below_of_operand hk hm.reaches)) (Nat.lt_irrefl i)
  have hunknown : ¬ Known i a₃ := by
    rintro ⟨ns, n, hn, rfl⟩
    rcases hboth.created q ns n ha.query ha.draws hn with hn | halone | hm | hnot
    · exact absurd (ha.fresh _ (.refl _) ⟨ns, n, hn, rfl⟩) (by rw [hjoin]; decide)
    · exact absurd halone (by rw [hjoin]; decide)
    · exact hm.elim (hnotin 0) (hnotin 3)
    · exact hnot ha.known
  rw [run_newNamespace] at h
  generalize ha₄ : a₃.withNamespace .join i (some i) σ = a₄ at h
  have hadd₄ : Adds t root (fun _ => []) (fun m => t.Item (some i) (some m)) a₃ a₄ := by
    rw [← ha₄]
    refine hboth.placed.adds_namespace σ ((Tree.kind_of_call? hk).trans hkind)
      (ha.reaches (.refl _)) (fun e he => .inl (Option.some.inj he).symm)
      (fun q' hq' hd => ⟨hunknown, .inr ⟨.refl _, ?_⟩⟩) fun _ => hunknown
    exact hu.query q' q i hq' ha.query hd ha.draws ▸ hboth.known ha.known
  have hcl₄ : a₄.clauses = a₃.clauses := by rw [← ha₄]; rfl
  have hscope : HasScope σ a₄ := hadd₄.hasScope (hadd₃.hasScope (hadd₂.hasScope ⟨_, hsc₁⟩))
  have hquiet := registerNested_quiet hr (S := (· = σ)) rfl (hbelow 5)
    a₄ b hadd₄.placed (fun _ hσ => hσ ▸ hscope) h
  have hblocks : AddsBlocks t a₁ b := by
    have h₃ := hblocks₂.trans hblocks₃ hadd₃ hadd₂.size_le fun σ' =>
      showing_hosts_eq_nil hadd₁.placed ⟨_, hsc₁⟩
    have hsize := Nat.le_trans hadd₂.size_le hadd₃.size_le
    have h₄ := h₃.trans (.of_clauses hcl₄) hadd₄ hsize fun _ _ => rfl
    exact h₄.trans hquiet.2 hquiet.1 (Nat.le_trans hsize hadd₄.size_le) fun _ _ => rfl
  have hhosts := Store.hosts_of_join hadd₁.placed.inward hsc₁ rfl rfl
  rw [hadd₁.hosts_eq ha.placed ha.hasHost] at hhosts
  have hlast := hadd₄.trans (hquiet.1.weaken fun _ => False.elim)
  have hall := (hboth.weaken fun _ hm => hm.elim (.left hk hkind) (.right hk hkind)).trans hlast
  have hns₂ (ns : NamespaceId) (n : Namespace)
      (hn : a₂.store.namespace? ns = some n) : b.store.namespace? ns = some n :=
    hlast.namespaces ns n (hadd₃.namespaces ns n hn)
  refine ⟨if some host = some place.parent then [] else cs ++ ds, hall.congr fun id hid => ?_,
    fun q' σ' hq' => ?_, fun d hd => ?_, fun src hsrc hrel => ?_⟩
  · have hne : id ≠ σ := Nat.ne_of_lt (hσ ▸ hid.lt)
    rw [List.append_nil, List.append_nil, List.nil_append, showing_append, hhosts]
    unfold showing
    split <;> simp [hne]
  · rcases hblocks q' σ' hq' with hq' | ⟨hle, hshows⟩
    · exact .inl (hcl₁ ▸ hq')
    · exact .inr ⟨Nat.le_trans hadd₁.size_le hle, hshows⟩
  · split at hd
    · cases hd
    · rcases List.mem_append.mp hd with hd | hd
      · exact ((hof₂ d hd).of_namespaces hns₂).item (.left hk hkind (.refl _))
      · exact ((hof₃ d hd).of_namespaces hlast.namespaces).item (.right hk hkind (.refl _))
  · cases hsrc with
    | relation hp => exact absurd hp (Tree.not_presents_join hk hkind)
    | @join _ c l r hc _ hl hr =>
      cases hk.symm.trans hc
      have hlateral : isLateral = false := Bool.eq_false_iff.mpr fun hlat => by
        obtain ⟨_, hsrc⟩ := hrel hlat
        cases hsrc
      have hapart : some host ≠ some place.parent :=
        fun heq => ha.apart hlateral (Option.some.inj heq).symm
      rw [if_neg hapart, JoinTree.leavesUnder_join]
      refine List.rel_append ?_ ?_
      · exact (hsrc₂ l hl fun hlat => absurd hlat (by rw [hlateral]; decide)).imp fun _ _ hp =>
          hp.of_namespaces hns₂
      · exact (hsrc₃ r hr (by rintro ⟨⟩)).imp fun _ _ hp => hp.of_namespaces hlast.namespaces

theorem ItemReady.placed_query (ha : ItemReady t root q place host isLateral (some i) a)
    (hk : t.call? (some i) = some k)
    (hrows : k.kind.givesRows) (h : (aliasOr place.aliasName freshAlias >>= fun aliasName =>
      registerQuery r { place with host := some host, aliasName } (some i)) s a = (.ok (), b)) :
    ItemPlaced t root place host isLateral (some i) a b := by
  obtain ⟨aliasName, a₁, hname, h⟩ := run_bind_ok h
  obtain ⟨hadd₁, hcl₁, hstore⟩ := aliasOr_adds (R := fun _ => False) ha.placed (.inl rfl) hname
  have hp : t.Presents (some i) i := .query hk hrows
  have hready : QueryReady t root { place with host := some host, aliasName } (some i) a₁ :=
    ⟨hadd₁.placed, fun _ hi => Option.some.inj hi ▸ ha.reaches (.refl _),
      fun h hh => by cases hh; exact hadd₁.hasScope ha.hasHost,
      hadd₁.hasScope ha.hasParent, fun e he => .inr ⟨i, rfl, ha.enclosing e i he hp⟩⟩
  obtain ⟨cs, hadds, hblocks, hshown⟩ := registerQuery_places hu hr hready h
  rw [shownIn, hstore] at hadds
  have hshown := hshown i rfl (by rwa [Tree.kind_of_call? hk]) rfl
  refine ⟨cs, (hadd₁.trans hadds).weaken fun _ => False.elim,
    AddsBlocks.trans (.of_clauses hcl₁) hblocks hadds hadd₁.size_le fun σ =>
    showing_hosts_eq_nil ha.placed ha.hasHost, fun d hd => ?_, fun src hj _ => ?_⟩
  · cases hshown with
    | cons hc hnil =>
      cases hnil
      obtain ⟨_, n, hn, hnode⟩ := hc
      rw [List.mem_singleton.mp hd]
      exact ⟨n, hn, hnode ▸ .refl _, hnode ▸ hp⟩
  · cases hj with
    | relation hp' =>
      rw [hp'.unique hp, JoinTree.leavesUnder_relation]
      exact hshown
    | join hc hk => exact absurd hp (Tree.not_presents_join hc hk)

theorem registerItem_places (ho : t.Ordered) (ha : ItemReady t root q place host isLateral x a)
    (h : registerItem r place host isLateral x s a = (.ok (), b)) :
    ItemPlaced t root place host isLateral x a b := by
  unfold registerItem at h
  generalize hp : (if isLateral then { place with parent := host } else place) = p at h
  have hnull : p.nullable = place.nullable := by rw [← hp]; split <;> rfl
  have ha : ItemReady t root q p host isLateral x a := by
    subst hp
    cases isLateral with
    | false => exact ha
    | true => exact { ha with hasParent := ha.hasHost, apart := by rintro ⟨⟩ }
  suffices hplaced : ItemPlaced t root p host isLateral x a b by
    unfold ItemPlaced at hplaced
    rwa [hnull] at hplaced
  rw [run_bind_get, ha.placed.tree] at h
  cases x with
  | none => cases h
  | some i =>
    cases hf : t.form? (some i) with
    | none => rw [hf] at h; cases h
    | some f =>
      rw [hf] at h
      cases f with
      | identifier name =>
        have hname : t.identifier? (some i) = some name := by rw [Tree.identifier?, hf]
        obtain ⟨aliasName, a₁, halias, h⟩ := run_bind_ok h
        rw [run_newNamespace] at h
        cases h
        refine ha.placed_of_quiet hu .table ⟨name, hname⟩ ?_ (.table hname)
          (.inr ⟨_, rfl⟩) halias (f := pure ()) ?_ rfl
        · rw [Tree.kind_eq_other hf (by rintro _ ⟨⟩)]
          rfl
        · rintro _ _ hplaced _ ⟨⟩
          exact .refl hplaced
      | call k =>
        have hk := Tree.call?_of_form? hf
        dsimp only at h
        cases hkk : k.kind <;> simp only [hkk] at h
        case naming =>
          cases hid : t.identifier? (k.operand 1) with
          | none => rw [hid] at h; cases h
          | some name =>
            rw [hid] at h
            exact ha.placed_under hr hk (.inl hkk) h id fun _ _ he hm => Option.some.inj he ▸ hm
        case lateral =>
          exact ha.placed_under hr hk (.inr hkk) h (by rintro ⟨⟩) fun e m => ha.enclosing e m
        case join => exact registerJoin_places hu hr ho ha hk hkk h
        case unnest =>
          obtain ⟨aliasName, a₁, halias, h⟩ := run_bind_ok h
          rw [run_newNamespace, run_addChild] at h
          refine ha.placed_of_quiet hu .unnest ((Tree.kind_of_call? hk).trans hkk) ?_ (.query
            hk (by rw [hkk]; rfl)) (.inl rfl) halias (registerNested_quiet hr rfl fun n hn => ?_) h
          · rw [Tree.kind_of_call? hk, hkk]
            rfl
          · exact (ha.reaches (.refl _)).trans (Tree.below_of_operand hk hn).to_reflTransGen
        case select | union | except | intersect | values =>
          exact ha.placed_query hu hr hk (by rw [hkk]; rfl) h
        all_goals cases h
      | _ => cases h

end

theorem registrar_places (hu : t.Unshared root) (ho : t.Ordered) :
    (registrar depth).Places s t root := by
  induction depth with
  | zero =>
    constructor
    · intro place x a b _ h
      cases h
    · intro q place host isLateral x a b _ h
      cases h
  | succ depth ih =>
    exact ⟨fun ha h => registerQuery_places hu ih ha h, fun ha h =>
      registerItem_places hu ih ho ha h⟩

theorem registerStatement_places (hu : t.Unshared root) (ho : t.Ordered) (ha : Placed t root a)
    (hroot : HasScope a.root a) (h : registerStatement root s a = (.ok (), b)) :
    Quiet t root a b := by
  have hr (depth : Nat) : (registrar depth).Places s t root := registrar_places hu ho
  unfold registerStatement at h
  rw [run_bind_get] at h
  split at h
  · have hready : QueryReady t root { parent := a.root, enclosing := root } root a :=
      ⟨ha, fun _ hi => hi ▸ .refl, nofun, hroot, fun e he => .inl he.symm⟩
    rw [register, run_bind_get] at h
    exact (registerQuery_places hu (hr _) hready h).quiet rfl
  · rw [registerSubqueries, run_bind_get] at h
    exact registerNested_quiet (hr _) (S := (· = a.root)) rfl (fun n hn => hn)
      a b ha (fun _ hσ => hσ ▸ hroot) h

end Rules

end SqlAnalysis.Analysis

import Mathlib.Data.List.Forall2
import SqlAnalysis.Proofs.Analysis.Registrar
import SqlAnalysis.Proofs.Tree.JoinTree

/-!
Where registration puts the relations of a statement. `Placed` says how nodes lead to their
relations; a node from which a query selects leads to one relation only. `Adds` compares the states
before and after a registration that succeeds: which relations are shown in which scopes, and for
which nodes relations were added.
-/

namespace SqlAnalysis

variable {id : ScopeId}

namespace Store

variable {s : Store}

/-- Scopes are kept, and may come to show more. -/
def Grows (s s' : Store) : Prop := ∀ id sc, s.scope? id = some sc → ∃ more, s'.scope? id =
  some (sc.extend more)

def Inward (s : Store) : Prop := ∀ id sc h, s.scope? id = some sc → sc.host = some h → h < id

def hostsUpTo (s : Store) : Nat → ScopeId → List ScopeId
  | 0, _ => []
  | depth + 1, id =>
    match s.scope? id with
    | none => []
    | some scope =>
      id :: match scope.kind, scope.host with
        | .join, some host => if scope.host = scope.parent then [] else hostsUpTo s depth host
        | _, _ => []

/-- The scopes that show a relation once it is shown in a scope. -/
def hosts (s : Store) (id : ScopeId) : List ScopeId := s.hostsUpTo (id + 1) id

section

variable (hs : s.Inward)
include hs

theorem le_of_mem_hostsUpTo {depth : Nat} (hh : h ∈ s.hostsUpTo depth id) : h ≤ id := by
  induction depth generalizing id with
  | zero => cases hh
  | succ depth ih =>
    rw [hostsUpTo] at hh
    split at hh
    · cases hh
    · rename_i sc hsc
      rcases List.mem_cons.mp hh with rfl | hh
      · exact Nat.le_refl _
      · split at hh
        · rename_i host _ hhost
          split at hh
          · cases hh
          · exact Nat.le_trans (ih hh) (Nat.le_of_lt (hs id sc host hsc hhost))
        · cases hh

theorem hostsUpTo_eq (hkeep : s.Grows s') (depth : Nat) (hid : id < s.scopes.size) :
    s'.hostsUpTo depth id = s.hostsUpTo depth id := by
  induction depth generalizing id with
  | zero => rfl
  | succ depth ih =>
    have hsc : s.scope? id = some s.scopes[id] := Array.getElem?_eq_getElem hid
    obtain ⟨more, hmore⟩ := hkeep id _ hsc
    rw [hostsUpTo, hostsUpTo, hmore, hsc]
    dsimp only
    split
    · rename_i host _ hhost
      rw [ih (Nat.lt_trans (hs id _ host hsc hhost) hid)]
    · rfl

theorem scope?_addChildUpTo (id id' : ScopeId) :
    (s.addChildUpTo child depth id).scope? id' = (s.scope? id').map (·.extend
      (if id' ∈ s.hostsUpTo depth id then [child] else [])) := by
  induction depth generalizing s id with
  | zero => simp [addChildUpTo, hostsUpTo]
  | succ depth ih =>
    rw [addChildUpTo, hostsUpTo]
    cases hsc : s.scope? id with
    | none => simp
    | some sc =>
      have hone (id' : ScopeId) : (s.modifyScope id (·.extend [child])).scope? id' =
          (s.scope? id').map (·.extend (if id' = id then [child] else [])) := by
        simp only [modifyScope, scope?, Array.getElem?_modify]
        by_cases h : id = id'
        · simp [h]
        · simp [h, Ne.symm h]
      cases hk : sc.kind with
      | join =>
        cases hhost : sc.host with
        | none => simp [hone, hhost]
        | some host =>
          simp only [hk, hhost]
          split
          · simp [hone]
          · have hlt := hs id sc host hsc hhost
            have hkeep : s.Grows (s.modifyScope id (·.extend [child])) :=
              fun k sk hk => ⟨_, by rw [hone, hk]; rfl⟩
            have hin : (s.modifyScope id (·.extend [child])).Inward := by
              intro k sk h hk hh
              rw [hone] at hk
              obtain ⟨sk', hk', rfl⟩ := Option.map_eq_some_iff.mp hk
              exact hs k sk' h hk' hh
            have hhosts :=
              hostsUpTo_eq hs hkeep depth (Nat.lt_trans hlt (Array.getElem?_eq_some_iff.mp hsc).1)
            rw [ih hin, hhosts, hone, Option.map_map]
            have hnot : id ∉ s.hostsUpTo depth host :=
              fun h => absurd (le_of_mem_hostsUpTo hs h) (Nat.not_le.mpr hlt)
            by_cases h : id' = id
            · subst h
              simp [Function.comp_def, hnot]
            · simp [Function.comp_def, h]
      | _ => simp [hone, hk]

theorem scope?_addChild_eq (child : Child) (id id' : ScopeId) :
    (s.addChild id child).scope? id' =
      (s.scope? id').map (·.extend (if id' ∈ s.hosts id then [child] else [])) :=
  scope?_addChildUpTo hs id id'

theorem hosts_eq (hkeep : s.Grows s') (hid : id < s.scopes.size) : s'.hosts id = s.hosts id :=
  hostsUpTo_eq hs hkeep _ hid

theorem hostsUpTo_congr (hd : id < d) (hd' : id < d') :
    s.hostsUpTo d id = s.hostsUpTo d' id := by
  induction d generalizing id d' with
  | zero => exact absurd hd (Nat.not_lt_zero _)
  | succ d ih =>
    cases d' with
    | zero => exact absurd hd' (Nat.not_lt_zero _)
    | succ d' =>
      rw [hostsUpTo, hostsUpTo]
      cases hsc : s.scope? id with
      | none => rfl
      | some sc =>
        dsimp only
        split
        · rename_i host _ hhost
          have hlt := hs id sc host hsc hhost
          rw [ih (Nat.lt_of_lt_of_le hlt (Nat.le_of_lt_succ hd))
            (Nat.lt_of_lt_of_le hlt (Nat.le_of_lt_succ hd'))]
        · rfl

/-- The relations of a join are shown in its own scope, and in its host unless that is what the join
sees. -/
theorem hosts_of_join {host : ScopeId} (hid : s.scope? id = some sc)
    (hk : sc.kind = .join) (hhost : sc.host = some host) :
    s.hosts id = id :: if some host = sc.parent then [] else s.hosts host := by
  rw [hosts, hostsUpTo, hid]
  simp only [hk, hhost]
  split
  · rfl
  · rw [hosts, hostsUpTo_congr hs (hs id sc host hid hhost) host.lt_succ_self]

end

theorem hosts_of_kind (hid : s.scope? id = some sc) (hk : sc.kind ≠ .join) : s.hosts id = [id] := by
  rw [hosts, hostsUpTo, hid]
  dsimp only
  split
  · exact absurd ‹_› hk
  · rfl

end Store

/-- Calls that are registered as queries, and so once at most. -/
def Kind.standsAlone (k : Kind) : Bool := k.isStatement || k == .multisetQuery

/-- The node is one that a relation of that kind is registered for. -/
def Tree.Stands (t : Tree) (i : NodeId) : NamespaceKind → Prop
  | .table => ∃ name, t.identifier? (some i) = some name
  | .select => t.kind (some i) = .select
  | .join => t.kind (some i) = .join
  | .setOp => (t.kind (some i)).isSetOp
  | .values => t.kind (some i) = .values
  | .unnest => t.kind (some i) = .unnest
  | .collect => t.kind (some i) = .multisetQuery
  | .change => (t.kind (some i)).isUpdate

namespace Analysis

variable {root : Link} {a b : Analysis}

def Known (i : NodeId) (a : Analysis) : Prop := ∃ ns n, a.store.namespace? ns = some n ∧ n.node = i

/-- The scopes of a query block. The select list is looked at in the scope of the relations, or in
one for groups that leads there, and the order in one that leads to that of the list. -/
structure BlockScopes (a : Analysis) (q : NodeId) (b : Block) : Prop where
  clauses : ∀ c, a.clauses.get? (q, c) = some (b.scope c)
  list : b.list = b.source ∨ ∃ sc, a.store.scope? b.list = some sc ∧ sc.kind = .aggregating ∧
    sc.parent = some b.source
  order : ∃ sc, a.store.scope? b.order = some sc ∧ sc.kind = .orderBy ∧ sc.parent = some b.list

/-- Nodes lead to the relations that are registered for them. -/
structure Placed (t : Tree) (root : Link) (a : Analysis) : Prop where
  tree : a.tree = t
  inward : a.store.Inward
  clauses : ∀ q σ, a.clauses.get? (q, .source) = some σ → HasScope σ a
  blocks : ∀ q σ, a.clauses.get? (q, .list) = some σ → ∃ b, BlockScopes a q b
  leads : ∀ k ns, a.namespaceOf.get? k = some ns →
    ∃ n, a.store.namespace? ns = some n ∧ (n.node = k ∨ t.Presents (some k) n.node)
  listed : ∀ ns n, a.store.namespace? ns = some n →
    ∃ ns' n', a.namespaceOf.get? n.node = some ns' ∧ a.store.namespace? ns' = some n' ∧
    n'.node = n.node
  kinds : ∀ ns n, a.store.namespace? ns = some n → t.Stands n.node n.kind
  reached : ∀ ns n, a.store.namespace? ns = some n → t.Spans root n.node
  /-- A query is one relation only. -/
  alone : ∀ ns ns' n n', (t.kind (some n.node)).standsAlone → a.store.namespace? ns = some n →
    a.store.namespace? ns' = some n' → n'.node = n.node → ns' = ns
  /-- An item of a query is one relation only. -/
  single : ∀ q ns ns' n n', t.Spans root q → t.Draws q (some n.node) →
    a.store.namespace? ns = some n → a.store.namespace? ns' = some n' → n'.node = n.node → ns' = ns
  /-- The items of a query come after the query. -/
  drawn : ∀ q ns n, t.Spans root q → t.Draws q (some n.node) →
    a.store.namespace? ns = some n → (t.kind (some n.node)).standsAlone ∨ Known q a

/-- A registration that succeeds: `more` says what each scope comes to show, and relations of
queries that were known before are added for nodes in `R` only. -/
structure Adds (t : Tree) (root : Link) (more : ScopeId → List Child) (R : NodeId → Prop)
    (a b : Analysis) : Prop where
  placed : Placed t root b
  scopes : ∀ id sc, a.store.scope? id = some sc →
    b.store.scope? id = some (sc.extend (more id))
  namespaces : ∀ ns n, a.store.namespace? ns = some n → b.store.namespace? ns = some n
  created : ∀ q ns n, t.Spans root q → t.Draws q (some n.node) →
    b.store.namespace? ns = some n →
    a.store.namespace? ns = some n ∨ (t.kind (some n.node)).standsAlone ∨ R n.node ∨ ¬ Known q a

def showing (hs : List ScopeId) (cs : List Child) (id : ScopeId) : List Child :=
  if id ∈ hs then cs else []

/-- The scope shows that relation, nullable or not. -/
def ShownAs (a : Analysis) (c : Child) (p : NodeId × Bool) : Prop :=
  c.nullable = p.2 ∧ ∃ n, a.store.namespace? c.source = some n ∧ n.node = p.1

/-- The scope shows a relation that the item consists of. -/
def ShownOf (t : Tree) (x : Link) (a : Analysis) (c : Child) : Prop :=
  ∃ n, a.store.namespace? c.source = some n ∧ t.Item x (some n.node) ∧
    t.Presents (some n.node) n.node

/-- The scope shows the relations that the query selects from. -/
def Shows (t : Tree) (q : NodeId) (σ : ScopeId) (a : Analysis) : Prop :=
  ∃ sc, a.store.scope? σ = some sc ∧ (∀ c ∈ sc.children, ShownOf t (t.select q).source a c) ∧
    ∀ src, t.Joins (t.select q).source src → List.Forall₂ (ShownAs a) sc.children src.leaves

/-- Query blocks that were added show what they select from. -/
def AddsBlocks (t : Tree) (a b : Analysis) : Prop :=
  ∀ q σ, b.clauses.get? (q, .source) = some σ →
    a.clauses.get? (q, .source) = some σ ∨ a.store.scopes.size ≤ σ ∧ Shows t q σ b

section

variable (hns : ∀ ns n, a.store.namespace? ns = some n → b.store.namespace? ns = some n)
include hns

theorem Known.of_namespaces (h : Known i a) : Known i b := by
  obtain ⟨ns, n, hn, hi⟩ := h
  exact ⟨ns, n, hns ns n hn, hi⟩

theorem ShownAs.of_namespaces {c : Child} (h : ShownAs a c p) : ShownAs b c p := by
  obtain ⟨hc, n, hn, hi⟩ := h
  exact ⟨hc, n, hns _ n hn, hi⟩

theorem ShownOf.of_namespaces {c : Child} (h : ShownOf t x a c) : ShownOf t x b c := by
  obtain ⟨n, hn, hitem⟩ := h
  exact ⟨n, hns _ n hn, hitem⟩

end

theorem ShownOf.item {c : Child} (h : ShownOf t y a c) (hy : t.Item x y) : ShownOf t x a c := by
  obtain ⟨n, hn, hitem, hrel⟩ := h
  exact ⟨n, hn, hy.trans hitem, hrel⟩

theorem BlockScopes.of_scopes (h : BlockScopes a q block) (hcl : b.clauses = a.clauses)
    (hsc : a.store.Grows b.store) : BlockScopes b q block where
  clauses := hcl ▸ h.clauses
  list := h.list.imp_right fun ⟨sc, hid, hkind, hparent⟩ =>
    have ⟨_, hmore⟩ := hsc _ sc hid
    ⟨_, hmore, hkind, hparent⟩
  order :=
    have ⟨sc, hid, hkind, hparent⟩ := h.order
    have ⟨_, hmore⟩ := hsc _ sc hid
    ⟨_, hmore, hkind, hparent⟩

namespace Placed

theorem of_eq (h : Placed t root a) (htree : b.tree = a.tree) (hof : b.namespaceOf = a.namespaceOf)
    (hns : b.store.namespaces = a.store.namespaces) (hin : b.store.Inward)
    (hcl : ∀ q σ, b.clauses.get? (q, .source) = some σ → HasScope σ b)
    (hblocks : ∀ q σ, b.clauses.get? (q, .list) = some σ → ∃ block, BlockScopes b q block) :
    Placed t root b := by
  have heq (id : NamespaceId) : b.store.namespace? id = a.store.namespace? id := by
    rw [Store.namespace?, hns]; rfl
  refine ⟨htree.trans h.tree, hin, hcl, hblocks, ?_, ?_, ?_, ?_, ?_, ?_, ?_⟩
  · simpa only [heq, hof] using h.leads
  · simpa only [heq, hof] using h.listed
  · simpa only [heq] using h.kinds
  · simpa only [heq] using h.reached
  · simpa only [heq] using h.alone
  · simpa only [heq] using h.single
  · simpa only [heq, Known] using h.drawn

theorem exists_namespaceOf (h : Placed t root a) (hi : Known i a) :
    ∃ ns n, a.namespaceOf.get? i = some ns ∧ a.store.namespace? ns = some n ∧ n.node = i := by
  obtain ⟨ns, n, hn, rfl⟩ := hi
  obtain ⟨ns', n', hof, hn', hnode⟩ := h.listed ns n hn
  exact ⟨ns', n', hof, hn', hnode⟩

end Placed

namespace Adds

theorem refl (h : Placed t root a) : Adds t root (fun _ => []) R a a :=
  ⟨h, fun _ _ hsc => by rw [hsc, Scope.extend_nil], fun _ _ hn => hn, fun _ _ _ _ _ hn => .inl hn⟩

variable (h : Adds t root more R a b)
include h

theorem known (hi : Known i a) : Known i b := hi.of_namespaces h.namespaces

theorem grows : a.store.Grows b.store := fun id sc hsc => ⟨_, h.scopes id sc hsc⟩

theorem size_le : a.store.scopes.size ≤ b.store.scopes.size := by
  refine Nat.le_of_not_lt fun hlt => ?_
  have hsc := h.scopes _ _ (Array.getElem?_eq_getElem hlt)
  exact absurd (Array.getElem?_eq_some_iff.mp hsc).1 (Nat.lt_irrefl _)

theorem hasScope (hσ : HasScope σ a) : HasScope σ b := by
  obtain ⟨sc, hsc⟩ := hσ
  exact ⟨_, h.scopes σ sc hsc⟩

theorem hosts_eq (ha : Placed t root a) (hσ : HasScope σ a) : b.store.hosts σ = a.store.hosts σ :=
  Store.hosts_eq ha.inward h.grows hσ.lt

theorem trans (h' : Adds t root more' R b c) :
    Adds t root (fun id => more id ++ more' id) R a c where
  placed := h'.placed
  scopes id sc hsc := by rw [h'.scopes id _ (h.scopes id sc hsc), Scope.extend_extend]
  namespaces ns n hn := h'.namespaces ns n (h.namespaces ns n hn)
  created q ns n hq hd hn := by
    rcases h'.created q ns n hq hd hn with hn | hk | hr | hnot
    · exact h.created q ns n hq hd hn
    · exact .inr (.inl hk)
    · exact .inr (.inr (.inl hr))
    · exact .inr (.inr (.inr fun hknown => hnot (h.known hknown)))

theorem of_eq (htree : c.tree = b.tree) (hstore : c.store = b.store)
    (hof : c.namespaceOf = b.namespaceOf) (hcl : c.clauses = b.clauses) :
    Adds t root more R a c where
  placed := by
    refine h.placed.of_eq htree hof (by rw [hstore]) (hstore ▸ h.placed.inward)
      (fun q σ hq => ?_) fun q σ hq => ?_
    · rw [HasScope, hstore]
      exact h.placed.clauses q σ (hcl ▸ hq)
    · refine (h.placed.blocks q σ (hcl ▸ hq)).imp fun block hblock =>
        hblock.of_scopes hcl fun id sc hid => ⟨[], ?_⟩
      rw [hstore, hid, Scope.extend_nil]
  scopes := hstore ▸ h.scopes
  namespaces := hstore ▸ h.namespaces
  created := hstore ▸ h.created

theorem congr (hmore : ∀ id, HasScope id a → more id = more' id) :
    Adds t root more' R a b :=
  { h with scopes := fun id sc hsc => hmore id ⟨sc, hsc⟩ ▸ h.scopes id sc hsc }

theorem restrict (hR : ∀ q k, t.Spans root q → t.Draws q (some k) → Known q a → R k → S k) :
    Adds t root more S a b := by
  refine { h with created := fun q ns n hq hd hn => ?_ }
  rcases h.created q ns n hq hd hn with hn | hk | hr | hnot
  · exact .inl hn
  · exact .inr (.inl hk)
  · by_cases hknown : Known q a
    · exact .inr (.inr (.inl (hR q _ hq hd hknown hr)))
    · exact .inr (.inr (.inr hknown))
  · exact .inr (.inr (.inr hnot))

theorem weaken (hR : ∀ k, R k → S k) : Adds t root more S a b :=
  h.restrict fun _ k _ _ _ => hR k

theorem append_silent (h' : Adds t root (fun _ => []) R b c) : Adds t root more R a c :=
  (h.trans h').congr fun _ _ => List.append_nil _

end Adds

theorem Shows.adds {more : ScopeId → List Child} (h : Shows t q σ a)
    (hab : Adds t root more R a b) (hσ : more σ = []) : Shows t q σ b := by
  obtain ⟨sc, hsc, hof, hsrc⟩ := h
  have hshown : b.store.scope? σ = some sc := by rw [hab.scopes σ sc hsc, hσ, Scope.extend_nil]
  refine ⟨sc, hshown, fun c hc => (hof c hc).of_namespaces hab.namespaces, fun src h => ?_⟩
  exact (hsrc src h).imp fun _ _ hp => hp.of_namespaces hab.namespaces

namespace AddsBlocks

theorem of_clauses (h : b.clauses = a.clauses) : AddsBlocks t a b := fun _ _ hq => .inl (h ▸ hq)

theorem trans {more : ScopeId → List Child} (h : AddsBlocks t a b) (h' : AddsBlocks t b c)
    (hbc : Adds t root more R b c) (hsize : a.store.scopes.size ≤ b.store.scopes.size)
    (hmore : ∀ σ, a.store.scopes.size ≤ σ → more σ = []) : AddsBlocks t a c := by
  intro q σ hq
  rcases h' q σ hq with hq | ⟨hσ, hshows⟩
  · exact (h q σ hq).imp_right fun ⟨hσ, hshows⟩ => ⟨hσ, hshows.adds hbc (hmore σ hσ)⟩
  · exact .inr ⟨Nat.le_trans hsize hσ, hshows⟩

end AddsBlocks

theorem showing_append (hs : List ScopeId) :
    showing hs cs id ++ showing hs ds id = showing hs (cs ++ ds) id := by
  unfold showing
  split <;> rfl

theorem showing_hosts_eq_nil (ha : Placed t root a) (hhost : HasScope host a)
    (hσ : a.store.scopes.size ≤ σ) : showing (a.store.hosts host) cs σ = [] := by
  refine if_neg fun h => ?_
  have hle := Store.le_of_mem_hostsUpTo ha.inward h
  exact absurd (Nat.lt_of_le_of_lt hle hhost.lt) (Nat.not_lt.mpr hσ)

section Steps

def withScope (a : Analysis) (sc : Scope) : Analysis := { a with store := (a.store.addScope sc).2 }

def withNamespace (a : Analysis) (kind : NamespaceKind) (node : NodeId)
    (enclosing : Link) (scope : ScopeId) : Analysis :=
  { a with
    store := (a.store.addNamespace { kind, node, enclosing := enclosing.getD node, scope }).2
    namespaceOf := match enclosing with
      | some e =>
        (a.namespaceOf.insert node a.store.namespaces.size).insertNew e a.store.namespaces.size
      | none => a.namespaceOf.insert node a.store.namespaces.size }

def withChild (a : Analysis) (host : ScopeId) (child : Child) : Analysis :=
  { a with store := a.store.addChild host child }

theorem run_newScope : (newScope sc >>= f) s a = f a.store.scopes.size s (a.withScope sc) := rfl

theorem run_newNamespace : (newNamespace kind node enclosing scope >>= f) s a =
      f a.store.namespaces.size s (a.withNamespace kind node enclosing scope) := by
  cases enclosing <;> rfl

theorem run_addChild (host : ScopeId) :
    (addChild host aliasName source nullable >>= f) s a =
      f () s (a.withChild host { aliasName, source, nullable }) := rfl

theorem Placed.adds_scope (h : Placed t root a) (hsc : ∀ h, sc.host = some h → HasScope h a) :
    Adds t root (fun _ => []) R a (a.withScope sc) := by
  have hold (id : ScopeId) (sc' : Scope) (hid : a.store.scope? id = some sc') :
      (a.withScope sc).store.scope? id = some (sc'.extend []) := by
    rw [Scope.extend_nil]
    exact Store.scope?_addScope_of_some hid sc
  refine ⟨h.of_eq rfl rfl rfl ?_ ?_ fun q σ hq => (h.blocks q σ hq).imp fun _ hblock =>
    hblock.of_scopes rfl fun id sc hid => ⟨[], hold id sc hid⟩, hold, fun _ _ hn => hn,
    fun _ _ _ _ _ hn => .inl hn⟩
  · intro id sc' host hid hhost
    rw [withScope, Store.scope?_addScope] at hid
    split at hid
    · rename_i hid'
      cases hid
      exact hid' ▸ (hsc host hhost).lt
    · exact h.inward id sc' host hid hhost
  · intro q σ hq
    obtain ⟨sc', hsc'⟩ := h.clauses q σ hq
    exact ⟨_, hold σ sc' hsc'⟩

theorem Placed.adds_child (h : Placed t root a) (host : ScopeId) (child : Child) :
    Adds t root (showing (a.store.hosts host) [child]) R a (a.withChild host child) := by
  have hsc (id : ScopeId) := Store.scope?_addChild_eq h.inward child host id
  have hns : (a.withChild host child).store.namespaces = a.store.namespaces :=
    a.store.namespaces_addChild host child
  have hget (ns : NamespaceId) : (a.withChild host child).store.namespace? ns =
      a.store.namespace? ns := by
    rw [Store.namespace?, hns]; rfl
  refine ⟨h.of_eq rfl rfl hns ?_ ?_ fun q σ hq => (h.blocks q σ hq).imp fun _ hblock =>
    hblock.of_scopes rfl fun id sc hid =>
      ⟨_, (hsc id).trans (by rw [hid, Option.map_some])⟩,
    fun id sc hid => ?_, fun ns n hn => (hget ns).trans hn, fun _ ns _ _ _ hn =>
      .inl ((hget ns).symm.trans hn)⟩
  · intro id sc host' hid hhost
    obtain ⟨sc', hsc', rfl⟩ := Option.map_eq_some_iff.mp ((hsc id).symm.trans hid)
    exact h.inward id sc' host' hsc' hhost
  · intro q σ hq
    obtain ⟨sc, hσ⟩ := h.clauses q σ hq
    exact ⟨_, (hsc σ).trans (by rw [hσ, Option.map_some])⟩
  · exact (hsc id).trans (by rw [hid, Option.map_some]; rfl)

theorem get?_insertNew (m : Table NodeId NamespaceId) (k k' : NodeId) (v : NamespaceId) :
    (m.insertNew k v).get? k' = if k = k' then some ((m.get? k').getD v) else m.get? k' := by
  unfold Table.insertNew Table.contains
  split
  · rename_i h
    split
    · subst k'
      obtain ⟨w, hw⟩ := Option.isSome_iff_exists.mp h
      rw [hw, Option.getD_some]
    · rfl
  · rename_i h
    rw [Table.get?_insert]
    split
    · subst k'
      rw [Option.not_isSome_iff_eq_none.mp h, Option.getD_none]
    · rfl

theorem namespaceOf_withNamespace
    (h : (a.withNamespace kind node enclosing scope).namespaceOf.get? k = some ns) :
    ns = a.store.namespaces.size ∧ (k = node ∨ enclosing = some k ∧ a.namespaceOf.get? k = none) ∨
      k ≠ node ∧ a.namespaceOf.get? k = some ns := by
  have hinsert (h : (a.namespaceOf.insert node a.store.namespaces.size).get? k = some ns) :
      ns = a.store.namespaces.size ∧ k = node ∨ k ≠ node ∧ a.namespaceOf.get? k = some ns := by
    rw [Table.get?_insert] at h
    split at h
    · rename_i heq
      exact .inl ⟨(Option.some.inj h).symm, heq.symm⟩
    · rename_i hne
      exact .inr ⟨Ne.symm hne, h⟩
  cases enclosing with
  | none => exact (hinsert h).imp_left fun h => ⟨h.1, .inl h.2⟩
  | some e =>
    have h : ((a.namespaceOf.insert node a.store.namespaces.size).insertNew
      e a.store.namespaces.size).get? k = some ns := h
    rw [get?_insertNew] at h
    split at h
    · rename_i heq
      subst heq
      cases hget : (a.namespaceOf.insert node a.store.namespaces.size).get? e with
      | none =>
        rw [hget, Option.getD_none] at h
        rw [Table.get?_insert] at hget
        split at hget
        · cases hget
        · exact .inl ⟨(Option.some.inj h).symm, .inr ⟨rfl, hget⟩⟩
      | some ns' =>
        rw [hget, Option.getD_some] at h
        exact (hinsert (hget.trans h)).imp_left fun h => ⟨h.1, .inl h.2⟩
    · exact (hinsert h).imp_left fun h => ⟨h.1, .inl h.2⟩

theorem Placed.adds_namespace (h : Placed t root a) (scope : ScopeId) (hst : t.Stands node kind)
    (hreach : t.Spans root node) (hen : ∀ e, enclosing = some e → e = node ∨
    t.Presents (some e) node ∨ a.namespaceOf.get? e ≠ none) (hnew : ∀ q, t.Spans root q → t.Draws
    q (some node) → ¬ Known node a ∧ ((t.kind (some node)).standsAlone ∨ R node ∧ Known q a))
    (halone : (t.kind (some node)).standsAlone → ¬ Known node a) :
    Adds t root (fun _ => []) R a (a.withNamespace kind node enclosing scope) := by
  have hget (id : NamespaceId) : (a.withNamespace kind node enclosing scope).store.namespace? id =
      if id = a.store.namespaces.size then
      some { kind, node, enclosing := enclosing.getD node, scope }
      else a.store.namespace? id := a.store.namespace?_addNamespace _ id
  have hold (id : NamespaceId) (n : Namespace) (hn : a.store.namespace? id = some n) :
      (a.withNamespace kind node enclosing scope).store.namespace? id = some n := by
    rw [hget, if_neg (Nat.ne_of_lt (Array.getElem?_eq_some_iff.mp hn).1), hn]
  have hown : (a.withNamespace kind node enclosing scope).namespaceOf.get? node =
      some a.store.namespaces.size := by
    have hinsert : (a.namespaceOf.insert node a.store.namespaces.size).get? node =
        some a.store.namespaces.size := by
      rw [Table.get?_insert, if_pos rfl]
    cases enclosing with
    | none => exact hinsert
    | some e =>
      refine (get?_insertNew _ e node _).trans ?_
      split
      · rw [hinsert, Option.getD_some]
      · exact hinsert
  have hsize := (hget a.store.namespaces.size).trans (if_pos rfl)
  have hcases {id : NamespaceId} {n : Namespace}
      (hn : (a.withNamespace kind node enclosing scope).store.namespace? id = some n) :
      id = a.store.namespaces.size ∧ n = { kind, node, enclosing := enclosing.getD node, scope } ∨
        a.store.namespace? id = some n := by
    rw [hget] at hn
    split at hn
    · exact .inl ⟨‹_›, (Option.some.inj hn).symm⟩
    · exact .inr hn
  have hblocks (q : NodeId) (σ : ScopeId) (hq : a.clauses.get? (q, .list) = some σ) :
      ∃ block, BlockScopes (a.withNamespace kind node enclosing scope) q block :=
    (h.blocks q σ hq).imp fun _ hblock => hblock.of_scopes rfl fun id sc hid =>
      ⟨[], by rw [Scope.extend_nil]; exact hid⟩
  refine ⟨⟨h.tree, h.inward, h.clauses, hblocks, ?_, ?_, ?_, ?_, ?_, ?_, ?_⟩,
    fun _ _ hsc => by rw [Scope.extend_nil]; exact hsc, hold, ?_⟩
  · -- a node leads to the new relation if it is the node of the relation or brings it in
    intro k ns hk
    rcases namespaceOf_withNamespace hk with ⟨rfl, rfl | ⟨he, hnone⟩⟩ | ⟨_, hk⟩
    · exact ⟨_, hsize, .inl rfl⟩
    · refine ⟨_, hsize, ?_⟩
      rcases hen k he with rfl | hp | hsome
      · exact .inl rfl
      · exact .inr hp
      · exact absurd hnone hsome
    · obtain ⟨n, hn, hk⟩ := h.leads k ns hk
      exact ⟨n, hold ns n hn, hk⟩
  · intro ns n hn
    by_cases hnode : n.node = node
    · exact ⟨_, _, hnode ▸ hown, hsize, hnode.symm⟩
    · rcases hcases hn with ⟨_, rfl⟩ | hn
      · exact absurd rfl hnode
      · obtain ⟨ns', n', hof, hn', hn''⟩ := h.listed ns n hn
        refine ⟨ns', n', ?_, hold ns' n' hn', hn''⟩
        have hinsert : (a.namespaceOf.insert node a.store.namespaces.size).get? n.node = some ns' :=
          (Table.get?_insert _ _ _ _).trans ((if_neg (Ne.symm hnode)).trans hof)
        cases enclosing with
        | none => exact hinsert
        | some e =>
          refine (get?_insertNew _ e n.node _).trans ?_
          split
          · rw [hinsert, Option.getD_some]
          · exact hinsert
  · intro ns n hn
    rcases hcases hn with ⟨_, rfl⟩ | hn
    · exact hst
    · exact h.kinds ns n hn
  · intro ns n hn
    rcases hcases hn with ⟨_, rfl⟩ | hn
    · exact hreach
    · exact h.reached ns n hn
  · intro ns ns' n n' hk hn hn' heq
    rcases hcases hn with ⟨rfl, rfl⟩ | hn <;> rcases hcases hn' with ⟨rfl, rfl⟩ | hn'
    · rfl
    · exact absurd ⟨ns', n', hn', heq⟩ (halone hk)
    · have heq : node = n.node := heq
      exact absurd ⟨ns, n, hn, heq.symm⟩ (halone (heq ▸ hk))
    · exact h.alone ns ns' n n' hk hn hn' heq
  · intro q ns ns' n n' hq hd hn hn' heq
    rcases hcases hn with ⟨rfl, rfl⟩ | hn <;> rcases hcases hn' with ⟨rfl, rfl⟩ | hn'
    · rfl
    · exact absurd ⟨ns', n', hn', heq⟩ (hnew q hq hd).1
    · have heq : node = n.node := heq
      exact absurd ⟨ns, n, hn, heq.symm⟩ (hnew q hq (heq ▸ hd)).1
    · exact h.single q ns ns' n n' hq hd hn hn' heq
  · intro q ns n hq hd hn
    rcases hcases hn with ⟨_, rfl⟩ | hn
    · exact (hnew q hq hd).2.imp_right fun hk => hk.2.of_namespaces hold
    · exact (h.drawn q ns n hq hd hn).imp_right fun hk => hk.of_namespaces hold
  · intro q ns n hq hd hn
    rcases hcases hn with ⟨_, rfl⟩ | hn
    · exact .inr ((hnew q hq hd).2.imp_right fun hk => .inl hk.1)
    · exact .inl hn

end Steps

end Analysis

end SqlAnalysis

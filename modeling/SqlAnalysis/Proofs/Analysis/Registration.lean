import SqlAnalysis.Analysis.Register
import SqlAnalysis.Proofs.Analysis.Step

/-!
Registration. `Registered t a` says how the scopes and namespaces of an analysis hang together:
scopes lead outward to older ones, and every query block has a scope of the right kind for each of
its clauses. Every step of registration keeps this, also one that fails.
-/

namespace SqlAnalysis

namespace Store

theorem scope?_addChild (s : Store) (id id' : ScopeId) (child : Child) :
    ∃ more, (s.addChild id child).scope? id' = (s.scope? id').map (·.extend more) := by
  have hsame (s : Store) : ∃ more, s.scope? id' = (s.scope? id').map (·.extend more) :=
    ⟨[], by simp⟩
  have hdepth (depth : Nat) :
      ∃ more, (s.addChildUpTo child depth id).scope? id' = (s.scope? id').map (·.extend more) := by
    induction depth generalizing s id with
    | zero => exact hsame s
    | succ depth ih =>
      have hone : ∃ more, (s.modifyScope id (·.extend [child])).scope? id' =
          (s.scope? id').map (·.extend more) := by
        simp only [modifyScope, scope?, Array.getElem?_modify]
        split
        · exact ⟨[child], rfl⟩
        · exact hsame s
      rw [addChildUpTo]
      split
      · exact hsame s
      · dsimp only
        split
        · split
          · exact hone
          · obtain ⟨more, hmore⟩ := hone
            obtain ⟨more', hmore'⟩ := ih (s.modifyScope id _) _
            refine ⟨more ++ more', ?_⟩
            rw [hmore', hmore, Option.map_map]
            simp [Function.comp_def]
        · exact hone
  exact hdepth _

theorem namespaces_addChild (s : Store) (id : ScopeId) (child : Child) :
    (s.addChild id child).namespaces = s.namespaces := by
  have hdepth (depth : Nat) : (s.addChildUpTo child depth id).namespaces = s.namespaces := by
    induction depth generalizing s id with
    | zero => rfl
    | succ depth ih =>
      rw [addChildUpTo]
      split
      · rfl
      · dsimp only
        split
        · split
          · rfl
          · rw [ih]; rfl
        · rfl
  exact hdepth _

theorem scope?_addScope (s : Store) (sc : Scope) (id : ScopeId) :
    (s.addScope sc).2.scope? id = if id = s.scopes.size then some sc else s.scope? id := by
  simp only [addScope, scope?, Array.getElem?_push]

theorem scope?_new (s : Store) (sc : Scope) : (s.addScope sc).2.scope? s.scopes.size = some sc :=
  (s.scope?_addScope sc _).trans (if_pos rfl)

theorem scope?_addScope_of_some {s : Store} {id : ScopeId} (h : s.scope? id = some sc')
    (sc : Scope) : (s.addScope sc).2.scope? id = some sc' := by
  rw [scope?_addScope, if_neg (Nat.ne_of_lt (Array.getElem?_eq_some_iff.mp h).1), h]

theorem namespace?_addNamespace (s : Store) (n : Namespace) (id : NamespaceId) :
    (s.addNamespace n).2.namespace? id =
      if id = s.namespaces.size then some n else s.namespace? id := by
  simp only [addNamespace, namespace?, Array.getElem?_push]

theorem namespace?_new (s : Store) (n : Namespace) :
    (s.addNamespace n).2.namespace? s.namespaces.size = some n :=
  (s.namespace?_addNamespace n _).trans (if_pos rfl)

end Store

namespace Analysis

/-- A scope leads outward to an older one; one for a clause belongs to a query block, and one for a
later clause leads to one for an earlier. -/
structure ScopeOk (a : Analysis) (id : ScopeId) (sc : Scope) : Prop where
  parent : ∀ p, sc.parent = some p → p < id
  node : sc.kind.ofQuery → ∀ x, sc.node = some x → a.tree.kind (some x) = .select
  outer : sc.kind = .aggregating ∨ sc.kind = .orderBy → ∃ p sp, sc.parent = some p ∧
    a.store.scope? p = some sp ∧ sp.node = sc.node ∧
    (sp.kind = .select ∨ sc.kind = .orderBy ∧ sp.kind = .aggregating)

def ClauseScope (t : Tree) (query : NodeId) (c : Clause) (sc : Scope) : Prop :=
  sc.node = some query ∧ match c with
    | .source | .condition | .groups => sc.kind = .select
    | .list | .having =>
      if t.isAggregating query then
        sc.kind = .aggregating ∧ sc.groups = t.elements (t.select query).groups
      else sc.kind = .select
    | .order => sc.kind = .orderBy

def HasScope (id : ScopeId) (a : Analysis) : Prop := ∃ sc, a.store.scope? id = some sc

structure Registered (t : Tree) (a : Analysis) : Prop where
  tree : a.tree = t
  root : HasScope a.root a
  scopes : ∀ id sc, a.store.scope? id = some sc → ScopeOk a id sc
  clauses : ∀ q c id, a.clauses.get? (q, c) = some id →
    ∃ sc, a.store.scope? id = some sc ∧ ClauseScope t q c sc
  nodes : ∀ id n, a.store.namespace? id = some n → ∃ f, t.form? (some n.node) = some f
  blocks : ∀ id n, a.store.namespace? id = some n → n.kind = .select →
    ∀ c, (a.clauses.get? (n.node, c)).isSome
  fresh : ∀ id n, a.store.namespace? id = some n → n.status = .unvalidated

/-- The scope is there, and shows the relations of `sc` or more. -/
def Scoped (id : ScopeId) (sc : Scope) (a : Analysis) : Prop :=
  ∃ more, a.store.scope? id = some (sc.extend more)

instance (id : ScopeId) (sc : Scope) : Stable (Scoped id sc) where
  advances h hadv := by
    obtain ⟨more, hmore⟩ := h
    obtain ⟨more', hmore'⟩ := hadv.scopes id _ hmore
    exact ⟨more ++ more', by rw [hmore', Scope.extend_extend]⟩

instance (id : ScopeId) : Stable (HasScope id) where
  advances h hadv := by
    obtain ⟨sc, hsc⟩ := h
    obtain ⟨more, hmore⟩ := hadv.scopes id sc hsc
    exact ⟨_, hmore⟩

instance (k : NodeId × Clause) : Stable fun a => (a.clauses.get? k).isSome where
  advances h hadv := hadv.clauses k h

instance {β : Type} {P : β → Analysis → Prop} [∀ x, Stable (P x)] : Stable fun a => ∀ x, P x a where
  advances h hadv x := Stable.advances (h x) hadv

theorem Scoped.hasScope {id : ScopeId} (h : Scoped id sc a) : HasScope id a :=
  h.elim fun _ hmore => ⟨_, hmore⟩

theorem HasScope.lt {id : ScopeId} (h : HasScope id a) : id < a.store.scopes.size := by
  obtain ⟨sc, hsc⟩ := h
  exact (Array.getElem?_eq_some_iff.mp hsc).1

namespace Registered

section

variable (h : Registered t a)
include h

theorem showing (htree : b.tree = a.tree) (hroot : b.root = a.root)
    (hclauses : b.clauses = a.clauses) (hns : b.store.namespaces = a.store.namespaces)
    (hsc : ∀ id, ∃ more, b.store.scope? id = (a.store.scope? id).map (·.extend more)) :
    Registered t b where
  tree := htree.trans h.tree
  root := by
    obtain ⟨sc, hid⟩ := h.root
    obtain ⟨more, hmore⟩ := hsc a.root
    exact ⟨_, by rw [hroot, hmore, hid, Option.map_some]⟩
  scopes id sc hid := by
    obtain ⟨more, hmore⟩ := hsc id
    obtain ⟨sc', hsc', rfl⟩ := Option.map_eq_some_iff.mp (hmore.symm.trans hid)
    obtain ⟨hparent, hnode, houter⟩ := h.scopes id sc' hsc'
    refine ⟨hparent, htree ▸ hnode, fun hk => ?_⟩
    obtain ⟨p, sp, hp, hsp, hn, hkind⟩ := houter hk
    obtain ⟨more', hmore'⟩ := hsc p
    exact ⟨p, sp.extend more', hp, by rw [hmore', hsp]; rfl, hn, hkind⟩
  clauses q c id hid := by
    obtain ⟨sc, hsc', hc⟩ := h.clauses q c id (hclauses ▸ hid)
    obtain ⟨more, hmore⟩ := hsc id
    exact ⟨sc.extend more, by rw [hmore, hsc']; rfl, hc⟩
  nodes id n hn := h.nodes id n (by rwa [Store.namespace?, ← hns])
  blocks id n hn hk c := hclauses ▸ h.blocks id n (by rwa [Store.namespace?, ← hns]) hk c
  fresh id n hn := h.fresh id n (by rwa [Store.namespace?, ← hns])

theorem addScope (hsc : ScopeOk a a.store.scopes.size sc) :
    Registered t { a with store := (a.store.addScope sc).2 } where
  tree := h.tree
  root := by
    obtain ⟨sc', hid⟩ := h.root
    exact ⟨sc', Store.scope?_addScope_of_some hid sc⟩
  scopes id sc' hid := by
    have hok (id : ScopeId) (sc' : Scope) (hs : ScopeOk a id sc') :
        ScopeOk { a with store := (a.store.addScope sc).2 } id sc' :=
      ⟨hs.parent, hs.node, fun hk => by
        obtain ⟨p, sp, hp, hsp, hrest⟩ := hs.outer hk
        exact ⟨p, sp, hp, Store.scope?_addScope_of_some hsp sc, hrest⟩⟩
    rw [Store.scope?_addScope] at hid
    split at hid
    · rename_i hsize
      cases hid
      exact hok id sc (hsize ▸ hsc)
    · exact hok id sc' (h.scopes id sc' hid)
  clauses q c id hid := by
    obtain ⟨sc', hsc', hc⟩ := h.clauses q c id hid
    exact ⟨sc', Store.scope?_addScope_of_some hsc' sc, hc⟩
  nodes := h.nodes
  blocks := h.blocks
  fresh := h.fresh

theorem addNamespace (hn : ∃ f, t.form? (some n.node) = some f)
    (hst : n.status = .unvalidated)
    (hblock : n.kind = .select → ∀ c, (a.clauses.get? (n.node, c)).isSome)
    (names : Table NodeId NamespaceId) :
    Registered t { a with store := (a.store.addNamespace n).2, namespaceOf := names } where
  tree := h.tree
  root := h.root
  scopes id sc hid := by
    obtain ⟨hparent, hnode, houter⟩ := h.scopes id sc hid
    exact ⟨hparent, hnode, houter⟩
  clauses := h.clauses
  nodes id n' hid := by
    rw [Store.namespace?_addNamespace] at hid
    split at hid
    · cases hid; exact hn
    · exact h.nodes id n' hid
  blocks id n' hid hk := by
    rw [Store.namespace?_addNamespace] at hid
    split at hid
    · cases hid; exact hblock hk
    · exact h.blocks id n' hid hk
  fresh id n' hid := by
    rw [Store.namespace?_addNamespace] at hid
    split at hid
    · cases hid; exact hst
    · exact h.fresh id n' hid

theorem setClause {id : ScopeId}
    (hid : a.store.scope? id = some sc) (hsc : ClauseScope t q c sc) :
    Registered t { a with clauses := a.clauses.insert (q, c) id } where
  tree := h.tree
  root := h.root
  scopes id sc hid := by
    obtain ⟨hparent, hnode, houter⟩ := h.scopes id sc hid
    exact ⟨hparent, hnode, houter⟩
  clauses q' c' id' hget := by
    rw [Table.get?_insert] at hget
    split at hget
    · rename_i heq
      cases heq
      cases hget
      exact ⟨sc, hid, hsc⟩
    · exact h.clauses q' c' id' hget
  nodes := h.nodes
  blocks id n hn hk c' := by
    rw [Table.get?_insert]
    split
    · rfl
    · exact h.blocks id n hn hk c'
  fresh := h.fresh

end

end Registered

/-- What is written down about nodes, and the types it is written in. -/
def record (a : Analysis) : Analysis :=
  { tree := {}, types := a.types, scopeOf := a.scopeOf, typeOf := a.typeOf, qualified := a.qualified
    selectLists := a.selectLists, overloads := a.overloads, parameters :=
      a.parameters, frames := a.frames }

/-- Between the two nothing was written down about nodes, and nothing looked up. -/
def Unwritten (a b : Analysis) : Prop := b.record = a.record ∧ b.lookups = a.lookups

theorem Unwritten.refl (a : Analysis) : Unwritten a a := ⟨rfl, rfl⟩

/-- Properties that registration keeps as long as it keeps how scopes and namespaces hang
together. -/
class Registering (t : outParam Tree) (I : Analysis → Prop) : Prop where
  registered : ∀ {a}, I a → Registered t a
  advances : ∀ {a b}, I a → Registered t b → Advances a b → Unwritten a b → I b

instance (t : Tree) : Registering t (Registered t) := ⟨fun h => h, fun _ h _ _ => h⟩

instance {t : Tree} {I P : Analysis → Prop} [Registering t I] [Stable P] :
    Registering t fun a => I a ∧ P a :=
  ⟨fun h => Registering.registered h.1,
    fun h hb hadv hw => ⟨Registering.advances h.1 hb hadv hw, Stable.advances h.2 hadv⟩⟩

instance {t : Tree} {I : Analysis → Prop} {w : Analysis} [Registering t I] :
    Registering t fun a => I a ∧ Unwritten w a :=
  ⟨fun h => Registering.registered h.1,
    fun h hb hadv hw => ⟨Registering.advances h.1 hb hadv hw, hw.1.trans h.2.1, hw.2.trans h.2.2⟩⟩

section Steps

variable [hI : Registering t I]
include hI

theorem newScope_gives (hsc : ∀ a, I a → ScopeOk a a.store.scopes.size sc) :
    Gives s I H (newScope sc) fun id a => Scoped id sc a := by
  intro a ha
  have hreg : Registered t { a with store := (a.store.addScope sc).2 } :=
    (Registering.registered ha).addScope (hsc a ha)
  have hadv : Advances a { a with store := (a.store.addScope sc).2 } := by
    refine { Advances.refl a with scopes := fun id sc' hid => ⟨[], ?_⟩ }
    rw [Store.scope?_addScope_of_some hid, Scope.extend_nil]
  refine ⟨⟨Registering.advances ha hreg hadv ⟨rfl, rfl⟩, hadv⟩, [], ?_⟩
  rw [Scope.extend_nil]
  exact a.store.scope?_new sc

theorem newNamespace_keeps (hnode : ∃ f, t.form? (some node) = some f)
    (hblock : kind = .select → ∀ c a, I a → (a.clauses.get? (node, c)).isSome) :
    Keeps s I H (newNamespace kind node enclosing scope) := by
  refine Runs.modifyGet fun a ha => ?_
  have hadv (n : Namespace) (hn : n.status = .unvalidated) (names : Table NodeId NamespaceId) :
      Advances a { a with store := (a.store.addNamespace n).2, namespaceOf := names } := by
    refine { Advances.refl a with status := fun id => ?_, kept := fun {id m} hm _ => ?_ }
    · rw [Store.status?, Store.status?, Store.namespace?_addNamespace]
      split
      · rename_i hid
        have hnone : a.store.namespace? id = none := Array.getElem?_eq_none (Nat.le_of_eq hid.symm)
        rw [hnone, Option.map_some, hn]
        exact .added rfl
      · exact .refl _
    · rw [Store.namespace?_addNamespace,
        if_neg (Nat.ne_of_lt (Array.getElem?_eq_some_iff.mp hm).1), hm]
  exact ⟨Registering.advances ha
    ((Registering.registered ha).addNamespace hnode rfl (fun hk c => hblock hk c a ha) _)
    (hadv _ rfl _) ⟨rfl, rfl⟩, hadv _ rfl _⟩

theorem addChild_keeps : Keeps s I H (addChild scope aliasName source nullable) := by
  refine Runs.modify fun a ha => ?_
  have hsc := fun id => a.store.scope?_addChild scope id { aliasName, source, nullable }
  have hns := a.store.namespaces_addChild scope { aliasName, source, nullable }
  have hadv : Advances a
      { a with store := a.store.addChild scope { aliasName, source, nullable } } := by
    refine ⟨.refl _, .refl _, fun id sc hid => ?_, fun _ h => h, fun id => ?_, fun hn _ => ?_⟩
    · obtain ⟨more, hmore⟩ := hsc id
      exact ⟨more, by rw [hmore, hid]; rfl⟩
    · rw [Store.status?, Store.status?, Store.namespace?, Store.namespace?, hns]
      exact .refl _
    · rwa [Store.namespace?, hns]
  exact ⟨Registering.advances ha ((Registering.registered ha).showing rfl rfl rfl hns hsc)
    hadv ⟨rfl, rfl⟩, hadv⟩

theorem setClause_keeps (hsc : ∀ a, I a → ∃ sc, a.store.scope? scope = some sc ∧
    ClauseScope t query c sc) : Keeps s I H (setClause query c scope) := by
  refine Runs.modify fun a ha => ?_
  obtain ⟨sc, hid, hcl⟩ := hsc a ha
  have hadv : Advances a { a with clauses := a.clauses.insert (query, c) scope } := by
    refine { Advances.refl a with clauses := fun k hk => ?_ }
    rw [Table.get?_insert]
    split
    · rfl
    · exact hk
  exact ⟨Registering.advances ha ((Registering.registered ha).setClause hid hcl) hadv ⟨rfl, rfl⟩,
    hadv⟩

theorem addTo_keeps : Keeps s I H (publish place source) := by
  unfold publish
  split
  · exact addChild_keeps
  · exact Keeps.pure _

theorem freshAlias_keeps : Keeps s I H freshAlias := by
  refine Runs.modifyGet fun a ha => ?_
  have hadv : Advances a { a with aliases := a.aliases + 1 } := .of_eq rfl
  have hreg : Registered t { a with aliases := a.aliases + 1 } :=
    (Registering.registered ha).showing rfl rfl rfl rfl fun id => ⟨[], by simp⟩
  exact ⟨Registering.advances ha hreg hadv ⟨rfl, rfl⟩, hadv⟩

omit hI in
theorem aliasOr_keeps (h : Keeps s I H other) : Keeps s I H (aliasOr aliasName other) := by
  unfold aliasOr
  split
  · exact h
  · exact Keeps.pure _

end Steps

end Analysis

end SqlAnalysis

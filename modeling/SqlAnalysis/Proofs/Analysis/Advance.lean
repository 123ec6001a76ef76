import SqlAnalysis.Proofs.SqlType.Table
import SqlAnalysis.Proofs.Tree.Order

/-!
How far one state of an analysis is from an earlier one. `Advances` says that the steps between have
come to their end: none of them leaves a relation in progress that was not so before, and none
touches a valid one. `Notes` says so of steps that validate nothing.
-/

namespace SqlAnalysis

theorem Tree.form?_add (t : Tree) (n : Node) :
    (t.add n).2.form? (some (t.add n).1) = some n.form := by
  simp only [Tree.add, Tree.form?, Tree.node?, Option.bind_some, Array.getElem?_push_size,
    Option.map_some]

theorem Tree.node?_add_cases {t : Tree} (h : (t.add n).2.node? (some i) = some m) :
    t.node? (some i) = some m ∨ i = t.size ∧ m = n := by
  have h : (t.nodes.push n)[i]? = some m := h
  rw [Array.getElem?_push] at h
  split at h
  · exact .inr ⟨‹_›, (Option.some.inj h).symm⟩
  · exact .inl h

theorem Tree.form?_add_cases {t : Tree} (h : (t.add n).2.form? (some i) = some f) :
    t.form? (some i) = some f ∨ i = t.size ∧ f = n.form := by
  obtain ⟨m, hm, rfl⟩ := Option.map_eq_some_iff.mp h
  refine (node?_add_cases hm).imp (fun hm => by rw [form?, hm]; rfl) ?_
  rintro ⟨hi, rfl⟩
  exact ⟨hi, rfl⟩

theorem Tree.ordered_add {t : Tree} (ht : t.Ordered) (hn : ∀ y ∈ n.form.parts, t.Has y) :
    (t.add n).2.Ordered := by
  rintro i j ⟨f, hf, hj⟩
  obtain hf | ⟨rfl, rfl⟩ := form?_add_cases hf
  · exact ht i j ⟨f, hf, hj⟩
  · exact hn _ hj j rfl

theorem Tree.span?_cases (t : Tree) (x : Link) :
    t.span? x = none ∨ ∃ i n, x = some i ∧ t.node? (some i) = some n ∧ t.span? x = n.span := by
  cases x with
  | none => exact .inl rfl
  | some i =>
    cases hn : t.node? (some i) with
    | none => exact .inl (by rw [span?, hn]; rfl)
    | some n => exact .inr ⟨i, n, rfl, hn, by rw [span?, hn]; rfl⟩

/-- The tree `u` has all nodes of `t` at their places. -/
def Tree.Extends (t u : Tree) : Prop :=
  ∀ (i : NodeId) (n : Node), t.nodes[i]? = some n → u.nodes[i]? = some n

namespace Tree.Extends

variable {t : Tree}

theorem refl (t : Tree) : t.Extends t := fun _ _ h => h

theorem trans (h : t.Extends u) (h' : u.Extends v) : t.Extends v := fun i n hn => h' i n (h i n hn)

theorem add (t : Tree) (n : Node) : t.Extends (t.add n).2 := by
  intro i m h
  have hi : i < t.nodes.size := (Array.getElem?_eq_some_iff.mp h).1
  simp only [Tree.add]
  rw [Array.getElem?_push_lt hi]
  exact (Array.getElem?_eq_some_iff.mp h).2 ▸ rfl

variable {id : Link}

theorem node? (h : t.Extends u) (hn : t.node? id = some n) : u.node? id = some n := by
  cases id with
  | none => cases hn
  | some i => exact h i n hn

theorem form? (h : t.Extends u) (hf : t.form? id = some f) : u.form? id = some f := by
  obtain ⟨n, hn, rfl⟩ := Option.map_eq_some_iff.mp hf
  exact Option.map_eq_some_iff.mpr ⟨n, h.node? hn, rfl⟩

theorem size_le (h : t.Extends u) : t.size ≤ u.size := by
  refine Nat.le_of_not_lt fun hlt => ?_
  have hlast := Array.getElem?_eq_getElem hlt
  exact absurd (Array.getElem?_eq_some_iff.mp (h _ _ hlast)).1 (Nat.lt_irrefl _)

theorem ordered (h : t.Extends u) (hu : u.Ordered) : t.Ordered := by
  rintro i j ⟨f, hf, hj⟩
  exact hu i j ⟨f, h.form? hf, hj⟩

theorem exists_span? (h : t.Extends u) (x : Link) : ∃ y, t.span? x = u.span? y := by
  obtain hnone | ⟨i, n, rfl, hn, hspan⟩ := t.span?_cases x
  · exact ⟨none, hnone⟩
  · exact ⟨some i, by rw [hspan, Tree.span?, h.node? hn]; rfl⟩

end Tree.Extends

theorem Tree.Has.mono {t u : Tree} (h : t.Extends u) (hx : t.Has x) : u.Has x :=
  fun i hi => Nat.lt_of_lt_of_le (hx i hi) h.size_le

/-- The tree `u` has all nodes of `t` at their places. Its other nodes stand in the text where nodes
of `t` do, or nowhere, and they come after their parts if the nodes of `t` do. -/
structure Tree.Grows (t u : Tree) : Prop where
  nodes : t.Extends u
  spans : ∀ y, ∃ x, u.span? y = t.span? x
  ordered : t.Ordered → u.Ordered

namespace Tree.Grows

variable {t : Tree}

theorem refl (t : Tree) : t.Grows t := ⟨.refl t, fun y => ⟨y, rfl⟩, id⟩

theorem trans (h : t.Grows u) (h' : u.Grows v) : t.Grows v := by
  refine ⟨h.nodes.trans h'.nodes, fun z => ?_, h'.ordered ∘ h.ordered⟩
  obtain ⟨y, hy⟩ := h'.spans z
  obtain ⟨x, hx⟩ := h.spans y
  exact ⟨x, hy.trans hx⟩

theorem add {n : Node} (h : ∃ x, n.span = t.span? x)
    (hn : t.Ordered → ∀ y ∈ n.form.parts, t.Has y) : t.Grows (t.add n).2 := by
  refine ⟨.add t n, fun y => ?_, fun ht => ordered_add ht (hn ht)⟩
  obtain hnone | ⟨i, m, rfl, hm, hspan⟩ := (t.add n).2.span?_cases y
  · exact ⟨none, hnone⟩
  rw [hspan]
  obtain hm | ⟨_, rfl⟩ := node?_add_cases hm
  · exact ⟨some i, by rw [span?, hm]; rfl⟩
  · exact h

theorem leaf (h : ∃ x, n.span = t.span? x) (hn : n.form.parts = []) : t.Grows (t.add n).2 :=
  add h fun _ _ hy => by rw [hn] at hy; cases hy

theorem buildAlias (as : Operator) {expr : Link} (hexpr : t.Ordered → t.Has expr) (name : String) :
    t.Grows (Tree.buildAlias as expr name t).2 := by
  let n : Node := { form := .identifier { names := [name] } }
  have hname : t.Grows (t.add n).2 := leaf ⟨none, rfl⟩ rfl
  refine hname.trans (add ⟨none, rfl⟩ fun ht =>
    List.forall_mem_cons.mpr ⟨?_, List.forall_mem_singleton.mpr ?_⟩)
  · exact (hexpr (hname.nodes.ordered ht)).mono hname.nodes
  · exact .of_form? (t.form?_add n)

end Tree.Grows

/-- The relation as it was registered. -/
def Namespace.declared (n : Namespace) : Namespace :=
  { n with status := .unvalidated, table := none, monotonic := [] }

namespace Namespace

variable {m n : Namespace}

theorem node_of_declared (h : m.declared = n.declared) : m.node = n.node :=
  show m.declared.node = n.declared.node from congrArg Namespace.node h

theorem kind_of_declared (h : m.declared = n.declared) : m.kind = n.kind :=
  show m.declared.kind = n.declared.kind from congrArg Namespace.kind h

end Namespace

abbrev Scope.extend (sc : Scope) (more : List Child) : Scope :=
  { sc with children := sc.children ++ more }

@[simp] theorem Scope.extend_nil (sc : Scope) : sc.extend [] = sc := by
  rw [extend, List.append_nil]

@[simp] theorem Scope.extend_extend (sc : Scope) (more more' : List Child) :
    (sc.extend more).extend more' = sc.extend (more ++ more') := by
  rw [extend, List.append_assoc]

namespace Store

variable (s : Store)

def declared? (id : NamespaceId) : Option Namespace := (s.namespace? id).map Namespace.declared

def status? (id : NamespaceId) : Option Status := (s.namespace? id).map Namespace.status

theorem namespace?_modifyNamespace (id id' : NamespaceId) (f : Namespace → Namespace) :
    (s.modifyNamespace id f).namespace? id' =
      if id = id' then (s.namespace? id').map f else s.namespace? id' := by
  simp only [namespace?, modifyNamespace, Array.getElem?_modify]

theorem status?_modifyNamespace (id id' : NamespaceId) (f : Namespace → Namespace)
    (hf : ∀ n, (f n).status = n.status) : (s.modifyNamespace id f).status? id' = s.status? id' := by
  rw [status?, namespace?_modifyNamespace]
  split <;> simp [status?, Function.comp_def, hf]

theorem declared?_modifyNamespace (id id' : NamespaceId) (f : Namespace → Namespace)
    (hf : ∀ n, (f n).declared = n.declared) :
    (s.modifyNamespace id f).declared? id' = s.declared? id' := by
  rw [declared?, namespace?_modifyNamespace]
  split <;> simp [declared?, Function.comp_def, hf]

theorem status?_setStatus (id id' : NamespaceId) (st : Status) :
    (s.modifyNamespace id fun n => { n with status := st }).status? id' =
      if id = id' then (s.status? id').map fun _ => st else s.status? id' := by
  rw [status?, namespace?_modifyNamespace]
  split <;> simp [status?, Function.comp_def]

end Store

theorem Status.isValid_iff {st : Status} : st.isValid ↔ ∃ row, st = .valid row := by
  cases st <;> simp [Status.isValid]

/-- What becomes of the status of a relation by the end of a step: a relation in progress stays so,
and a valid one stays as it is. -/
inductive Status.Advances : Status → Status → Prop where
  | unvalidated : Advances .unvalidated .unvalidated
  | validated (row : SqlType) : Advances .unvalidated (.valid row)
  | inProgress (before after : Option SqlType) : Advances (.inProgress before) (.inProgress after)
  | valid (row : SqlType) : Advances (.valid row) (.valid row)

namespace Status.Advances

theorem refl (st : Status) : st.Advances st := by
  cases st <;> constructor

theorem trans {st st' : Status} (h : st.Advances st') (h' : st'.Advances st'') :
    st.Advances st'' := by
  cases h <;> cases h' <;> constructor

end Status.Advances

/-- The same of a relation that may be added by the step. -/
inductive Status.Becomes : Option Status → Option Status → Prop where
  | absent : Becomes none none
  | added {st : Status} : st.isInProgress = false → Becomes none (some st)
  | kept {st st' : Status} : st.Advances st' → Becomes (some st) (some st')

namespace Status.Becomes

theorem refl (st : Option Status) : Becomes st st := by
  cases st with
  | none => exact .absent
  | some st => exact .kept (.refl st)

theorem trans (h : Becomes st st') (h' : Becomes st' st'') : Becomes st st'' := by
  cases h with
  | absent => exact h'
  | added hst =>
    cases h' with
    | kept h' => refine .added ?_; cases h' <;> first | rfl | exact hst
  | kept h =>
    cases h' with
    | kept h' => exact .kept (h.trans h')

end Status.Becomes

namespace Analysis

/-- What is registered is the same in both, and all nodes of the first are in the second. -/
structure SameDeclared (a b : Analysis) : Prop where
  tree : a.tree.Extends b.tree
  root : b.root = a.root
  namespaceOf : b.namespaceOf = a.namespaceOf
  clauses : b.clauses = a.clauses
  joinScopes : b.joinScopes = a.joinScopes
  scopes : b.store.scopes = a.store.scopes
  declared : ∀ id, b.store.declared? id = a.store.declared? id

variable {id : NamespaceId} {n : Namespace}

namespace SameDeclared

theorem refl (a : Analysis) : SameDeclared a a := ⟨.refl _, rfl, rfl, rfl, rfl, rfl, fun _ => rfl⟩

theorem trans (h : SameDeclared a b) (h' : SameDeclared b c) : SameDeclared a c where
  tree := h.tree.trans h'.tree
  root := h'.root.trans h.root
  namespaceOf := h'.namespaceOf.trans h.namespaceOf
  clauses := h'.clauses.trans h.clauses
  joinScopes := h'.joinScopes.trans h.joinScopes
  scopes := h'.scopes.trans h.scopes
  declared id := (h'.declared id).trans (h.declared id)

theorem of_common (h : SameDeclared a b) (h' : SameDeclared a c) (htree : b.tree.Extends c.tree) :
    SameDeclared b c where
  tree := htree
  root := h'.root.trans h.root.symm
  namespaceOf := h'.namespaceOf.trans h.namespaceOf.symm
  clauses := h'.clauses.trans h.clauses.symm
  joinScopes := h'.joinScopes.trans h.joinScopes.symm
  scopes := h'.scopes.trans h.scopes.symm
  declared id := (h'.declared id).trans (h.declared id).symm

theorem namespace? (h : SameDeclared a b) (hn : b.store.namespace? id = some n) :
    ∃ m, a.store.namespace? id = some m ∧ m.declared = n.declared := by
  have hd := h.declared id
  rw [Store.declared?, Store.declared?, hn, Option.map_some] at hd
  exact Option.map_eq_some_iff.mp hd.symm

theorem exists_namespace? (h : SameDeclared a b) (hn : a.store.namespace? id = some n) :
    ∃ m, b.store.namespace? id = some m ∧ m.declared = n.declared := by
  have hd := h.declared id
  rw [Store.declared?, Store.declared?, hn, Option.map_some] at hd
  exact Option.map_eq_some_iff.mp hd

end SameDeclared

/-- The second analysis knows more, but has validated nothing that the first has not. -/
structure Notes (a b : Analysis) : Prop extends SameDeclared a b where
  grows : a.tree.Grows b.tree
  types : a.types.Extends b.types
  status : ∀ id, b.store.status? id = a.store.status? id
  kept : ∀ {id n}, a.store.namespace? id = some n → n.isValid → b.store.namespace? id = some n

/-- The second analysis is reached from the first by steps that have come to their end. -/
structure Advances (a b : Analysis) : Prop where
  tree : a.tree.Extends b.tree
  types : a.types.Extends b.types
  /-- A scope may come to show more relations. -/
  scopes : ∀ id sc, a.store.scope? id = some sc →
    ∃ more, b.store.scope? id = some (sc.extend more)
  clauses : ∀ k, (a.clauses.get? k).isSome → (b.clauses.get? k).isSome
  status : ∀ id, Status.Becomes (a.store.status? id) (b.store.status? id)
  /-- Nothing more is written to a valid relation. -/
  kept : ∀ {id n}, a.store.namespace? id = some n → n.isValid → b.store.namespace? id = some n

namespace Advances

theorem refl (a : Analysis) : Advances a a :=
  ⟨.refl _, .refl _, fun _ sc h => ⟨[], by rw [h, Scope.extend_nil]⟩, fun _ h => h,
    fun _ => .refl _, fun h _ => h⟩

theorem trans (h : Advances a b) (h' : Advances b c) : Advances a c where
  tree := h.tree.trans h'.tree
  types := h.types.trans h'.types
  scopes id sc hsc := by
    obtain ⟨more, hb⟩ := h.scopes id sc hsc
    obtain ⟨more', hc⟩ := h'.scopes id _ hb
    exact ⟨more ++ more', by rw [hc, Scope.extend_extend]⟩
  clauses k hk := h'.clauses k (h.clauses k hk)
  status id := (h.status id).trans (h'.status id)
  kept hn hvalid := h'.kept (h.kept hn hvalid) hvalid

/-- What is registered stays, so only types and relations are to be looked at. -/
theorem of_sameDeclared (h : SameDeclared a b) (ht : a.types.Extends b.types)
    (hs : ∀ id, Status.Becomes (a.store.status? id) (b.store.status? id))
    (hk : ∀ {id n}, a.store.namespace? id = some n → n.isValid → b.store.namespace? id = some n) :
    Advances a b where
  tree := h.tree
  types := ht
  scopes _ _ hsc := ⟨[], by rw [Store.scope?, h.scopes, Scope.extend_nil]; exact hsc⟩
  clauses _ hk := h.clauses ▸ hk
  status := hs
  kept := hk

theorem status?_valid (h : Advances a b) {row : SqlType}
    (hid : a.store.status? id = some (.valid row)) : b.store.status? id = some (.valid row) := by
  have hst := h.status id
  rw [hid] at hst
  cases hb : b.store.status? id with
  | none => rw [hb] at hst; cases hst
  | some st =>
    rw [hb] at hst
    cases hst with
    | kept hst =>
      cases hst with
      | valid _ => rfl

end Advances

namespace Notes

theorem advances (h : Notes a b) : Advances a b :=
  .of_sameDeclared h.toSameDeclared h.types (fun id => h.status id ▸ .refl _) h.kept

theorem of_eq (h : (b.tree, b.types, b.root, b.store, b.namespaceOf, b.clauses, b.joinScopes) =
    (a.tree, a.types, a.root, a.store, a.namespaceOf, a.clauses, a.joinScopes)) : Notes a b := by
  simp only [Prod.mk.injEq] at h
  obtain ⟨htree, htypes, hroot, hstore, hns, hc, hj⟩ := h
  refine ⟨⟨htree ▸ .refl _, hroot, hns, hc, hj, congrArg Store.scopes hstore, fun id => ?_⟩,
    htree ▸ .refl _, htypes ▸ .refl _, fun id => ?_, fun hn _ => hstore ▸ hn⟩ <;> rw [hstore]

end Notes

theorem Advances.of_eq (h : (b.tree, b.types, b.root, b.store, b.namespaceOf, b.clauses,
    b.joinScopes) = (a.tree, a.types, a.root, a.store, a.namespaceOf, a.clauses, a.joinScopes)) :
    Advances a b := (Notes.of_eq h).advances

def InProgress (id : NamespaceId) (a : Analysis) : Prop :=
  ∃ row, a.store.status? id = some (.inProgress row)

theorem InProgress.ne_valid (h : InProgress id a) (row : SqlType) :
    a.store.status? id ≠ some (.valid row) := by
  obtain ⟨published, hid⟩ := h
  rw [hid]
  nofun

theorem InProgress.namespace?_modifyNamespace (h : InProgress id a)
    (f : Namespace → Namespace) (hn : a.store.namespace? id' = some n) (hvalid : n.isValid) :
    (a.store.modifyNamespace id f).namespace? id' = some n := by
  rw [Store.namespace?_modifyNamespace, if_neg, hn]
  rintro rfl
  obtain ⟨published, hid⟩ := h
  rw [Store.status?, hn, Option.map_some, Option.some_inj] at hid
  rw [Namespace.isValid, hid] at hvalid
  cases hvalid

/-- A note beside all that is written down about the nodes of the statement. -/
structure Silent (a b : Analysis) : Prop extends Notes a b where
  typeOf : b.typeOf = a.typeOf
  scopeOf : b.scopeOf = a.scopeOf
  qualified : b.qualified = a.qualified
  selectLists : b.selectLists = a.selectLists
  overloads : b.overloads = a.overloads
  parameters : b.parameters = a.parameters
  frames : b.frames = a.frames

namespace Silent

theorem build (h : a.types.Extends T) : Silent a { a with types := T } :=
  ⟨⟨⟨.refl _, rfl, rfl, rfl, rfl, rfl, fun _ => rfl⟩, .refl _, h, fun _ => rfl, fun hn _ => hn⟩,
    rfl, rfl, rfl, rfl, rfl, rfl, rfl⟩

theorem grow (h : a.tree.Grows t) : Silent a { a with tree := t } :=
  ⟨⟨⟨h.nodes, rfl, rfl, rfl, rfl, rfl, fun _ => rfl⟩, h, .refl _, fun _ => rfl, fun hn _ => hn⟩,
    rfl, rfl, rfl, rfl, rfl, rfl, rfl⟩

theorem modifyNamespace (hprogress : InProgress id a)
    (hd : ∀ n, (f n).declared = n.declared) (hs : ∀ n, (f n).status = n.status) :
    Silent a { a with store := a.store.modifyNamespace id f } :=
  ⟨⟨⟨.refl _, rfl, rfl, rfl, rfl, rfl, fun id' => a.store.declared?_modifyNamespace id id' f hd⟩,
    .refl _, .refl _, fun id' => a.store.status?_modifyNamespace id id' f hs,
    hprogress.namespace?_modifyNamespace f⟩, rfl, rfl, rfl, rfl, rfl, rfl, rfl⟩

end Silent

/-- Properties that are kept by whatever is noted beside the status of relations. -/
class Recording (I : Analysis → Prop) : Prop where
  notes : ∀ {a b}, I a → Notes a b → I b

/-- Properties that are kept by what is noted beside the nodes of the statement. -/
class Hushed (I : Analysis → Prop) : Prop where
  silent : ∀ {a b}, I a → Silent a b → I b

/-- Properties that hold from some time on. -/
class Stable (I : Analysis → Prop) : Prop where
  advances : ∀ {a b}, I a → Advances a b → I b

instance {I : Analysis → Prop} [Stable I] : Recording I :=
  ⟨fun h hn => Stable.advances h hn.advances⟩

instance {I : Analysis → Prop} [Recording I] : Hushed I :=
  ⟨fun h hs => Recording.notes h hs.toNotes⟩

instance {I P : Analysis → Prop} [Hushed I] [Stable P] : Hushed fun a => I a ∧ P a :=
  ⟨fun h hs => ⟨Hushed.silent h.1 hs, Stable.advances h.2 hs.advances⟩⟩

instance {P Q : Analysis → Prop} [Stable P] [Stable Q] : Stable fun a => P a ∧ Q a :=
  ⟨fun h ha => ⟨Stable.advances h.1 ha, Stable.advances h.2 ha⟩⟩

instance : Stable fun _ => True := ⟨fun _ _ => trivial⟩

instance (a : Analysis) : Stable (Advances a) := ⟨Advances.trans⟩

/-- A node stands there, or it is nowhere. -/
def AtNode (span : Option Span) (a : Analysis) : Prop := ∃ x, span = a.tree.span? x

instance (span : Option Span) : Stable (AtNode span) where
  advances h ha := by
    obtain ⟨x, rfl⟩ := h
    exact ha.tree.exists_span? x

instance (id : Link) (f : Form) : Stable fun a => a.tree.form? id = some f :=
  ⟨fun h ha => ha.tree.form? h⟩

instance (id : NamespaceId) : Stable (InProgress id) where
  advances {a b} h hadv := by
    obtain ⟨row, hrow⟩ := h
    have hst := hadv.status id
    rw [hrow] at hst
    cases hb : b.store.status? id with
    | none => rw [hb] at hst; cases hst
    | some st =>
      rw [hb] at hst
      cases hst with
      | kept hst =>
        cases hst with
        | inProgress _ after => exact ⟨after, hb⟩

end Analysis

end SqlAnalysis

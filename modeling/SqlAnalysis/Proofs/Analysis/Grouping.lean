import SqlAnalysis.Proofs.Analysis.Functions

/-!
The check of an expression against the groups of its query. `Enters` leads through an expression as
the check does, and a check that succeeds has found every name that is reached that way inside an
expression that the query groups by, or to be a function, or to mean something of a query around.
-/

namespace SqlAnalysis

/-- All operands of such a call belong to the expression. -/
def Kind.isOpen (k : Kind) : Bool :=
  match k with
  | .multisetQuery | .scalarQuery | .existsRows | .over | .naming | .descending | .cast => false
  | k => !k.isQuery

namespace Tree

variable {t : Tree}

/-- The expression `y` belongs directly to the expression `x`. What is named, ordered by or cast is
its first operand; of a windowed call the operands of the aggregate and the keys of a window that is
written in place belong to it. -/
inductive Enters (t : Tree) : Link → Link → Prop where
  | item {x y : Link} {items : List Link} : t.form? x = some (.list items) →
    y ∈ items → Enters t x y
  | operand {x y : Link} {c : Call} : t.call? x = some c → c.operator.isAggregate = false →
    c.kind.isOpen → y ∈ c.operands → Enters t x y
  | first {x : Link} {c : Call} : t.call? x = some c → c.operator.isAggregate = false →
    c.kind = .naming ∨ c.kind = .descending ∨ c.kind = .cast → Enters t x (c.operand 0)
  | windowed {x y : Link} {c inner : Call} : t.call? x = some c → c.operator.isAggregate = false →
    c.kind = .over → t.call? (c.operand 0) = some inner → y ∈ inner.operands → Enters t x y
  | key {x y : Link} {c w : Call} {k : Nat} : t.call? x = some c → c.operator.isAggregate = false →
    c.kind = .over → t.call? (c.operand 1) = some w → w.kind = .window → k = 2 ∨
    k = 3 → y ∈ t.elements (w.operand k) → Enters t x y

theorem Enters.list_or_call (h : t.Enters x y) :
    (∃ items, t.form? x = some (.list items) ∧ y ∈ items) ∨ ∃ c, t.call? x = some c := by
  cases h with
  | item hf hy => exact .inl ⟨_, hf, hy⟩
  | operand hc | first hc | windowed hc | key hc => exact .inr ⟨_, hc⟩

theorem not_enters_none : ¬ t.Enters none y := by
  intro h
  rcases h.list_or_call with ⟨_, hf, _⟩ | ⟨_, hc⟩
  · cases hf
  · cases hc

theorem exists_of_reflTransGen_enters (h : Relation.ReflTransGen t.Enters x (some i)) :
    ∃ j, x = some j := by
  cases x with
  | none =>
    rcases Relation.ReflTransGen.cases_head h with h | ⟨y, hy, _⟩
    · cases h
    · exact absurd hy not_enters_none
  | some j => exact ⟨j, rfl⟩

theorem Enters.below (h : t.Enters x (some j)) : t.Below x (some j) := by
  generalize hj : some j = y at h
  cases h with
  | item hf hy => exact .single ⟨_, hf, hy⟩
  | operand hc _ _ hy => exact .single (.of_operands hc hy)
  | first hc => exact hj ▸ below_of_operand hc (k := 0) (by rw [← hj])
  | windowed hc _ _ hi hy => exact hj ▸ below_of_operand hc (.single (.of_operands hi (hj ▸ hy)))
  | key hc _ _ hw _ _ hy =>
    have hkey := (below_of_operand hw (hj ▸ reflTransGen_of_mem_elements hy)).to_reflTransGen
    exact hj ▸ below_of_operand hc hkey

theorem reflTransGen_part (h : Relation.ReflTransGen t.Enters x (some i)) : t.Spans x i := by
  induction h using Relation.ReflTransGen.head_induction_on with
  | refl => exact .refl
  | head hy hrest ih =>
    obtain ⟨j, rfl⟩ := exists_of_reflTransGen_enters hrest
    exact hy.below.to_reflTransGen.trans ih

end Tree

namespace Analysis

variable {α : Type}

/-- Steps that keep `I` lead from one state to the other. -/
def Passes (I : Analysis → Prop) (a b : Analysis) : Prop := (I a → I b) ∧ Proceeds a b

namespace Passes

theorem refl (a : Analysis) : Passes I a a := ⟨id, .refl a, .refl a⟩

theorem trans (h : Passes I a b) (h' : Passes I b c) : Passes I a c := ⟨h'.1 ∘ h.1, h.2.trans h'.2⟩

end Passes

/-- The step asks the engine for nothing but the validation of relations. -/
def Consults (s : Setting) (e : Engine) (x : AnalysisM α) : Prop :=
  ∀ (J : Analysis → Prop) [Hushed J], (∀ ns, Keeps s J (fun _ => True) (e.validate ns .unknown)) →
    Keeps s J (fun _ => True) x

/-- The nodes under `x` are in the analysis as they are in the tree `u`. -/
def Holds (u : Tree) (x : Link) (a : Analysis) : Prop :=
  ∀ j, u.Spans x j → ∃ f, u.form? (some j) = some f ∧ a.tree.form? (some j) = some f

namespace Holds

section

variable (h : Holds u x a)
include h

section

variable (hy : Relation.ReflTransGen u.Part x y)
include hy

theorem form?_eq : a.tree.form? y = u.form? y := by
  cases y with
  | none => rfl
  | some j =>
    obtain ⟨f, hf, hf'⟩ := h j hy
    rw [hf, hf']

theorem call?_eq : a.tree.call? y = u.call? y := by
  rw [Tree.call?, Tree.call?, h.form?_eq hy]

theorem elements_eq : a.tree.elements y = u.elements y := by
  cases y with
  | none => rfl
  | some j => simp only [Tree.elements, Tree.list?, h.form?_eq hy]

end

theorem proceeds (hab : Proceeds a b) : Holds u x b := fun j hj =>
  (h j hj).imp fun _ hf => ⟨hf.1, hab.1.tree.form? hf.2⟩

theorem under (hy : Relation.ReflTransGen u.Part x y) : Holds u y a := fun j hj => h j (hy.trans hj)

end

end Holds

variable {check : Link → AnalysisM Unit}

section Passing

variable [Hushed I] (hv : ∀ ns, Keeps s I (fun _ => True) ((engine steps).validate ns .unknown))
include hv

theorem Consults.passes {x : AnalysisM α} (hx : Consults s (engine steps) x)
    (h : x s a = (.ok v, b)) : Passes I a b :=
  ⟨fun ha => ((hx I hv).ok ha h).1,
    Keeps.proceeds (hx _ (engine_sameDeclared s a steps).relation) h⟩

theorem forM_ok {f : α → AnalysisM Unit} (hf : ∀ x, Consults s (engine steps) (f x))
    {l : List α} (h : l.forM f s a = (.ok (), b)) {x : α} (hx : x ∈ l) :
    ∃ c d, Passes I a c ∧ f x s c = (.ok (), d) ∧ Passes I d b := by
  induction l generalizing a with
  | nil => cases hx
  | cons y l ih =>
    obtain ⟨_, c, hy, h⟩ := run_bind_ok (x := f y) h
    have hrest : Passes I c b :=
      Consults.passes hv (fun J _ hv => Keeps.forM fun z _ => hf z J hv) h
    rcases List.mem_cons.mp hx with rfl | hx
    · exact ⟨a, c, .refl a, hy, hrest⟩
    · obtain ⟨d, d', hd, hrun, hd'⟩ := ih h hx
      exact ⟨d, d', ((hf y).passes hv hy).trans hd, hrun, hd'⟩

omit hv [Hushed I] in
theorem consults_checkGroupedUpTo (depth : Nat) (x : Link) :
    Consults s (engine steps) (checkGroupedUpTo (engine steps) g depth x) := fun _ _ hv =>
  checkGroupedUpTo_keeps (R := fun _ _ => True) hv (fun _ _ => trivial)
    (fun _ _ _ => trivial) (fun _ _ _ _ _ _ _ => trivial) trivial

theorem isGroupExpr_ok (h : isGroupExpr (engine steps) g y groups s a = (.ok true, b)) :
    ∃ group ∈ groups, ∃ c d, Passes I a c ∧ c.tree.equalWith (sameColumn (engine steps) g)
      group y s c = (.ok true, d) ∧ Passes I c b := by
  have hpass {group : Link} {a b : Analysis} {same : Bool}
      (h : a.tree.equalWith (sameColumn (engine steps) g) group y s a =
      (.ok same, b)) : Passes I a b :=
    Consults.passes hv (fun _ _ hv => equalUpTo_keeps (sameColumn_keeps hv g) _ _ _) h
  induction groups generalizing a with
  | nil => cases h
  | cons group groups ih =>
    rw [isGroupExpr, run_bind_get] at h
    obtain ⟨same, c, hsame, h⟩ := run_bind_ok h
    cases same with
    | true =>
      cases h
      exact ⟨group, List.mem_cons_self, a, b, .refl a, hsame, hpass hsame⟩
    | false =>
      obtain ⟨group', hmem, d, d', hd, hrun, hd'⟩ := ih h
      exact ⟨group', List.mem_cons_of_mem _ hmem, d, d', (hpass hsame).trans hd, hrun, hd'⟩

/-- The check of an expression comes upon a name in it, unless an expression around the name is one
that the query groups by. -/
def Meets (s : Setting) (g : Grouping) (steps : Nat) (I : Analysis → Prop)
    (u : Tree) (x : Link) (i : NodeId) (name : Identifier) (a b : Analysis) : Prop :=
  ∃ c d, Passes I a c ∧ Passes I d b ∧ ((∃ y, Relation.ReflTransGen u.Enters x y ∧
    Relation.ReflTransGen u.Enters y (some i) ∧ isGroupExpr (engine steps) g y g.groups s c =
    (.ok true, d)) ∨ checkGroupedName (engine steps) g i name s c = (.ok (), d))

omit hv [Hushed I] in
theorem Meets.enters (h : Meets s g steps I u y i name a' b') (hxy : u.Enters x y)
    (ha : Passes I a a') (hb : Passes I b' b) : Meets s g steps I u x i name a b := by
  obtain ⟨c, d, hc, hd, hrest⟩ := h
  refine ⟨c, d, ha.trans hc, hd.trans hb, hrest.imp_left ?_⟩
  rintro ⟨z, hz, hzi, hrun⟩
  exact ⟨z, .head hxy hz, hzi, hrun⟩

omit hv [Hushed I] in
theorem below_operand {t : Tree} {c inner : Call} (hc : t.call? x = some c)
    (hinner : t.call? (c.operand k) = some inner) :
    Relation.ReflTransGen t.Part x (c.operand k) := by
  obtain ⟨j, hj⟩ := Tree.exists_of_call? hinner
  exact .single (.of_operands hc (hj ▸ c.mem_operands_of_operand hj))

omit hv [Hushed I] in
theorem mem_children {t : Tree} (hf : t.form? x = some f) (hk : some k ∈ f.parts) :
    k ∈ t.children x := by
  rw [Tree.children, hf]
  exact List.mem_filterMap.mpr ⟨some k, hk, rfl⟩

section

variable (hcheck : ∀ y, Consults s (engine steps) (check y))
include hcheck

omit hv [Hushed I] in
theorem consults_checkGroupedWindow :
    Consults s (engine steps) (checkGroupedWindow g check x) := fun J _ hv =>
  checkGroupedWindow_keeps (A := fun _ => True) (fun y _ => hcheck y J hv) fun _ _ =>
    ⟨fun _ _ => trivial, fun _ _ _ _ => trivial⟩

theorem checkGroupedWindow_ok {w : Call} (hw : u.call? x = some w)
    (hkind : w.kind = .window) (hx : Holds u x a) (hn : n = 2 ∨ n = 3)
    (hy : y ∈ u.elements (w.operand n)) (h : checkGroupedWindow g check x s a = (.ok (), b)) :
    ∃ a' b', Passes I a a' ∧ check y s a' = (.ok (), b') ∧ Passes I b' b := by
  have hcall : a.tree.call? x = some w := (hx.call?_eq .refl).trans hw
  have hkeys (n : Nat) : a.tree.elements (w.operand n) = u.elements (w.operand n) := by
    cases hn : w.operand n with
    | none => rfl
    | some j => exact hx.elements_eq (.single (.of_operands hw (w.mem_operands_of_operand hn)))
  rw [checkGroupedWindow_eq (by rw [windowAt_of_call? hcall, hcall]) hkind, hkeys, hkeys] at h
  refine forM_ok hv hcheck h (List.mem_append.mpr ?_)
  rcases hn with rfl | rfl
  · exact .inl hy
  · exact .inr hy

theorem checkGroupedCall_ok {c : Call} (hc : u.call? (some j) = some c) (hj : Holds u (some j) a)
    (hk : u.Enters (some j) (some k)) (h : checkGroupedCall g check j c s a = (.ok (), b)) :
    ∃ a' b', Passes I a a' ∧ check (some k) s a' = (.ok (), b') ∧ Passes I b' b := by
  have hchildren {x : Link} {c : Call} {a b : Analysis} (hc : a.tree.call? x = some c)
    (hmem : some k ∈ c.operands)
      (h : (a.tree.children x).forM (fun n => check (some n)) s a = (.ok (), b)) :
      ∃ a' b', Passes I a a' ∧ check (some k) s a' = (.ok (), b') ∧ Passes I b' b :=
    forM_ok hv (fun n => hcheck (some n)) h (mem_children (Tree.form?_of_call? hc) hmem)
  rw [checkGroupedCall, run_bind_get] at h
  generalize hy : some k = y at hk
  cases hk with
  | item hf =>
    rw [Tree.call?, hf] at hc
    cases hc
  | operand hc' hagg hopen hmem =>
    cases hc.symm.trans hc'
    have hcall := (hj.call?_eq .refl).trans hc
    subst hy
    rw [hagg, Bool.or_false] at h
    generalize c.kind = kind at h hopen
    cases kind <;> first | exact hchildren hcall hmem h | cases hopen
  | first hc' hagg hkind =>
    cases hc.symm.trans hc'
    rw [hagg, Bool.or_false] at h
    rcases hkind with hkind | hkind | hkind <;> rw [hkind] at h <;>
      exact ⟨a, b, .refl a, hy ▸ h, .refl b⟩
  | windowed hc' hagg hkind hinner hmem =>
    cases hc.symm.trans hc'
    subst hy
    rw [hagg, Bool.or_false, hkind] at h
    have hinner := (hj.call?_eq (below_operand hc hinner)).trans hinner
    simp only [hinner, Option.isSome_some, if_true] at h
    obtain ⟨_, a₁, hloop, h⟩ := run_bind_ok h
    obtain ⟨a', b', ha', hrun, hb'⟩ := hchildren hinner hmem hloop
    exact ⟨a', b', ha', hrun, hb'.trans (Consults.passes hv (consults_checkGroupedWindow hcheck) h)⟩
  | key hc' hagg hkind hw hwkind hn hmem =>
    cases hc.symm.trans hc'
    subst hy
    rw [hagg, Bool.or_false, hkind] at h
    obtain ⟨a₁, hpass, h⟩ : ∃ a₁, Passes I a a₁ ∧
      checkGroupedWindow g check (c.operand 1) s a₁ = (.ok (), b) := by
      dsimp only at h
      rw [if_neg (by decide)] at h
      split at h
      · obtain ⟨_, a₁, hloop, h⟩ := run_bind_ok h
        exact ⟨a₁,
          Consults.passes hv (fun J _ hv => Keeps.forM fun n _ => hcheck (some n) J hv) hloop, h⟩
      · exact ⟨a, .refl a, h⟩
    obtain ⟨a', b', ha', hrun, hb'⟩ :=
      checkGroupedWindow_ok hv hcheck hw hwkind
        ((hj.under (below_operand hc hw)).proceeds hpass.2) hn hmem h
    exact ⟨a', b', hpass.trans ha', hrun, hb'⟩

end

theorem checkGroupedUpTo_ok (hx : Holds u x a) (hi : Relation.ReflTransGen u.Enters x (some i))
    (hname : u.form? (some i) = some (.identifier name))
    (h : checkGroupedUpTo (engine steps) g depth x s a = (.ok (), b)) :
    Meets s g steps I u x i name a b := by
  induction depth generalizing x a b with
  | zero => cases h
  | succ depth ih =>
    obtain ⟨j, rfl⟩ := Tree.exists_of_reflTransGen_enters hi
    rw [checkGroupedUpTo] at h
    obtain ⟨grouped, a₁, hgrouped, h⟩ := run_bind_ok h
    cases grouped with
    | true =>
      cases h
      exact ⟨a, b, .refl a, .refl b, .inl ⟨some j, .refl, hi, hgrouped⟩⟩
    | false =>
      have hpass : Passes I a a₁ := Consults.passes hv (fun _ _ hv => isGroupExpr_keeps hv) hgrouped
      have hx := hx.proceeds hpass.2
      rw [if_neg Bool.false_ne_true, run_bind_get, hx.form?_eq .refl] at h
      rcases Relation.ReflTransGen.cases_head hi with heq | ⟨y, hy, hyi⟩
      · cases heq
        rw [hname] at h
        exact ⟨a₁, b, hpass, .refl b, .inr h⟩
      · obtain ⟨k, rfl⟩ := Tree.exists_of_reflTransGen_enters hyi
        obtain ⟨a', b', ha', hrun, hb'⟩ : ∃ a' b', Passes I a₁ a' ∧
            checkGroupedUpTo (engine steps) g depth (some k) s a' = (.ok (), b') ∧
            Passes I b' b := by
          rcases hy.list_or_call with ⟨items, hf, hmem⟩ | ⟨c, hc⟩
          · rw [hf] at h
            exact forM_ok hv (consults_checkGroupedUpTo depth) h hmem
          · rw [Tree.form?_of_call? hc] at h
            exact checkGroupedCall_ok hv (consults_checkGroupedUpTo depth) hc hx hy h
        have hk := (hx.under hy.below.to_reflTransGen).proceeds ha'.2
        exact (ih hk hyi hrun).enters hy (hpass.trans ha') hb'

end Passing

theorem run_resolveOutput (hk : ∀ sc, a.store.scope? scope = some sc → sc.kind ≠ .orderBy)
    (id : Link) (column : String) : resolveOutput scope id column s a = (.ok none, a) := by
  rw [resolveOutput, run_bind_get]
  cases hsc : a.store.scope? scope with
  | none => rfl
  | some sc =>
    have hk := hk sc hsc
    obtain ⟨kind, node, parent, host, children, groups⟩ := sc
    cases kind <;> first | exact absurd rfl hk | rfl

theorem checkGroupedName_ok (hk : ∀ sc, a.store.scope? g.scope = some sc → sc.kind ≠ .orderBy)
    (h : checkGroupedName (engine steps) g i name s a = (.ok (), b)) :
    (∃ o, a.overloads.get? i = some o) ∨ ∃ r, resolve (engine steps) g.scope (some i) name s a =
      (.ok r, b) ∧ isLocal g r.source = false := by
  rw [checkGroupedName, run_bind_get] at h
  split at h
  · rename_i hover
    exact .inl (Option.isSome_iff_exists.mp hover)
  refine .inr ?_
  dsimp only at h
  split at h
  case' isTrue =>
    have hnone : attempt (resolveOutput g.scope (some i) name.last) s a = (.ok (some none), a) := by
      rw [attempt, run_resolveOutput hk]
    obtain ⟨r, c, hattempt, h⟩ := run_bind_ok h
    cases hnone.symm.trans hattempt
    dsimp only at h
  all_goals
    obtain ⟨r, c, hattempt, h⟩ := run_bind_ok h
    obtain ⟨r, hrun, rfl⟩ | ⟨rfl, _⟩ := attempt_ok hattempt
    · dsimp only at h
      cases hlocal : isLocal g r.source with
      | true =>
        rw [hlocal] at h
        exact absurd h (refuse_ne_ok _)
      | false =>
        rw [hlocal] at h
        cases h
        exact ⟨r, hrun, hlocal⟩
    · exact absurd h (refuse_ne_ok _)

/-- The expression was found to be equal to one that the query groups by while the query was in
progress. -/
def EqualsGroup (s : Setting) (g : Grouping) (id : NamespaceId) (y : Link)
    (fin : Analysis) : Prop :=
  ∃ group ∈ g.groups, ∃ steps c d, InProgress id c ∧ Later c fin ∧
    c.tree.equalWith (sameColumn (engine steps) g) group y s c = (.ok true, d)

/-- What a query block that groups consists of: the scope of its list leads to the scope with its
own relations, and these are valid. -/
structure GroupedBlock (id : NamespaceId) (σ σs : ScopeId) (agg own : Scope) (a : Analysis) :
    Prop where
  progress : InProgress id a
  outward : a.store.Outward
  list : a.store.scope? σ = some agg
  kind : agg.kind = .aggregating
  parent : agg.parent = some σs
  source : a.store.scope? σs = some own
  select : own.kind = .select
  valid : ∀ v ∈ Store.owned σs own, ∃ R, a.store.status? v.child.source = some (.valid R)

namespace GroupedBlock

variable {id : NamespaceId}

section

variable (h : GroupedBlock id σ σs agg own a)
include h

theorem proceeds (hab : Proceeds a b) : GroupedBlock id σ σs agg own b where
  progress := hab.inProgress h.progress
  outward := by
    have hscope (id : ScopeId) : b.store.scope? id = a.store.scope? id := by
      rw [Store.scope?, hab.1.scopes]; rfl
    intro id sc p hid
    exact h.outward id sc p (hscope id ▸ hid)
  list := by rw [Store.scope?, hab.1.scopes]; exact h.list
  kind := h.kind
  parent := h.parent
  source := by rw [Store.scope?, hab.1.scopes]; exact h.source
  select := h.select
  valid v hv := (h.valid v hv).imp fun R hR => hab.later.valid _ R hR

theorem chain : a.store.chain σ = (σ, agg) :: (σs, own) :: own.parent.elim [] a.store.chain := by
  rw [Store.chain_eq h.outward h.list, h.parent, Option.elim_some,
    Store.chain_eq h.outward h.source]

theorem nearest : Nearest a σ σs own where
  levels := by
    refine ⟨[(σ, agg)], _, h.chain, fun l hl => ?_⟩
    rw [List.mem_singleton.mp hl, h.kind]
    rfl
  holds := by rw [h.select]; rfl

theorem checkGrouped_eq (x : Link) :
    checkGrouped (engine steps) σ x s a =
      checkGroupedUpTo (engine steps) ⟨σ, some σs, agg.groups⟩
        ((a.tree.size + 1) * (a.tree.size + 1)) x s a := by
  have haggregating : a.store.aggregating σ = some σ := by
    rw [Store.aggregating, h.chain, Store.aggregatingIn, h.kind]
  have hselect : a.store.selectScope σ = some σs := by
    simp [Store.selectScope, h.chain, h.kind, h.select]
  rw [checkGrouped, run_bind_get, haggregating]
  simp only [hselect, h.list, Option.elim_some]

end

end GroupedBlock

theorem GroupedBlock.grouped {id : NamespaceId} {agg own : Scope} {v : Visible}
    {names : List String} (hblock : GroupedBlock id σ σs agg own a)
    (hx : Holds fin.tree x a) (ha : FunctionsApart s a) (hfin : FunctionsApart s fin)
    (hcheck : checkGrouped (engine steps) σ x s a = (.ok (), b))
    (hlater : Later b fin) (hi : Relation.ReflTransGen fin.tree.Enters x (some i))
    (hname : fin.tree.form? (some i) = some (.identifier name))
    (hqual : fin.qualified.get? i = some names)
    (hres : resolve (engine k) σ (some i) name s fin = (.ok r, d)) (hv : r.source = some v)
    (hσ : v.scope = σs) :
    ∃ y, Relation.ReflTransGen fin.tree.Enters x y ∧
      Relation.ReflTransGen fin.tree.Enters y (some i) ∧
      EqualsGroup s ⟨σ, some σs, agg.groups⟩ id y fin := by
  have hkeeps := (engine_functionsApart s steps).relation
  rw [hblock.checkGrouped_eq] at hcheck
  obtain ⟨c, c', hc, hc', ⟨y, hxy, hyi, hgroup⟩ | hcheckName⟩ :=
    checkGroupedUpTo_ok hkeeps hx hi hname hcheck
  · obtain ⟨group, hmem, e, e', he, hequal, he'⟩ := isGroupExpr_ok hkeeps hgroup
    refine ⟨y, hxy, hyi, group, hmem, steps, e, e', ?_, ?_, hequal⟩
    · exact (hc.trans he).2.inProgress hblock.progress
    · exact (he'.trans hc').2.later.trans hlater
  · have hblock := hblock.proceeds hc.2
    have hlater' : Later c' fin := hc'.2.later.trans hlater
    have hkind (sc : Scope) (hsc : c.store.scope? σ = some sc) : sc.kind ≠ .orderBy := by
      cases hblock.list.symm.trans hsc
      rw [hblock.kind]
      nofun
    rcases checkGroupedName_ok hkind hcheckName with ⟨o, ho⟩ | ⟨r', hres', hlocal⟩
    · -- a function has no qualified form
      have hform : c.tree.form? (some i) = some (.identifier name) :=
        ((hx.proceeds hc.2).form?_eq (Tree.reflTransGen_part hi)).trans hname
      rw [(hc.1 ha).not_overload hfin hform hname hqual] at ho
      cases ho
    · obtain ⟨w, hw, hwσ⟩ :=
        Meaning.near_of_later hlater' (resolve_proceeds hres).later (resolve_proceeds hres').later
        hblock.nearest hblock.valid hkind (resolve_ok hres') (resolve_ok hres) hv hσ
      rw [hw] at hlocal
      exact absurd hwσ (of_decide_eq_false hlocal)

end Analysis
end SqlAnalysis

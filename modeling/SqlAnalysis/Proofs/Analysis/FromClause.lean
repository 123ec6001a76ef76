import SqlAnalysis.Proofs.Analysis.Sources
import SqlAnalysis.Proofs.Analysis.Success
import SqlAnalysis.Proofs.SqlType.JoinRow
import SqlAnalysis.Proofs.Tree.Extension

/-!
What is known about a `FROM` clause once its query is valid: every relation and every join in it is
valid, and a join has the row type that is put together from those of its sides.
-/

namespace SqlAnalysis

namespace Tree

variable {t : Tree} {kind : NamespaceKind}

theorem exists_of_call? (h : t.call? x = some c) : ∃ i, x = some i := by
  cases x with
  | none => cases h
  | some i => exact ⟨i, rfl⟩

theorem not_stands_under (hc : t.call? (some i) = some c)
    (hk : c.kind = .naming ∨ c.kind = .lateral) : ¬ t.Stands i kind := by
  have hkind := kind_of_call? hc
  intro h
  cases kind with
  | table =>
    obtain ⟨name, hname⟩ := h
    rw [identifier?, form?_of_call? hc] at hname
    cases hname
  | _ => rcases hk with hk | hk <;> rw [Stands, hkind, hk] at h <;> cases h

theorem Presents.not_stands_change (h : t.Presents x i) : ¬ t.Stands i .change := by
  induction h with
  | table hname =>
    intro h
    rw [Stands, kind_eq_other (form?_of_identifier? hname) fun c hc => by cases hc] at h
    cases h
  | query hc hrows =>
    intro h
    rw [Stands, kind_of_call? hc] at h
    exact Kind.not_isUpdate_of_givesRows hrows h
  | under _ _ _ ih => exact ih

theorem Stands.eq_join (h : t.Stands i kind) (hc : t.call? (some i) = some c)
    (hk : c.kind = .join) : kind = .join := by
  have hkind := (kind_of_call? hc).trans hk
  cases kind with
  | join => rfl
  | table =>
    obtain ⟨name, hname⟩ := h
    rw [identifier?, form?_of_call? hc] at hname
    cases hname
  | _ => rw [Stands, hkind] at h; cases h

theorem Extends.stands (hu : t.Extends u) (h : t.Stands i kind) : u.Stands i kind := by
  have hkind {k : Kind} (hk : k ≠ .other) (h : t.kind (some i) = k) : u.kind (some i) = k := by
    obtain ⟨f, hf⟩ := exists_form?_of_kind (by rw [h]; exact hk)
    rw [hu.kind_eq (.of_form? hf), h]
  cases kind with
  | table =>
    obtain ⟨name, hname⟩ := h
    exact ⟨name, by rw [hu.identifier?_eq (.of_form? (form?_of_identifier? hname)), hname]⟩
  | setOp | change =>
    rw [Stands] at h ⊢
    rwa [hkind (fun hk => by rw [hk] at h; cases h) rfl]
  | _ => exact hkind (by decide) h

theorem Extends.presents (hu : t.Extends u) (h : t.Presents x i) : u.Presents x i := by
  induction h with
  | table hi => exact .table (by rw [hu.identifier?_eq (.of_form? (form?_of_identifier? hi)), hi])
  | query hc hk => exact .query (by rw [hu.call?_eq (.of_form? (form?_of_call? hc)), hc]) hk
  | under hc hk _ ih => exact .under (by rw [hu.call?_eq (.of_form? (form?_of_call? hc)), hc]) hk ih

theorem Extends.joinType_eq (hu : t.Extends u) (ho : t.Ordered)
    (hc : t.call? x = some c) : u.joinType (.ofCall c) = t.joinType (.ofCall c) := by
  have htype : t.Has (c.operand 2) :=
    Call.operand_of_operands (fun y hy => .part ho (form?_of_call? hc) hy) .absent 2
  simp only [joinType, symbol, JoinParts.ofCall, literal?, hu.form?_eq htype]

theorem Extends.joins (hu : t.Extends u) (ho : t.Ordered) (h : t.Joins x src) : u.Joins x src := by
  induction h with
  | relation h => exact .relation (hu.presents h)
  | @join k c l r hc hk _ _ ihl ihr =>
    have hc' : u.call? (some k) = some c := by rw [hu.call?_eq (.of_form? (form?_of_call? hc)), hc]
    exact hu.joinType_eq ho hc ▸ .join hc' hk ihl ihr

end Tree

def JoinTree.head : JoinTree → NodeId
  | .relation i => i
  | .join j _ _ _ => j

def JoinTree.nodes : JoinTree → List NodeId
  | .relation i => [i]
  | .join j _ l r => j :: (l.nodes ++ r.nodes)

namespace JoinTree

theorem head_mem_nodes (src : JoinTree) : src.head ∈ src.nodes := by
  cases src <;> exact List.mem_cons_self

theorem mem_nodes_of_leaf (src : JoinTree) (hp : p ∈ src.leaves) : p.1 ∈ src.nodes := by
  induction src generalizing p with
  | relation i =>
    rw [List.mem_singleton.mp hp]
    exact List.mem_cons_self
  | join j type l r ihl ihr =>
    refine List.mem_cons_of_mem _ (List.mem_append.mpr ?_)
    rcases List.mem_append.mp hp with hp | hp <;> obtain ⟨p', hp', rfl⟩ := List.mem_map.mp hp
    · exact .inl (ihl (p := p') hp')
    · exact .inr (ihr (p := p') hp')

variable {t : Tree}

theorem draws (hx : t.Draws q x) (h : t.Joins x src) : ∀ k ∈ src.nodes, t.Draws q (some k) := by
  induction h with
  | relation h =>
    intro k hk
    rw [List.mem_singleton.mp hk]
    exact hx.item h.item
  | join hc hk _ _ ihl ihr =>
    intro i hi
    rcases List.mem_cons.mp hi with rfl | hi
    · exact hx
    · rcases List.mem_append.mp hi with hi | hi
      · exact ihl (hx.item (.left hc hk (.refl _))) i hi
      · exact ihr (hx.item (.right hc hk (.refl _))) i hi

end JoinTree

namespace Analysis

variable {t : Tree} {root : Link}

/-- The relation of the node `k`, with its row type. -/
def HasRow (a : Analysis) (k : NodeId) (row : SqlType) : Prop :=
  ∃ ns n, a.namespaceOf.get? k = some ns ∧ a.store.namespace? ns = some n ∧
    n.node = k ∧ n.status = .valid row

namespace HasRow

theorem unique (h : HasRow a k row) (h' : HasRow a k row') : row = row' := by
  obtain ⟨ns, n, hns, hn, _, hst⟩ := h
  obtain ⟨ns', n', hns', hn', _, hst'⟩ := h'
  cases hns.symm.trans hns'
  cases hn.symm.trans hn'
  cases hst.symm.trans hst'
  rfl

theorem of_status? (hns : a.namespaceOf.get? k = some ns) (hn : a.store.namespace? ns = some n)
    (hk : n.node = k) (h : a.store.status? ns = some (.valid row)) : HasRow a k row := by
  rw [Store.status?, hn, Option.map_some] at h
  exact ⟨ns, n, hns, hn, hk, Option.some.inj h⟩

theorem later (h : HasRow a k row) (hab : Later a b) : HasRow b k row := by
  obtain ⟨ns, n, hns, hn, hk, hst⟩ := h
  obtain ⟨m, hm, hdecl⟩ := hab.toSameDeclared.exists_namespace? hn
  refine .of_status? (hab.namespaceOf ▸ hns) hm ((Namespace.node_of_declared hdecl).trans hk)
    (hab.valid ns row ?_)
  rw [Store.status?, hn, Option.map_some, hst]

end HasRow

section Valid

variable (hp : Placed t root a₀) (hs : SameDeclared a₀ a)
include hp hs

theorem Placed.leads_later (h : a.namespaceOf.get? k = some ns) :
    ∃ n, a.store.namespace? ns = some n ∧ (n.node = k ∨ a.tree.Presents (some k) n.node) ∧
      a.tree.Stands n.node n.kind := by
  have hext : t.Extends a.tree := hp.tree ▸ hs.tree
  obtain ⟨n, hn, hk⟩ := hp.leads k ns (hs.namespaceOf ▸ h)
  obtain ⟨m, hm, hdecl⟩ := hs.exists_namespace? hn
  rw [← Namespace.node_of_declared hdecl] at hk
  refine ⟨m, hm, hk.imp_right hext.presents, ?_⟩
  rw [Namespace.node_of_declared hdecl, Namespace.kind_of_declared hdecl]
  exact hext.stands (hp.kinds ns n hn)

theorem Placed.call_of_select (hn : a.store.namespace? ns = some n) (hk : n.kind = .select) :
    ∃ c, t.call? (some n.node) = some c ∧ c.kind = .select := by
  obtain ⟨n₀, hn₀, hdecl⟩ := hs.namespace? hn
  have hstands := hp.kinds ns n₀ hn₀
  rw [Namespace.node_of_declared hdecl, Namespace.kind_of_declared hdecl,
    hk, Tree.Stands, Tree.kind] at hstands
  cases hc : t.call? (some n.node) with
  | none => rw [hc] at hstands; cases hstands
  | some c => rw [hc] at hstands; exact ⟨c, rfl, hstands⟩

theorem Placed.node_of_joins (hx : a.tree.Joins x src) (h : a.namespaceAt x = some ns) :
    ∃ n, a.store.namespace? ns = some n ∧ n.node = src.head := by
  obtain ⟨k, rfl, h⟩ := Option.bind_eq_some_iff.mp h
  obtain ⟨n, hn, hk, hstands⟩ := hp.leads_later hs h
  refine ⟨n, hn, ?_⟩
  cases hx with
  | relation hi =>
    rcases hk with hk | hk
    · cases hi with
      | table | query => exact hk
      | under hc hkind _ => exact absurd (hk ▸ hstands) (Tree.not_stands_under hc hkind)
    · exact hk.unique hi
  | join hc hkind => exact hk.resolve_right (Tree.not_presents_join hc hkind)

theorem Placed.node_of_fromNamespace (hx : a.tree.Joins x src)
    (h : fromNamespaceUpTo a depth x = some ns) :
    ∃ n, a.store.namespace? ns = some n ∧ n.node = src.head := by
  induction depth generalizing x with
  | zero => cases h
  | succ depth ih =>
    rw [fromNamespaceUpTo] at h
    split at h
    · rename_i ns' hns
      cases h
      exact hp.node_of_joins hs hx hns
    · split at h
      · rename_i hcall
        obtain ⟨c, hc, hk⟩ : ∃ c, a.tree.call? x = some c ∧
          (c.kind = .naming ∨ c.kind = .lateral) := by
          simp only [Tree.isCall] at hcall
          cases hc : a.tree.call? x with
          | none => rw [hc] at hcall; cases hcall
          | some c => exact ⟨c, rfl, by simpa [hc] using hcall⟩
        obtain ⟨j, rfl⟩ := Tree.exists_of_call? hc
        obtain ⟨i, rfl, hi⟩ := Tree.Joins.of_under hc hk hx
        rw [Tree.operand, hc] at h
        exact ih (.relation hi) h
      · cases h

theorem Placed.hasRow (hq : t.Spans root q) (hd : t.Draws q (some k))
    (hn : a.store.namespace? ns = some n) (hk : n.node = k)
    (hst : a.store.status? ns = some (.valid row)) : HasRow a k row := by
  obtain ⟨m, hm, hdecl⟩ := hs.namespace? hn
  have hmk := (Namespace.node_of_declared hdecl).trans hk
  obtain ⟨ns', m', hns', hm', hnode⟩ := hp.listed ns m hm
  have heq := hp.single q ns ns' m m' hq (hmk ▸ hd) hm hm' hnode
  subst heq
  exact .of_status? (hs.namespaceOf ▸ hmk ▸ hns') hn hk hst

theorem Placed.hasRow_of_item (hrefusal : ∀ b, refusal s a ≠ (.ok (), b))
    (hx : a.tree.Joins (some i) src) (hi : src.head = i) (h : (match a.namespaceAt (some i) with
      | some ns => (engine steps).validate ns .unknown
      | none => refusal) s a = (.ok (), b)) : ∃ row, HasRow b i row := by
  cases hns : a.namespaceAt (some i) with
  | none =>
    rw [hns] at h
    exact absurd h (hrefusal b)
  | some ns =>
    rw [hns] at h
    obtain ⟨n, hn, hk⟩ := hp.node_of_joins hs hx hns
    obtain ⟨row, hrow⟩ := validate_ok hn h
    have hlater := validate_later h
    obtain ⟨m, hm, hdecl⟩ := hlater.toSameDeclared.exists_namespace? hn
    have hmi : m.node = i := (Namespace.node_of_declared hdecl).trans (hk.trans hi)
    exact ⟨row, .of_status? (hlater.namespaceOf ▸ hns) hm hmi hrow⟩

omit hs in
theorem Placed.hasRow_of_validateJoin (ho : t.Ordered)
    (hs : SameDeclared a₀ a) (hx : t.Joins (some q) src) (hi : src.head = q)
    (h : validateJoin (engine steps) q k s a = (.ok (), b)) : ∃ row, HasRow b q row := by
  have hgives : Gives s (SameDeclared a₀) (fun _ => True) (validateJoin (engine steps) q k)
      fun _ b => ∃ row, HasRow b q row := by
    refine validateJoin_gives (engine_sameDeclared s a₀ steps) (fun _ _ => trivial)
      (fun _ _ => trivial) fun a' ha' =>
      .of_ok ?_ fun a b _ ha h _ => ?_
    · split
      · exact (engine_sameDeclared s a₀ steps).relation _
      · exact .refuse
    · have hat : a'.namespaceAt (some q) = a.namespaceAt (some q) := by
        rw [namespaceAt, namespaceAt, ha'.namespaceOf, ha.namespaceOf]
      rw [hat] at h
      exact hp.hasRow_of_item ha refuse_ne_ok
        ((show t.Extends a.tree from hp.tree ▸ ha.tree).joins ho hx) hi h
  have hend := (hgives a hs).2
  rw [h] at hend
  exact hend

omit hp hs in
theorem validateFromUpTo_later (h : validateFromUpTo (engine steps) depth x s a = (.ok (), b)) :
    Later a b :=
  Keeps.later (validateFromUpTo_keeps (engine_sameDeclared s a steps) trivial (.inl trivial)) h

omit hp hs in
theorem validateJoin_later (h : validateJoin (engine steps) q k s a = (.ok (), b)) : Later a b :=
  Keeps.later
    (validateJoin_keeps (engine_sameDeclared s a steps) (fun _ _ => trivial) (fun _ _ => trivial)) h

omit hs in
theorem Placed.hasRow_of_validateFrom (ho : t.Ordered) (hs : SameDeclared a₀ a)
    (hx : t.Joins x src) (h : validateFromUpTo (engine steps) depth x s a = (.ok (), b)) :
    ∀ k ∈ src.nodes, ∃ row, HasRow b k row := by
  induction depth generalizing x src a b with
  | zero => cases h
  | succ depth ih =>
    have hext : t.Extends a.tree := hp.tree ▸ hs.tree
    have hcall {i : NodeId} {c : Call} (hc : t.call? (some i) = some c) : a.tree.call? (some i) =
        some c := by
      rw [hext.call?_eq (.of_form? (Tree.form?_of_call? hc)), hc]
    have hjoins := hext.joins ho hx
    rw [validateFromUpTo, run_bind_get] at h
    cases hx with
    | @relation _ i hi =>
      intro k hk
      rw [List.mem_singleton.mp hk]
      cases hi with
      | table hname =>
        have hform := hext.form? (Tree.form?_of_identifier? hname)
        simp only [Tree.call?, hform] at h
        exact hp.hasRow_of_item hs refuse_ne_ok hjoins rfl h
      | @query _ c hc hrows =>
        simp only [hcall hc] at h
        generalize c.kind = k at hrows h
        cases k with
        | select | union | except | intersect | values | unnest =>
          exact hp.hasRow_of_item hs refuse_ne_ok hjoins rfl h
        | _ => cases hrows
      | under hc hkind hi =>
        simp only [hcall hc] at h
        rcases hkind with hkind | hkind <;> rw [hkind] at h <;>
          exact ih hs (.relation hi) h i List.mem_cons_self
    | join hc hkind hl hr =>
      simp only [hcall hc, hkind] at h
      obtain ⟨_, b₁, hleft, h⟩ := run_bind_ok h
      obtain ⟨_, b₂, hright, h⟩ := run_bind_ok h
      have hlater := validateFromUpTo_later hright
      have hs₁ : SameDeclared a₀ b₁ := hs.trans (validateFromUpTo_later hleft).toSameDeclared
      have hs₂ : SameDeclared a₀ b₂ := hs₁.trans hlater.toSameDeclared
      have hlast := validateJoin_later h
      intro i hi
      rcases List.mem_cons.mp hi with rfl | hi
      · exact hp.hasRow_of_validateJoin ho hs₂ (.join hc hkind hl hr) rfl h
      · rcases List.mem_append.mp hi with hi | hi
        · obtain ⟨row, hrow⟩ := ih hs hl hleft i hi
          exact ⟨row, hrow.later (hlater.trans hlast)⟩
        · obtain ⟨row, hrow⟩ := ih hs₁ hr hright i hi
          exact ⟨row, hrow.later hlast⟩

omit hs in
theorem Placed.hasRow_of_relation (ho : t.Ordered) (hs : SameDeclared a₀ a)
    (hitem : t.Item x (some k)) (hrel : t.Presents (some k) k)
    (h : validateFromUpTo (engine steps) depth x s a = (.ok (), b)) : ∃ row, HasRow b k row := by
  induction depth generalizing x a b with
  | zero => cases h
  | succ depth ih =>
    have hcall {x : Link} {c : Call} (hc : t.call? x = some c) : a.tree.call? x = some c := by
      rw [(show t.Extends a.tree from hp.tree ▸ hs.tree).call?_eq
        (.of_form? (Tree.form?_of_call? hc)), hc]
    cases hitem with
    | refl => exact hp.hasRow_of_validateFrom ho hs (.relation hrel) h k List.mem_cons_self
    | under hc hkind hitem =>
      obtain ⟨j, rfl⟩ := Tree.exists_of_call? hc
      rw [validateFromUpTo, run_bind_get] at h
      simp only [hcall hc] at h
      rcases hkind with hkind | hkind <;> rw [hkind] at h <;> exact ih hs hitem h
    | left hc hkind hitem =>
      obtain ⟨j, rfl⟩ := Tree.exists_of_call? hc
      rw [validateFromUpTo, run_bind_get] at h
      simp only [hcall hc, hkind] at h
      obtain ⟨_, b₁, hleft, h⟩ := run_bind_ok h
      obtain ⟨_, b₂, hright, h⟩ := run_bind_ok h
      obtain ⟨row, hrow⟩ := ih hs hitem hleft
      exact ⟨row, hrow.later ((validateFromUpTo_later hright).trans (validateJoin_later h))⟩
    | right hc hkind hitem =>
      obtain ⟨j, rfl⟩ := Tree.exists_of_call? hc
      rw [validateFromUpTo, run_bind_get] at h
      simp only [hcall hc, hkind] at h
      obtain ⟨_, b₁, hleft, h⟩ := run_bind_ok h
      obtain ⟨_, b₂, hright, h⟩ := run_bind_ok h
      obtain ⟨row, hrow⟩ := ih (hs.trans (validateFromUpTo_later hleft).toSameDeclared) hitem hright
      exact ⟨row, hrow.later (validateJoin_later h)⟩

theorem Placed.sideFields_ok (hq : t.Spans root q) (hd : t.Draws q (some src.head))
    (hx : a.tree.Joins x src) (h : sideFields (engine steps) x nullable s a = (.ok fields, b)) :
    Later a b ∧ ∃ row side, HasRow b src.head row ∧ b.types.Side nullable row side ∧
      side.fields = fields := by
  obtain ⟨ns, a₁, hns, h⟩ := run_bind_ok h
  cases hns
  cases hns : fromNamespaceUpTo a (x.getD 0 + 1) x with
  | none =>
    rw [hns] at h
    exact absurd h (refuse_ne_ok _)
  | some ns =>
    rw [hns] at h
    obtain ⟨n, hn, hnode⟩ := hp.node_of_fromNamespace hs hx hns
    obtain ⟨row, c, hrow, h⟩ := run_bind_ok h
    obtain ⟨hlater, hvalid⟩ := rowOf_ok hn hrow
    obtain ⟨m, hm, hdecl⟩ := hlater.toSameDeclared.exists_namespace? hn
    have hhas : HasRow c src.head row :=
      hp.hasRow (hs.trans hlater.toSameDeclared) hq hd hm
        ((Namespace.node_of_declared hdecl).trans hnode) hvalid
    cases nullable with
    | false =>
      cases h
      exact ⟨hlater, row, row, hhas, rfl, rfl⟩
    | true =>
      obtain ⟨side, c', hside, h⟩ := run_bind_ok h
      cases h
      have hsteady := TypeTable.withNullable_steady true row
      have hnotes : Later c b := by
        cases hside
        exact .of_notes (Silent.build (hsteady c.types).1).toNotes
      refine ⟨hlater.trans hnotes, row, side, hhas.later hnotes, ?_, rfl⟩
      cases hside
      exact TypeM.Built.of_run hsteady rfl (.refl _)

end Valid

section Typed

variable (hp : Placed t root a₀) (hf : Founded s a₀ a)
include hp hf

theorem HasRow.found (h : HasRow a k row) :
    ∃ ns n steps target b c, n.node = k ∧ t.Stands k n.kind ∧ SameDeclared a₀ b ∧
      rowType (engine steps) ns n target s b = (.ok row, c) ∧ Later c a := by
  obtain ⟨ns, n, hns, hn, hk, hst⟩ := h
  obtain ⟨n', steps, target, b, c, hn', hb, _, hrun, hc, _⟩ :=
    hf.runs ns row (by rw [Store.status?, hn, Option.map_some, hst])
  obtain ⟨n₀, hn₀, rfl⟩ := Option.map_eq_some_iff.mp hn'
  have hnode : n₀.node = k := by
    obtain ⟨m, hm, hdecl⟩ := hf.same.namespace? hn
    cases hm.symm.trans hn₀
    exact (Namespace.node_of_declared hdecl).trans hk
  exact ⟨ns, _, steps, target, b, c, hnode, hnode ▸ hp.kinds ns n₀ hn₀, hb, hrun, hc⟩

theorem exists_typed (ho : t.Ordered) (hkeyed : a.types.Keyed) (hq : t.Spans root q)
    (hx : t.Joins x src) (hd : t.Draws q x) (hall : ∀ k ∈ src.nodes, ∃ row, HasRow a k row) :
    ∃ R, HasRow a src.head R ∧ src.Typed a.types (HasRow a) R := by
  induction hx with
  | @relation x i hi =>
    obtain ⟨R, hR⟩ := hall i List.mem_cons_self
    refine ⟨R, hR, .relation hR (.of_get? hkeyed fun hrow => ?_)⟩
    obtain ⟨ns, n, steps, target, b, c, _, hstands, _, hrun, hlater⟩ := hR.found hp hf
    obtain ⟨k, hk⟩ := rowType_ok (fun hchange => hi.not_stands_change (hchange ▸ hstands)) hrun hrow
    exact ⟨k, hlater.types.kept k R hk⟩
  | @join j c l r hc hk hl hr ihl ihr =>
    have hnodes := JoinTree.draws hd (.join hc hk hl hr)
    obtain ⟨L, hL, htl⟩ := ihl (hd.item (.left hc hk (.refl _))) fun k hk =>
      hall k (List.mem_cons_of_mem _ (List.mem_append_left _ hk))
    obtain ⟨M, hM, htr⟩ := ihr (hd.item (.right hc hk (.refl _))) fun k hk =>
      hall k (List.mem_cons_of_mem _ (List.mem_append_right _ hk))
    obtain ⟨R, hR⟩ := hall j List.mem_cons_self
    refine ⟨R, hR, ?_⟩
    obtain ⟨ns, n, steps, target, b, d, hnode, hstands, hb, hrun, hlater⟩ := hR.found hp hf
    have hext : t.Extends b.tree := hp.tree ▸ hb.tree
    have hcall : b.tree.call? (some j) = some c := by
      rw [hext.call?_eq (.of_form? (Tree.form?_of_call? hc)), hc]
    simp only [rowType, hstands.eq_join hc hk, hnode, joinRow, run_bind_get,
      Tree.join, hcall, Option.elim_some, hext.joinType_eq ho hc] at hrun
    obtain ⟨left, b₁, hleft, hrun⟩ := run_bind_ok hrun
    obtain ⟨right, b₂, hright, hrun⟩ := run_bind_ok hrun
    obtain ⟨hlater₁, L', left', hL', hside, rfl⟩ := hp.sideFields_ok hb hq
      (hnodes _ (List.mem_cons_of_mem _ (List.mem_append_left _ l.head_mem_nodes)))
      (hext.joins ho hl) hleft
    have hb₁ : SameDeclared a₀ b₁ := hb.trans hlater₁.toSameDeclared
    obtain ⟨hlater₂, M', right', hM', hside', rfl⟩ := hp.sideFields_ok hb₁ hq
      (hnodes _ (List.mem_cons_of_mem _ (List.mem_append_right _ r.head_mem_nodes)))
      ((show t.Extends b₁.tree from hp.tree ▸ hb₁.tree).joins ho hr) hright
    have hbuild : Later b₂ d := by
      cases hrun
      exact .of_notes (Silent.build (TypeTable.row_steady _).1).toNotes
    cases hL.unique (hL'.later (hlater₂.trans (hbuild.trans hlater)))
    cases hM.unique (hM'.later (hbuild.trans hlater))
    refine .join hR htl htr (hside.later (hlater₂.trans (hbuild.trans hlater)).types)
      (hside'.later (hbuild.trans hlater).types) ?_
    cases hrun
    exact TypeM.Built.of_run TypeTable.row_steady rfl hlater.types

end Typed

/-- The relations that a scope shows have the columns that the leaves of its tree of joins show,
also while more rows are built over the same columns. -/
theorem childRows_ok (hp : Placed t root a₀) (hs : SameDeclared a₀ a)
    (hq : t.Spans root q) (hkeyed : a.types.Keyed)
    (hapart : a.types.TellsRowsApart) (hcs : List.Forall₂ (ShownAs a) cs leaves)
    (hrows : List.Forall₂ (JoinTree.LeafShows a.types (HasRow a)) leaves fss)
    (hd : ∀ p ∈ leaves, t.Draws q (some p.1)) (hU : a.types.Fits U) :
    ∃ rows V, cs.mapM (childRow (engine (steps + 1))) s { a with types := U } =
      (.ok rows, { a with types := V }) ∧ rows.map SqlType.fields = fss := by
  induction hcs generalizing fss U with
  | nil =>
    cases hrows
    exact ⟨[], U, rfl, rfl⟩
  | @cons c p cs ps hc _ ih =>
    cases hrows with
    | @cons _ fs _ fss hfs hrows =>
      obtain ⟨hnull, n, hn, hnode⟩ := hc
      obtain ⟨R, ⟨ns, n', hns, hn', hnode', hst⟩, hkeep, hshow⟩ := hfs
      obtain ⟨m, hm, hdecl⟩ := hs.namespace? hn
      obtain ⟨m', hm', hdecl'⟩ := hs.namespace? hn'
      have hmp := (Namespace.node_of_declared hdecl).trans hnode
      have heq := hp.single q c.source ns m m' hq (hmp ▸ hd p List.mem_cons_self) hm hm'
        ((Namespace.node_of_declared hdecl').trans (hnode'.trans hmp.symm))
      subst heq
      obtain ⟨u, V, hrun, hu, hV⟩ := hU.side hkeyed hapart hkeep hshow
      obtain ⟨rows, W, hrest, hall⟩ := ih hrows (fun p hp => hd p (List.mem_cons_of_mem _ hp)) hV
      have hvalid : ({ a with types := U } : Analysis).store.status? c.source =
          some (.valid R) := by
        rw [Store.status?, hn', Option.map_some, hst]
      have hchild : childRow (engine (steps + 1)) c s { a with types := U } =
          (.ok u, { a with types := V }) := by
        rw [childRow, run_bind, rowOf_valid hvalid]
        dsimp only
        rw [hnull]
        cases hp2 : p.2 with
        | false =>
          rw [hp2] at hrun
          cases hrun
          rfl
        | true =>
          rw [hp2] at hrun
          have hbuild : building (TypeTable.withNullable true R) s { a with types := U } =
              (.ok (TypeTable.withNullable true R U).1,
              { a with types := (TypeTable.withNullable true R U).2 }) := rfl
          rw [if_pos rfl, hbuild, show TypeTable.withNullable true R U = (u, V) from hrun]
      refine ⟨u :: rows, W, ?_, by rw [List.map_cons, hu, hall]⟩
      rw [List.mapM_cons, run_bind, hchild]
      dsimp only
      rw [run_bind, hrest]
      rfl

theorem placed_start (t : Tree) (root : Link) (types : TypeTable) (lookups : CatalogUse) :
    Placed t root (.start t types lookups) where
  tree := rfl
  inward id sc h hid hhost := by
    have hid := (Store.scope?_addScope {} { kind := .root } id).symm.trans hid
    split at hid
    · cases hid
      cases hhost
    · cases hid
  clauses := nofun
  blocks := nofun
  leads := nofun
  listed := nofun
  kinds := nofun
  reached := nofun
  alone _ _ _ _ _ := nofun
  single _ _ _ _ _ _ _ := nofun
  drawn _ _ _ _ _ := nofun

/-- The analysis of the statement from its registered state `a₀` to its end `a`. -/
structure Begun (s : Setting) (t : Tree) (root : Link) (types : TypeTable) (a₀ a : Analysis) :
    Prop where
  registered : Registered t a₀
  placed : Placed t root a₀
  founded : Founded s a₀ a
  /-- Nothing is written down yet. -/
  blank : a₀.record = record { tree := {}, types }
  shows : ∀ q σ, a₀.clauses.get? (q, .source) = some σ → Shows t q σ a₀
  asked : Asked s root a₀ (.ok (), a)

theorem Begun.types {types : TypeTable} (h : Begun s t root types a₀ a) :
    types.Extends a.types := by
  have hadv := (h.asked (engine_settles s _) (engine_settles s _).source trivial trivial).1.2
  have htypes : a₀.types = types := congrArg Analysis.types h.blank
  exact htypes ▸ hadv.types

variable {lookups : CatalogUse}

theorem analyse_begun (hu : t.Unshared root) (ho : t.Ordered) {types : TypeTable}
    (h : analyse root s (.start t types lookups) = (.ok (), a)) :
    ∃ a₀, Begun s t root types a₀ a := by
  have hstart := registered_start t types lookups
  obtain ⟨b, hb, _, ⟨_, _, herror⟩ | ⟨hreg, hasked⟩⟩ :=
    analyse_cases (H := fun _ => True) (.inl trivial) hstart root
  · rw [herror] at h
    cases h
  · obtain ⟨⟨hfounded, _⟩, _⟩ :=
      hasked (engine_founded s b _) (engine_founded s b _).source trivial (hb.attested trivial)
    have hquiet :=
      registerStatement_places hu ho (placed_start t root types lookups) hstart.root hreg
    rw [h] at hfounded hasked
    refine ⟨b, hb, hquiet.1.placed, hfounded, registerStatement_blank hreg,
      fun q σ hq => ?_, hasked⟩
    rcases hquiet.2 q σ hq with hq | ⟨_, hshows⟩
    · cases hq
    · exact hshows

theorem analyse_ok (hu : t.Unshared root) (ho : t.Ordered) {types : TypeTable}
    (h : analyse root s (.start t types lookups) = (.ok (), a)) :
    ∃ a₀, Registered t a₀ ∧ Placed t root a₀ ∧ Founded s a₀ a ∧ types.Extends a.types ∧
      ∀ q σ, a₀.clauses.get? (q, .source) = some σ → Shows t q σ a₀ := by
  obtain ⟨a₀, hbegun⟩ := analyse_begun hu ho h
  exact ⟨a₀, hbegun.registered, hbegun.placed, hbegun.founded, hbegun.types, hbegun.shows⟩

theorem Attested.exists_shown (hreg : Registered t a₀) (hf : Founded s a₀ a)
    (hshows : ∀ q σ, a₀.clauses.get? (q, .source) = some σ → Shows t q σ a₀)
    {id : NamespaceId} (hn : a.store.namespace? id = some n) (hk : n.kind = .select) :
    ∃ σ sc, a.clauses.get? (n.node, .source) = some σ ∧ a.store.scope? σ = some sc ∧ ∀ src,
      t.Joins (t.select n.node).source src → List.Forall₂ (ShownAs a) sc.children src.leaves := by
  obtain ⟨n₀, hn₀, hdecl⟩ := hf.same.namespace? hn
  have hnode := Namespace.node_of_declared hdecl
  obtain ⟨σ, hσ⟩ := Option.isSome_iff_exists.mp
    (hreg.blocks id n₀ hn₀ ((Namespace.kind_of_declared hdecl).trans hk) .source)
  rw [hnode] at hσ
  obtain ⟨sc, hsc, _, hchildren⟩ := hshows _ σ hσ
  refine ⟨σ, sc, hf.same.clauses ▸ hσ, by rwa [Store.scope?, hf.same.scopes], fun src hsrc => ?_⟩
  refine (hchildren src hsrc).imp fun c p h => ?_
  obtain ⟨hnull, m, hm, hmp⟩ := h
  obtain ⟨m', hm', hdecl'⟩ := hf.same.exists_namespace? hm
  exact ⟨hnull, m', hm', (Namespace.node_of_declared hdecl').trans hmp⟩

theorem Attested.hasRow (hp : Placed t root a₀) (ho : t.Ordered) (hf : Founded s a₀ a)
    {id : NamespaceId} (hn : a.store.namespace? id = some n) (hk : n.kind = .select)
    {row : SqlType} (hst : n.status = .valid row) (hsrc : t.Joins (t.select n.node).source src) :
    ∀ k ∈ src.nodes, ∃ row, HasRow a k row := by
  obtain ⟨steps, target, b, c, hb, hprogress, hrun, hc, _⟩ := hf.exists_validateSelect hn hk hst
  obtain ⟨a₁, a₂, a₃, a₄, a₅, a₆, hclauses⟩ := validateSelect_ok hrun
  have hext : t.Extends b.tree := hp.tree ▸ hb.tree
  have hquery : t.Has (some n.node) := by
    obtain ⟨c, hc, _⟩ := hp.call_of_select hf.same hn hk
    exact .of_form? (Tree.form?_of_call? hc)
  have hsource := hclauses.source
  rw [show b.tree.select (some n.node) =
    t.select (some n.node) by simp only [Tree.select, hext.call?_eq hquery]] at hsource
  have hlater : Later a₁ a := (hclauses.later_source hprogress).trans hc
  intro k hk
  rw [ifPresent, if_pos hsrc.isSome] at hsource
  obtain ⟨row, hrow⟩ := hp.hasRow_of_validateFrom ho hb hsrc hsource k hk
  exact ⟨row, hrow.later hlater⟩

end Analysis

end SqlAnalysis

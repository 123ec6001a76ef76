import SqlAnalysis.Proofs.Analysis.Registration

/-!
The chain of scopes outward from a scope. Scopes lead outward to older ones, so a chain goes on with
the chain of the parent. The operands of an aggregate are seen from a scope of the same query.
-/

namespace SqlAnalysis

variable {id : ScopeId}

namespace Store

variable {s s' : Store}

theorem chainUpTo_of_scopes (h : s'.scopes = s.scopes) :
    s'.chainUpTo depth id = s.chainUpTo depth id := by
  induction depth generalizing id with
  | zero => rfl
  | succ depth ih =>
    have hid : s'.scope? id = s.scope? id := by rw [scope?, scope?, h]
    rw [chainUpTo, chainUpTo, hid]
    cases s.scope? id with
    | none => rfl
    | some sc => cases hp : sc.parent <;> simp only [hp, ih]

theorem chain_of_scopes (h : s'.scopes = s.scopes) (id : ScopeId) : s'.chain id = s.chain id :=
  chainUpTo_of_scopes h

theorem visible_of_scopes (h : s'.scopes = s.scopes) (id : ScopeId) :
    s'.visible id = s.visible id := by
  rw [visible, visible, chain_of_scopes h]

def Outward (s : Store) : Prop := ∀ id sc p, s.scope? id = some sc → sc.parent = some p → p < id

/-- Any depth beyond the place of a scope gives the whole chain. -/
theorem chainUpTo_congr (h : s.Outward) (hd : id < d) (hd' : id < d') :
    s.chainUpTo d id = s.chainUpTo d' id := by
  induction d generalizing id d' with
  | zero => exact absurd hd (Nat.not_lt_zero _)
  | succ d ih =>
    cases d' with
    | zero => exact absurd hd' (Nat.not_lt_zero _)
    | succ d' =>
      rw [chainUpTo, chainUpTo]
      cases hid : s.scope? id with
      | none => rfl
      | some sc =>
        cases hp : sc.parent with
        | none => simp only [hp]
        | some p =>
          have hlt := h id sc p hid hp
          simp only [hp]
          rw [ih (Nat.lt_of_lt_of_le hlt (Nat.le_of_lt_succ hd))
            (Nat.lt_of_lt_of_le hlt (Nat.le_of_lt_succ hd'))]

theorem chain_eq (h : s.Outward) (hid : s.scope? id = some sc) :
    s.chain id = (id, sc) :: sc.parent.elim [] s.chain := by
  rw [chain, chainUpTo, hid]
  cases hp : sc.parent with
  | none => simp only [hp, Option.elim_none]
  | some p =>
    simp only [hp, Option.elim_some, chain, chainUpTo_congr h (h id sc p hid hp) p.lt_succ_self]

theorem mem_chainUpTo {depth : Nat} (h : (id', sc) ∈ s.chainUpTo depth id) :
    s.scope? id' = some sc := by
  induction depth generalizing id with
  | zero => cases h
  | succ depth ih =>
    rw [chainUpTo] at h
    split at h
    · cases h
    · rename_i sc' hid
      cases h with
      | head => exact hid
      | tail _ h =>
        split at h
        · exact ih h
        · cases h

theorem selectOf_eq_node (h : s.Outward) (hid : s.scope? id = some sc)
    (hk : sc.kind.ofQuery) : s.selectOf id = sc.node := by
  simp only [selectOf, chain_eq h hid, List.find?_cons, hk, Option.bind_some]

theorem exists_scope_of_selectOf (h : s.selectOf id = some x) :
    ∃ id' sc, s.scope? id' = some sc ∧ sc.kind.ofQuery ∧ sc.node = some x := by
  obtain ⟨⟨id', sc⟩, hfind, hnode⟩ := Option.bind_eq_some_iff.mp h
  have hk := List.find?_some hfind
  exact ⟨id', sc, mem_chainUpTo (List.mem_of_find?_eq_some hfind), hk, hnode⟩

end Store

namespace Analysis

section

variable (h : Registered t a)
include h

theorem Registered.outward : a.store.Outward :=
  fun id sc p hid hp => (h.scopes id sc hid).parent p hp

theorem Registered.kind_selectOf (hx : a.store.selectOf id = some x) :
    t.kind (some x) = .select := by
  obtain ⟨id', sc, hid, hk, hnode⟩ := Store.exists_scope_of_selectOf hx
  exact h.tree ▸ (h.scopes id' sc hid).node hk x hnode

theorem Registered.selectOf_ungroupedIn (hid : a.store.scope? id = some sc)
    (hk : sc.kind = .select ∨ sc.kind = .aggregating) (default : ScopeId) :
    a.store.selectOf (Store.ungroupedIn default (a.store.chain id)) = sc.node := by
  have hout := h.outward
  rcases hk with hk | hk
  · simp only [Store.chain_eq hout hid, Store.ungroupedIn, hk]
    exact Store.selectOf_eq_node hout hid (by rw [hk]; rfl)
  · obtain ⟨p, sp, hp, hsp, hn, hkind⟩ := (h.scopes id sc hid).outer (.inl hk)
    have hsel : sp.kind = .select := hkind.resolve_right fun hk' => by rw [hk] at hk'; cases hk'.1
    simp only [Store.chain_eq hout hid, hp, Option.elim_some, Store.chain_eq hout hsp,
      Store.ungroupedIn, hk]
    exact (Store.selectOf_eq_node hout hsp (by rw [hsel]; rfl)).trans hn

theorem Registered.selectOf_ungrouped (id : ScopeId) :
    a.store.selectOf (a.store.ungrouped id) = a.store.selectOf id := by
  have hout := h.outward
  cases hid : a.store.scope? id with
  | none => simp only [Store.ungrouped, Store.chain, Store.chainUpTo, hid, Store.ungroupedIn]
  | some sc =>
    cases hk : sc.kind with
    | root | join => simp only [Store.ungrouped, Store.chain_eq hout hid, Store.ungroupedIn, hk]
    | select =>
      rw [Store.ungrouped, h.selectOf_ungroupedIn hid (.inl hk),
        Store.selectOf_eq_node hout hid (by rw [hk]; rfl)]
    | aggregating =>
      rw [Store.ungrouped, h.selectOf_ungroupedIn hid (.inr hk),
        Store.selectOf_eq_node hout hid (by rw [hk]; rfl)]
    | orderBy =>
      obtain ⟨p, sp, hp, hsp, hn, hkind⟩ := (h.scopes id sc hid).outer (.inr hk)
      have hlist := h.selectOf_ungroupedIn hsp (hkind.imp_right And.right) id
      rw [Store.selectOf_eq_node hout hid (by rw [hk]; rfl), ← hn, ← hlist]
      simp only [Store.ungrouped, Store.chain_eq hout hid, hp, Option.elim_some,
        Store.chain_eq hout hsp, Store.ungroupedIn, hk]

end

end Analysis

end SqlAnalysis

import SqlAnalysis.Proofs.Analysis.Chain
import SqlAnalysis.Proofs.Analysis.Validation
import SqlAnalysis.Proofs.Tree.Extension

/-!
Analyses of a statement that is registered. What is registered stays as it is in `a₀`, and `Pending
a₀ u` counts the relations that are still to be validated: there are at most `u` of them, one less
while one of them is in progress.
-/

namespace SqlAnalysis

def Status.isUnvalidated : Status → Bool
  | .unvalidated => true
  | _ => false

namespace Store

variable {s s' : Store}

def statuses (s : Store) : List Status := s.namespaces.toList.map Namespace.status

def pending (s : Store) : Nat := s.statuses.countP Status.isUnvalidated

theorem getElem?_statuses {id : NamespaceId} : s.statuses[id]? = s.status? id := by
  rw [statuses, List.getElem?_map, Array.getElem?_toList, status?, namespace?]

theorem pending_congr (h : ∀ id, s'.status? id = s.status? id) : s'.pending = s.pending := by
  have hst : s'.statuses = s.statuses := List.ext_getElem? fun id => by
    rw [getElem?_statuses, getElem?_statuses, h]
  rw [pending, pending, hst]

end Store

namespace Analysis

variable {a : Analysis} {id : NamespaceId}

theorem statuses_withStatus : (a.withStatus id st).store.statuses = a.store.statuses.set id st := by
  refine List.ext_getElem? fun id' => ?_
  rw [Store.getElem?_statuses, status?_withStatus, List.getElem?_set', ← Store.getElem?_statuses]
  split <;> rfl

theorem pending_withStatus (h : a.store.status? id = some st) :
    (a.withStatus id st').store.pending + (if st.isUnvalidated then 1 else 0) =
      a.store.pending + (if st'.isUnvalidated then 1 else 0) := by
  rw [← Store.getElem?_statuses] at h
  obtain ⟨hlt, hst⟩ := List.getElem?_eq_some_iff.mp h
  rw [Store.pending, statuses_withStatus, List.countP_set hlt, Store.pending, hst]
  have hpos : st.isUnvalidated → 0 < a.store.statuses.countP Status.isUnvalidated := fun h =>
    List.countP_pos_iff.mpr ⟨st, hst ▸ List.getElem_mem hlt, h⟩
  cases hu : st.isUnvalidated with
  | false => simp
  | true => have := hpos hu; simp; omega

theorem pending_withStatus_le :
    (a.withStatus id st).store.pending ≤ a.store.pending + (if st.isUnvalidated then 1 else 0) := by
  cases h : a.store.status? id with
  | none =>
    have hsame : (a.withStatus id st).store.pending = a.store.pending :=
        Store.pending_congr fun id' => by
      rw [status?_withStatus]
      split
      · rename_i heq
        rw [← heq, h, Option.map_none]
      · rfl
    exact hsame ▸ Nat.le_add_right _ _
  | some st' => exact pending_withStatus h ▸ Nat.le_add_right _ _

/-- What is registered is as in `a₀`, and at most `u` relations are still to be validated. -/
structure Pending (a₀ : Analysis) (u : Nat) (a : Analysis) : Prop where
  same : SameDeclared a₀ a
  count : a.store.pending ≤ u

instance (a₀ : Analysis) (u : Nat) : Recording (Pending a₀ u) where
  notes h hn := ⟨h.same.trans hn.toSameDeclared, Store.pending_congr hn.status ▸ h.count⟩

namespace Pending

section

variable (h : Pending a₀ u a)
include h

theorem selectOf (scope : ScopeId) : a.store.selectOf scope = a₀.store.selectOf scope := by
  rw [Store.selectOf, Store.selectOf, Store.chain_of_scopes h.same.scopes]

theorem ungrouped (scope : ScopeId) : a.store.ungrouped scope = a₀.store.ungrouped scope := by
  rw [Store.ungrouped, Store.ungrouped, Store.chain_of_scopes h.same.scopes]

theorem start (hn : a.store.namespace? id = some n) (hst : n.status = .unvalidated) :
    ∃ v, u = v + 1 ∧ Pending a₀ v (a.withStatus id (.inProgress none)) := by
  have hid : a.store.status? id = some .unvalidated := by
    rw [Store.status?, hn, Option.map_some, hst]
  have hcount : (a.withStatus id (.inProgress none)).store.pending + 1 = a.store.pending + 0 :=
    pending_withStatus hid
  obtain ⟨v, rfl⟩ : ∃ v, u = v + 1 := ⟨u - 1, by have := h.count; omega⟩
  exact ⟨v, rfl, h.same.trans sameDeclared_withStatus, by have := h.count; omega⟩

theorem publish (id : NamespaceId) (row : Option SqlType) :
    Pending a₀ u (a.withStatus id (.inProgress row)) :=
  ⟨h.same.trans sameDeclared_withStatus, Nat.le_trans pending_withStatus_le h.count⟩

theorem finish (id : NamespaceId) (st : Status) : Pending a₀ (u + 1) (a.withStatus id st) := by
  refine ⟨h.same.trans sameDeclared_withStatus, Nat.le_trans pending_withStatus_le ?_⟩
  have hcount := h.count
  split <;> omega

end

end Pending

end Analysis

end SqlAnalysis

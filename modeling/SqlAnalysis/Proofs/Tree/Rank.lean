import Mathlib.Data.Finset.Card
import Mathlib.Data.Finset.Range
import SqlAnalysis.Proofs.Tree.Order

/-!
A measure for the analysis of expressions. A windowed call may lead to a window that comes after it,
so places alone do not decrease along `Leads`. The rank of a node counts first the windowed calls
that it leads to and then its place.
-/

namespace SqlAnalysis.Tree

variable {t : Tree}

def Unwound (t : Tree) (named : String → Link) : Prop :=
  ∀ x, t.kind x = .over → ¬ Relation.TransGen (t.Leads named) x x

/-- The node is part of a window with a name. -/
def InWindow (t : Tree) (named : String → Link) (y : Link) : Prop :=
  ∃ name w, named name = some w ∧ Relation.ReflTransGen t.Part (some w) y

theorem below_or_inWindow_of_refers (h : Relation.TransGen (t.Refers named) x y) :
    t.Below x y ∨ t.InWindow named y := by
  have hstep {x y} (h : t.Refers named x y) : t.Part x y ∨ t.InWindow named y := by
    cases h with
    | name _ hw => exact .inr ⟨_, _, hw, .refl⟩
    | @base c _ hc _ hb => exact .inl (.of_operands hc (c.mem_operands_of_operand hb))
  induction h with
  | single h => exact (hstep h).imp_left .single
  | tail _ h ih =>
    rcases hstep h with hpart | hwin
    · exact ih.imp (·.tail hpart) fun ⟨name, w, hw, hy⟩ => ⟨name, w, hw, hy.tail hpart⟩
    · exact .inr hwin

theorem below_or_inWindow_of_leads (h : t.Leads named x y) : t.Below x y ∨ t.InWindow named y := by
  cases h with
  | part hf _ hy => exact .inl (.single ⟨_, hf, hy⟩)
  | operand hc _ hinner hy => exact .inl (.of_operand hc (.single ⟨_, form?_of_call? hinner, hy⟩))
  | window hc _ hs => exact (below_or_inWindow_of_refers hs).imp_left (.of_operand hc)

/-- Windowed calls lead nowhere else if there are none inside the windows that have a name. -/
theorem Ordered.unwound_of_plain (ht : t.Ordered) (h : ∀ y, t.InWindow named y → t.kind y ≠ .over) :
    t.Unwound named := by
  intro x hx hback
  have hreach {y} (hy : Relation.TransGen (t.Leads named) x y) : t.Below x y ∨
      t.InWindow named y := by
    induction hy with
    | single hy => exact below_or_inWindow_of_leads hy
    | tail _ hy ih =>
      rcases below_or_inWindow_of_leads hy with hbelow | hwin
      · exact ih.imp (·.trans hbelow) fun ⟨name, w, hw, hy⟩ =>
          ⟨name, w, hw, hy.trans hbelow.to_reflTransGen⟩
      · exact .inr hwin
  rcases hreach hback with hbelow | hwin
  · cases x with
    | none => exact not_transGen_none hback
    | some i => exact Nat.lt_irrefl i (ht.lt_of_below hbelow)
  · exact h x hwin hx

open Classical in
/-- The windowed calls among the node and what it leads to. -/
noncomputable def oversFrom (t : Tree) (named : String → Link) (x : Link) : Finset NodeId :=
  {i ∈ Finset.range t.size |
    t.kind (some i) = .over ∧ Relation.ReflTransGen (t.Leads named) x (some i)}

noncomputable def rank (t : Tree) (named : String → Link) : Link → Nat
  | none => 0
  | some i => (t.oversFrom named (some i)).card * (t.size + 1) + i + 1

theorem mem_oversFrom : i ∈ t.oversFrom named x ↔
    i < t.size ∧ t.kind (some i) = .over ∧ Relation.ReflTransGen (t.Leads named) x (some i) := by
  simp only [oversFrom, Finset.mem_filter, Finset.mem_range]

theorem oversFrom_subset (h : t.Leads named x y) : t.oversFrom named y ⊆ t.oversFrom named x := by
  intro i hi
  obtain ⟨hsize, hk, hreach⟩ := mem_oversFrom.mp hi
  exact mem_oversFrom.mpr ⟨hsize, hk, .head h hreach⟩

theorem rank_lt_of_lt (h : t.Leads named (some i) y) (hy : ∀ j, y = some j → j < i) :
    t.rank named y < t.rank named (some i) := by
  cases y with
  | none => exact Nat.succ_pos _
  | some j =>
    have hcard := Nat.mul_le_mul_right (t.size + 1) (Finset.card_le_card (oversFrom_subset h))
    exact Nat.add_lt_add_right (Nat.add_lt_add_of_le_of_lt hcard (hy j rfl)) 1

theorem rank_lt_of_over (h : t.Leads named (some i) (some w)) (hi : i < t.size)
    (hw : w < t.size) (hk : t.kind (some i) = .over) (ht : t.Unwound named) :
    t.rank named (some w) < t.rank named (some i) := by
  have hmem : i ∈ t.oversFrom named (some i) := mem_oversFrom.mpr ⟨hi, hk, .refl⟩
  have hnot : i ∉ t.oversFrom named (some w) := by
    intro hback
    obtain ⟨_, _, hback⟩ := mem_oversFrom.mp hback
    exact ht _ hk (.head' h hback)
  have hcard : (t.oversFrom named (some w)).card < (t.oversFrom named (some i)).card :=
    Finset.card_lt_card ⟨oversFrom_subset h, fun hsub => hnot (hsub hmem)⟩
  calc t.rank named (some w) = (t.oversFrom named (some w)).card * (t.size + 1) + (w + 1) :=
    Nat.add_assoc ..
    _ ≤ (t.oversFrom named (some w)).card * (t.size + 1) + (t.size + 1) :=
      Nat.add_le_add_left (Nat.succ_le_succ hw.le) _
    _ ≤ (t.oversFrom named (some i)).card * (t.size + 1) :=
      Nat.succ_mul .. ▸ Nat.mul_le_mul_right _ hcard
    _ < t.rank named (some i) := Nat.lt_succ_of_le (Nat.le_add_right _ i)

theorem lt_size_of_refers (ht : t.Ordered) (hnamed : ∀ name w, named name = some w → w < t.size)
    (h : Relation.TransGen (t.Refers named) x y) : ∃ w, y = some w ∧ w < t.size := by
  have hstep {x y} (h : t.Refers named x y) : ∃ w, y = some w ∧ w < t.size := by
    cases h with
    | name _ hw => exact ⟨_, rfl, hnamed _ _ hw⟩
    | @base c w hc _ hb =>
      refine ⟨w, rfl, ?_⟩
      cases x with
      | none => cases hc
      | some i =>
        have hpart : t.Part (some i) (some w) := .of_operands hc (c.mem_operands_of_operand hb)
        exact Nat.lt_trans (ht i w hpart) (lt_size_of_form? (form?_of_call? hc))
  cases h with
  | single h => exact hstep h
  | tail _ h => exact hstep h

section Acyclic

variable (ht : t.Ordered) (hw : t.Unwound named)
    (hnamed : ∀ name w, named name = some w → w < t.size)
include ht hw hnamed

theorem rank_lt_of_leads (hi : i < t.size) (h : t.Leads named (some i) y) :
    t.rank named y < t.rank named (some i) := by
  cases h with
  | part hf hq hy =>
    refine rank_lt_of_lt (.part hf hq hy) ?_
    rintro j rfl
    exact ht i j ⟨_, hf, hy⟩
  | @operand _ c inner hc hk hinner hy =>
    refine rank_lt_of_lt (.operand hc hk hinner hy) ?_
    rintro j rfl
    cases h0 : c.operand 0 with
    | none => rw [h0] at hinner; cases hinner
    | some k =>
      rw [h0] at hinner
      have hik : t.Part (some i) (some k) := .of_operands hc (c.mem_operands_of_operand h0)
      exact Nat.lt_trans (ht k j (.of_operands hinner hy)) (ht i k hik)
  | window hc hk hs =>
    obtain ⟨w, rfl, hw'⟩ := lt_size_of_refers ht hnamed hs
    exact rank_lt_of_over (.window hc hk hs) hi hw' ((kind_of_call? hc).trans hk) hw

end Acyclic

theorem rank_lt_size (hi : i < t.size) : t.rank named (some i) < (t.size + 1) * (t.size + 1) := by
  have hsub : t.oversFrom named (some i) ⊆ Finset.range t.size := fun j hj =>
    Finset.mem_range.mpr (mem_oversFrom.mp hj).1
  have hcard : (t.oversFrom named (some i)).card ≤ t.size :=
    Finset.card_range t.size ▸ Finset.card_le_card hsub
  calc t.rank named (some i) = (t.oversFrom named (some i)).card * (t.size + 1) + (i + 1) :=
    Nat.add_assoc ..
    _ < (t.oversFrom named (some i)).card * (t.size + 1) + (t.size + 1) :=
      Nat.add_lt_add_left (Nat.succ_lt_succ hi) _
    _ ≤ t.size * (t.size + 1) + (t.size + 1) :=
      Nat.add_le_add_right (Nat.mul_le_mul_right _ hcard) _
    _ = (t.size + 1) * (t.size + 1) := (Nat.succ_mul ..).symm

end SqlAnalysis.Tree

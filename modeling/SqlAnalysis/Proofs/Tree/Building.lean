import SqlAnalysis.Canonical
import SqlAnalysis.Proofs.Tree.Extension

/-!
Trees that are built node by node. A node is added after its parts, so what is built on an ordered
tree is ordered, and everything that a step gives back is a node of the new tree.
-/

namespace SqlAnalysis

namespace Tree

variable {t : Tree}

/-- The step builds an ordered tree on `t`, in which `Q` holds of what it gives. -/
def Builds (t : Tree) (x : TreeM α) (Q : α → Tree → Prop) : Prop :=
  (x t).2.Ordered ∧ t.Extends (x t).2 ∧ Q (x t).1 (x t).2

namespace Builds

variable {Q' : α → Tree → Prop}

theorem pure (ht : t.Ordered) (h : Q v t) : Builds t (pure v : TreeM α) Q := ⟨ht, .refl t, h⟩

theorem bind (hx : Builds t x Q) (hf : ∀ v u, u.Ordered → t.Extends u → Q v u → Builds u (f v) R) :
    Builds t (x >>= f) R := by
  obtain ⟨hord, hext, hq⟩ := hx
  obtain ⟨hord', hext', hr⟩ := hf _ _ hord hext hq
  exact ⟨hord', hext.trans hext', hr⟩

theorem weaken (hx : Builds t x Q) (h : ∀ v u, Q v u → Q' v u) :
    Builds t x Q' := ⟨hx.1, hx.2.1, h _ _ hx.2.2⟩

theorem get {f : Tree → TreeM β} (hf : Builds t (f t) R) : Builds t (MonadState.get >>= f) R := hf

theorem map (hx : Builds t x fun v u => R (g v) u) : Builds t (g <$> x) R := hx

theorem push (ht : t.Ordered) (hn : ∀ y ∈ n.form.parts, t.Has y) :
    Builds t (Tree.push n) fun id u => u.Has (some id) :=
  ⟨ordered_add ht hn, .add t n, .of_form? (t.form?_add n)⟩

end Builds

theorem held_items (ht : t.Ordered) : ∀ y ∈ t.items x, t.Has y := by
  intro y hy
  unfold items at hy
  cases hl : t.list? x with
  | none => rw [hl] at hy; cases hy
  | some items => rw [hl] at hy; exact .part ht (form?_of_list? hl) hy

end Tree

section Parts

variable {A : Link → Prop}

theorem forall_mem_fields {fields : List Link} :
    (∀ y ∈ fields ++ rest, A y) ↔ fields.foldr (A · ∧ ·) (∀ y ∈ rest, A y) := by
  induction fields with
  | nil => rfl
  | cons y fields ih => rw [List.cons_append, List.forall_mem_cons, ih, List.foldr_cons]

namespace SelectParts

theorem forall_operands {p : SelectParts} :
    (∀ y ∈ p.operands, A y) ↔ A p.keywords ∧ A p.list ∧ A p.source ∧ A p.condition ∧
      A p.groups ∧ A p.having ∧ A p.windows ∧ A p.order ∧ ∀ y ∈ p.rest, A y :=
  forall_mem_fields

theorem forall_ofCall {c : Call} (h : ∀ y ∈ c.operands, A y) (h0 : A none) :
    ∀ y ∈ (ofCall c).operands, A y := by
  have hop := c.operand_of_operands h h0
  exact forall_operands.mpr ⟨hop 0, hop 1, hop 2, hop 3, hop 4, hop 5, hop 6, hop 7,
    fun y hy => h y (List.mem_of_mem_drop hy)⟩

end SelectParts

theorem InsertParts.forall_operands {p : InsertParts} : (∀ y ∈ p.operands, A y) ↔
    A p.target ∧ A p.source ∧ A p.columns ∧ A p.query ∧ ∀ y ∈ p.rest, A y :=
  forall_mem_fields

theorem DeleteParts.forall_operands {p : DeleteParts} : (∀ y ∈ p.operands, A y) ↔
    A p.target ∧ A p.condition ∧ A p.aliasName ∧ A p.query ∧ ∀ y ∈ p.rest, A y :=
  forall_mem_fields

theorem UpdateParts.forall_operands {p : UpdateParts} : (∀ y ∈ p.operands, A y) ↔ A p.target ∧
      A p.columns ∧ A p.sources ∧ A p.condition ∧ A p.aliasName ∧ A p.query ∧ ∀ y ∈ p.rest, A y :=
  forall_mem_fields

theorem CaseParts.forall_operands {p : CaseParts} : (∀ y ∈ p.operands, A y) ↔
    A p.value ∧ A p.whens ∧ A p.thens ∧ A p.otherwise ∧ ∀ y ∈ p.rest, A y :=
  forall_mem_fields

end Parts

end SqlAnalysis

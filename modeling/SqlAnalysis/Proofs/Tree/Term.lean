import Mathlib.Algebra.GroupWithZero.Nat
import Mathlib.Data.List.Forall2
import SqlAnalysis.Proofs.Tree.Building
import SqlAnalysis.Proofs.Tree.Walk

/-!
Terms. A node of a tree stands for a term: its label with the terms of its parts. Two nodes, of one
tree or of two, are structurally equal if they stand for the same term; which of the parts are
shared, and where the nodes stand in the source, is not part of it.
-/

namespace SqlAnalysis

/-- What a node stands for. The label is the form of the node without its parts. -/
inductive Term where
  | absent
  | node (label : Form) (parts : List Term)
deriving Inhabited

namespace Form

def label (f : Form) : Form := f.withParts []

@[simp] theorem label_call (c : Call) :
    (Form.call c).label = .call { operator := c.operator, operands := [] } := rfl

@[simp] theorem label_list : (Form.list items).label = .list [] := rfl

@[simp] theorem label_withParts (f : Form) (ps : List Link) : (f.withParts ps).label = f.label := by
  cases f <;> rfl

theorem parts_withParts {f : Form} (h : ps.length = f.parts.length) :
    (f.withParts ps).parts = ps := by
  cases f with
  | call c => rfl
  | list items => rfl
  | _ => exact (List.length_eq_zero_iff.mp h).symm

end Form

namespace Term

@[elab_as_elim, induction_eliminator]
theorem induct {motive : Term → Prop} (absent : motive .absent)
    (node : ∀ label parts, (∀ p ∈ parts, motive p) → motive (.node label parts)) : ∀ x, motive x
  | .absent => absent
  | .node label parts => node label parts fun p _ => induct absent node p

def call (o : Operator) (parts : List Term) : Term :=
  .node (.call { operator := o, operands := [] }) parts

def identifier (names : List String) : Term := .node (.identifier { names }) []

def list (items : List Term) : Term := .node (.list []) items

def operator? : Term → Option Operator
  | .node (.call c) _ => some c.operator
  | _ => none

def kind (x : Term) : Kind := (x.operator?.map Operator.kind).getD .other

def items : Term → List Term
  | .node (.list _) ps => ps
  | _ => []

def size : Term → Nat
  | .absent => 0
  | .node _ parts => (parts.map size).sum + 1

end Term

/-- The term at a place, absent also past the last. -/
def termAt (ps : List Term) (k : Nat) : Term := ps[k]?.getD .absent

namespace Tree

variable {t : Tree}

/-- The term of a node, unfolded no deeper than `depth`. -/
def termUpTo (t : Tree) : Nat → Link → Term
  | 0, _ => .absent
  | depth + 1, x =>
    match t.form? x with
    | none => .absent
    | some f => .node f.label (f.parts.map (t.termUpTo depth))

def term (t : Tree) (x : Link) : Term := t.termUpTo (x.getD 0 + 1) x

@[simp] theorem termUpTo_none : t.termUpTo depth none = .absent := by
  cases depth <;> rfl

@[simp] theorem term_none (t : Tree) : t.term none = .absent := rfl

section

variable (ht : t.Ordered)
include ht

theorem Ordered.termUpTo_eq (h : i < depth) : t.termUpTo depth (some i) = t.term (some i) := by
  refine ht.eq_of_bounds (fun _ _ => by rw [termUpTo_none, termUpTo_none])
    (fun i d d' h => ?_) ?_ ?_
  · rw [termUpTo, termUpTo]
    cases hf : t.form? (some i) with
    | none => rfl
    | some f => exact congrArg (Term.node f.label) (List.map_congr_left fun y hy => h y ⟨f, hf, hy⟩)
  · exact fun _ hi => Option.some.inj hi ▸ h
  · exact fun _ hi => Option.some.inj hi ▸ Nat.lt_succ_self i

theorem Ordered.term_eq (x : Link) :
    t.term x = (t.form? x).elim .absent fun f => .node f.label (f.parts.map t.term) := by
  cases x with
  | none => rfl
  | some i =>
    simp only [term, termUpTo, Option.getD_some]
    cases hf : t.form? (some i) with
    | none => rfl
    | some f =>
      simp only [Option.elim_some, Term.node.injEq, true_and]
      refine List.map_congr_left fun y hy => ?_
      cases y with
      | none => rw [termUpTo_none]; rfl
      | some j => exact ht.termUpTo_eq (ht i j ⟨f, hf, hy⟩)

theorem Ordered.term_of_form? (hf : t.form? x = some f) :
    t.term x = .node f.label (f.parts.map t.term) := by
  rw [ht.term_eq, hf]
  rfl

theorem Ordered.term_of_call? (hc : t.call? x = some c) :
    t.term x = .call c.operator (c.operands.map t.term) :=
  ht.term_of_form? (form?_of_call? hc)

theorem Ordered.term_of_list? {items : List Link} (hl : t.list? x = some items) :
    t.term x = .list (items.map t.term) :=
  ht.term_of_form? (form?_of_list? hl)

end

theorem term_of_form?_eq_none (hf : t.form? x = none) : t.term x = .absent := by
  cases x with
  | none => rfl
  | some i => simp only [term, termUpTo, hf]

theorem Extends.term_eq (hu : t.Extends u) (ht : t.Ordered) (hu' : u.Ordered) (hx : t.Has x) :
    u.term x = t.term x := by
  cases x with
  | none => rfl
  | some i =>
    induction i using Nat.strong_induction_on with
    | _ i ih =>
      rw [ht.term_eq, hu'.term_eq, hu.form?_eq hx]
      cases hf : t.form? (some i) with
      | none => rfl
      | some f =>
        simp only [Option.elim_some, Term.node.injEq, true_and]
        refine List.map_congr_left fun y hy => ?_
        cases y with
        | none => rfl
        | some j => exact ih j (ht i j ⟨f, hf, hy⟩) (.part ht hf hy)

theorem Extends.map_term_eq (hu : t.Extends u) (ht : t.Ordered) (hu' : u.Ordered) {l : List Link}
    (hl : ∀ y ∈ l, t.Has y) : l.map u.term = l.map t.term :=
  List.map_congr_left fun y hy => hu.term_eq ht hu' (hl y hy)

theorem termAt_map_term (t : Tree) (c : Call) (k : Nat) :
    termAt (c.operands.map t.term) k = t.term (c.operand k) := by
  unfold termAt Call.operand
  rw [List.getElem?_map]
  cases c.operands[k]? <;> rfl

theorem Ordered.operator?_term (ht : t.Ordered) (x : Link) :
    (t.term x).operator? = (t.call? x).map Call.operator := by
  rw [ht.term_eq, call?]
  cases t.form? x with
  | none => rfl
  | some f => cases f <;> rfl

theorem Ordered.kind_term (ht : t.Ordered) (x : Link) : (t.term x).kind = t.kind x := by
  rw [Term.kind, ht.operator?_term, Tree.kind]
  cases t.call? x <;> rfl

theorem Ordered.items_term (ht : t.Ordered) (x : Link) :
    (t.term x).items = (t.items x).map t.term := by
  rw [ht.term_eq, items, list?]
  cases t.form? x with
  | none => rfl
  | some f => cases f <;> rfl

namespace Builds

theorem push_form (ht : t.Ordered) (hn : ∀ y ∈ n.form.parts, t.Has y) :
    Builds t (Tree.push n) fun id u => u.form? (some id) = some n.form ∧ id = t.size :=
  ⟨ordered_add ht hn, .add t n, t.form?_add n, rfl⟩

end Builds

/-! ### Copies -/

theorem form?_of_node? (h : t.node? x = some n) : t.form? x = some n.form :=
  congrArg (Option.map Node.form) h

/-- The node `y` of `u` is a copy of the node `x` of `s` that starts at the place `k`: it is the
same node in the same place of the source, but its parts are copies of the parts. -/
inductive Replicates (s u : Tree) (k : NodeId) : Link → Link → Prop where
  | absent {x : Link} : s.node? x = none → Replicates s u k x none
  | node {x : Link} {n j ys} : s.node? x = some n →
    u.node? (some j) = some { n with form := n.form.withParts ys } → k ≤ j →
    List.Forall₂ (Replicates s u k) n.form.parts ys → Replicates s u k x (some j)

variable {s : Tree}

@[elab_as_elim]
theorem Replicates.induct {motive : Link → Link → Prop}
    (absent : ∀ x, s.node? x = none → motive x none)
    (node : ∀ x n j ys, s.node? x = some n →
    u.node? (some j) = some { n with form := n.form.withParts ys } → k ≤ j →
      List.Forall₂ (fun a b => s.Replicates u k a b ∧ motive a b) n.form.parts ys →
        motive x (some j))
    (h : s.Replicates u k x y) : motive x y :=
  @Replicates.rec s u k (fun x y _ => motive x y) (fun as bs _ =>
    List.Forall₂ (fun a b => s.Replicates u k a b ∧ motive a b) as bs)
    (absent _) (fun hn hj hk _ => node _ _ _ _ hn hj hk) .nil (fun hab _ h => .cons ⟨hab, h⟩) x y h

theorem Replicates.mono (hu : u.Extends w) (hk : k' ≤ k) (h : s.Replicates u k x y) :
    s.Replicates w k' x y := by
  refine Replicates.induct (fun x hn => .absent hn) (fun x n j ys hn hj hle hparts => ?_) h
  exact .node hn (hu.node? hj) (Nat.le_trans hk hle) (hparts.imp fun _ _ h => h.2)

theorem exists_of_mem_right (h : List.Forall₂ R xs ys) (hy : y ∈ ys) : ∃ x, R x y := by
  induction h with
  | nil => cases hy
  | cons hxy _ ih =>
    rcases List.mem_cons.mp hy with rfl | hy
    · exact ⟨_, hxy⟩
    · exact ih hy

theorem Replicates.has (h : s.Replicates u k x y) : u.Has y := by
  cases h with
  | absent => exact .absent
  | node _ hj => exact .of_lt (Array.getElem?_eq_some_iff.mp hj).1

theorem Replicates.parts {f : Form} (h : List.Forall₂ (s.Replicates u k) f.parts ys) :
    (f.withParts ys).parts = ys :=
  Form.parts_withParts h.length_eq.symm

theorem Replicates.term_eq (hs : s.Ordered) (hu : u.Ordered) (h : s.Replicates u k x y) :
    u.term y = s.term x := by
  refine Replicates.induct (fun x hn => ?_) (fun x n j ys hn hj _ hparts => ?_) h
  · exact (term_of_form?_eq_none (by rw [form?, hn]; rfl)).symm
  · have hterms : List.Forall₂ (· = ·) (n.form.parts.map s.term) (ys.map u.term) := by
      rw [List.forall₂_map_left_iff, List.forall₂_map_right_iff]
      exact hparts.imp fun _ _ h => h.2.symm
    rw [List.forall₂_eq_eq_eq] at hterms
    rw [hs.term_of_form? (form?_of_node? hn), hu.term_of_form? (form?_of_node? hj),
      Form.label_withParts, Replicates.parts (hparts.imp fun _ _ h => h.1), hterms]

/-- The tree `t` is extended to `u` by as many nodes as the term of `x` has, a copy `y` of `x`. -/
structure Copied (s : Tree) (x y : Link) (t u : Tree) : Prop where
  nodes : t.Extends u
  ordered : t.Ordered → u.Ordered
  size : u.size = t.size + (s.term x).size
  copies : s.Replicates u t.size x y

theorem Copied.absent (hn : s.node? x = none) (t : Tree) : s.Copied x none t t := by
  have hterm : s.term x = .absent := term_of_form?_eq_none (by rw [form?, hn]; rfl)
  exact ⟨.refl t, id, by rw [hterm, Term.size, Nat.add_zero], .absent hn⟩

theorem mapM_copied {f : Link → TreeM Link}
    (h : ∀ y ∈ l, ∀ t, s.Copied y (f y t).1 t (f y t).2) (t : Tree) :
    t.Extends (l.mapM f t).2 ∧ (t.Ordered → (l.mapM f t).2.Ordered) ∧
      (l.mapM f t).2.size = t.size + ((l.map s.term).map Term.size).sum ∧
        List.Forall₂ (s.Replicates (l.mapM f t).2 t.size) l (l.mapM f t).1 := by
  induction l generalizing t with
  | nil => exact ⟨.refl t, id, rfl, .nil⟩
  | cons y l ih =>
    rw [List.mapM_cons]
    have hy := h y List.mem_cons_self t
    obtain ⟨hext, hord, hsize, hcopies⟩ :=
      ih (fun y hy => h y (List.mem_cons_of_mem _ hy)) (f y t).2
    refine ⟨hy.nodes.trans hext, hord ∘ hy.ordered, ?_,
      .cons (hy.copies.mono hext (Nat.le_refl _)) (hcopies.imp fun _ _ h =>
      h.mono (.refl _) hy.nodes.size_le)⟩
    refine hsize.trans ?_
    rw [hy.size, List.map_cons, List.map_cons, List.sum_cons, Nat.add_assoc]

theorem copyUpTo_copied (hs : s.Ordered) (hx : ∀ i, x = some i → i < depth) (t : Tree) :
    s.Copied x (s.copyUpTo depth x t).1 t (s.copyUpTo depth x t).2 := by
  induction depth generalizing t x with
  | zero =>
    cases x with
    | none => exact .absent rfl t
    | some i => exact absurd (hx i rfl) (Nat.not_lt_zero i)
  | succ depth ih =>
    rw [copyUpTo]
    cases hn : s.node? x with
    | none => exact .absent hn t
    | some n =>
      have hf := form?_of_node? hn
      have hbelow : ∀ y ∈ n.form.parts, ∀ j, y = some j → j < depth := by
        rintro _ hy j rfl
        cases x with
        | none => cases hf
        | some i => exact Nat.lt_of_lt_of_le (hs i j ⟨_, hf, hy⟩) (Nat.le_of_lt_succ (hx i rfl))
      obtain ⟨hext, hord, hsize, hcopies⟩ := mapM_copied (fun y hy => ih (hbelow y hy)) t
      refine ⟨hext.trans (.add _ _), fun ht => ordered_add (hord ht) ?_, ?_, ?_⟩
      · intro y hy
        have hy : y ∈ _ := Replicates.parts hcopies ▸ hy
        obtain ⟨_, h⟩ := exists_of_mem_right hcopies hy
        exact h.has
      · refine (Array.size_push _).trans ?_
        rw [hs.term_of_form? hf, Term.size, ← Nat.add_assoc]
        exact congrArg (· + 1) hsize
      · exact .node hn Array.getElem?_push_size hext.size_le
          (hcopies.imp fun _ _ h => h.mono (.add _ _) (Nat.le_refl _))

theorem copy_copied (hs : s.Ordered) (x : Link) (t : Tree) :
    s.Copied x (s.copy x t).1 t (s.copy x t).2 :=
  copyUpTo_copied hs (by rintro i rfl; exact Nat.lt_succ_self i) t

/-- A copy stands for the same term as what it was copied from, and is new. -/
theorem copy_term {source : Tree} (hs : source.Ordered) (ht : t.Ordered) :
    Builds t (source.copy x) fun y u =>
      u.term y = source.term x ∧ u.Has y ∧ ∀ j, y = some j → t.size ≤ j := by
  obtain ⟨hext, hord, _, hcopy⟩ := copy_copied hs x t
  refine ⟨hord ht, hext, hcopy.term_eq hs (hord ht), hcopy.has, fun j hj => ?_⟩
  rw [hj] at hcopy
  cases hcopy with
  | node _ _ hle => exact hle

end Tree

end SqlAnalysis

import SqlAnalysis.Proofs.Number.Value
import SqlAnalysis.Proofs.Tree.Branching
import SqlAnalysis.Proofs.Tree.Term

/-!
Structural equality. Two nodes of an ordered tree are equal if they mean the same beside their parts
and their parts are equal one by one, so equality is an equivalence, and a copy that is made in a
tree is equal to its original.
-/

namespace SqlAnalysis

/-- A literal without what makes no difference to its value: a number or a point in time is set
beside it. -/
def Literal.meaning : Literal → Literal × ℚ × Int
  | .exact d => (.exact (.ofInt 0), d.value, 0)
  | .approximate d => (.approximate (.ofInt 0), d.value, 0)
  | .date m => (.date {}, 0, m.instant)
  | .time m _ => (.time {} 0, 0, m.instant)
  | .timestamp m _ => (.timestamp {} 0, 0, m.instant)
  | l => (l, 0, 0)

/-- What a form says beside its parts. -/
def Form.meaning : Form → Form × ℚ × Int
  | .identifier i => (.identifier { names := i.names }, 0, 0)
  | .literal l => (.literal l.meaning.1, l.meaning.2)
  | f => (f.label, 0, 0)

/-- What a term says. -/
inductive Sense where
  | absent
  | node (meaning : Form × ℚ × Int) (parts : List Sense)

def Term.sense : Term → Sense
  | .absent => .absent
  | .node label parts => .node label.meaning (parts.map sense)

theorem Literal.sameValue_iff {a b : Literal} : a.sameValue b ↔ a.meaning = b.meaning := by
  have hvalue (a b : Decimal) : a.sameValue b ↔ a.value = b.value := by
    rw [Decimal.sameValue, Bool.and_eq_true, Decimal.le_iff, Decimal.le_iff, le_antisymm_iff]
  cases a <;> cases b <;> simp [sameValue, meaning, hvalue, Moment.isSame]

theorem Form.meaning_label (f : Form) : f.label.meaning = f.meaning := by
  cases f <;> rfl

namespace Tree

variable {s t : Tree} {x a b : Link}

theorem sameParts_iff {same : Link → Link → Id Bool} :
    sameParts same xs ys = true ↔ List.Forall₂ (fun x y => same x y = true) xs ys := by
  induction xs generalizing ys with
  | nil => cases ys <;> simp [sameParts, pure]
  | cons x xs ih =>
    cases ys with
    | nil => simp [sameParts]
    | cons y ys =>
      rw [List.forall₂_cons, ← ih]
      cases h : same x y <;> simp [sameParts, bind, h]

theorem forall₂_iff_map_eq
    (h : ∀ x ∈ xs, ∀ y, R x y ↔ F x = F y) : List.Forall₂ R xs ys ↔ xs.map F = ys.map F := by
  induction xs generalizing ys with
  | nil => cases ys <;> simp
  | cons x xs ih =>
    cases ys with
    | nil => simp
    | cons y ys =>
      rw [List.forall₂_cons, h x List.mem_cons_self, ih fun x hx => h x (List.mem_cons_of_mem _ hx),
        List.map_cons, List.map_cons, List.cons.injEq]

theorem run_ite [Decidable p] : Id.run (if p then q else pure false) = true ↔ p ∧ q = true := by
  split <;> simp_all [Id.run]

theorem equal_refl (t : Tree) (a : Link) : t.equal a a := by
  rw [equal, equalWith, equalUpTo, if_pos rfl]
  rfl

section

variable (ht : t.Ordered)
include ht

theorem Ordered.equal_iff : t.equal a b ↔ t.form? a = none ∧ t.form? b = none ∨
      ∃ f g, t.form? a = some f ∧ t.form? b = some g ∧ f.meaning = g.meaning ∧
      List.Forall₂ (fun x y => t.equal x y) f.parts g.parts := by
  by_cases hab : a = b
  · subst hab
    refine iff_of_true (t.equal_refl a) ?_
    cases hf : t.form? a with
    | none => exact .inl ⟨rfl, rfl⟩
    | some f => exact .inr ⟨f, f, rfl, rfl, rfl, List.forall₂_same.mpr fun x _ => t.equal_refl x⟩
  have hbelow {x a : Link} {f : Form} (hf : t.form? a = some f) (hx : x ∈ f.parts) : x.getD
      0 ≤ a.getD 0 := by
    cases x with
    | none => exact Nat.zero_le _
    | some j =>
      cases a with
      | none => cases hf
      | some i => exact Nat.le_of_lt (ht i j ⟨f, hf, hx⟩)
  have hstep := ht.equalUpTo_eq (m := Id) (fun x y => pure (x == y)) (a := a)
    (b := b) (Nat.lt_succ_of_lt (Nat.lt_succ_self _))
  have hparts {f g : Form} (hf : t.form? a = some f) (hg : t.form? b = some g) :
      sameParts (m := Id) (t.equalUpTo (fun x y => pure (x == y)) (max (a.getD 0) (b.getD 0) + 1))
      f.parts g.parts = true ↔
        List.Forall₂ (fun x y => t.equal x y) f.parts g.parts := by
    rw [sameParts_congr fun x hx y hy => ht.equalUpTo_eq (m := Id) _
      (Nat.lt_succ_of_le (max_le_max (hbelow hf hx) (hbelow hg hy))), sameParts_iff]
    rfl
  rw [equal, ← hstep, equalUpTo, if_neg hab]
  cases hf : t.form? a with
  | none => cases t.form? b <;> simp
  | some f =>
    cases hg : t.form? b with
    | none => cases f <;> simp
    | some g =>
      have hparts := hparts hf hg
      simp only [reduceCtorEq, false_and, false_or, Option.some.injEq,
        exists_and_left, exists_eq_left', ← hparts]
      have hlen := fun h => (hparts.mp h).length_eq
      cases f with
      | call c =>
        cases g with
        | call c' =>
          simp only [run_ite, Form.meaning, Form.label_call, Prod.mk.injEq,
            Form.call.injEq, Call.mk.injEq, and_true]
          exact ⟨fun h => ⟨h.1.1, h.2⟩, fun h => ⟨⟨h.1, hlen h.2⟩, h.2⟩⟩
        | _ => simp [Form.meaning, Form.label, Form.withParts]
      | list items =>
        cases g with
        | list items' =>
          simp only [run_ite, Form.meaning, Form.label_list, true_and]
          exact ⟨fun h => h.2, fun h => ⟨hlen h, h⟩⟩
        | _ => simp [Form.meaning, Form.label, Form.withParts]
      | _ =>
        cases g <;> simp [Form.meaning, Form.label, Form.withParts, Form.parts,
          Literal.sameValue_iff, sameParts_iff, Prod.ext_iff]

theorem Ordered.equal_iff_sense : t.equal a b ↔ (t.term a).sense = (t.term b).sense := by
  have habsent {a : Link} (h : t.form? a = none) : (t.term a).sense = .absent := by
    rw [term_of_form?_eq_none h, Term.sense]
  have hnode {a : Link} {f : Form} (h : t.form? a = some f) :
      (t.term a).sense = .node f.meaning (f.parts.map fun x => (t.term x).sense) := by
    rw [ht.term_of_form? h, Term.sense, List.map_map, Form.meaning_label]
    rfl
  have hstep {a b : Link} (h : ∀ f, t.form? a = some f → ∀ x ∈ f.parts, ∀ y, t.equal x y ↔
      (t.term x).sense = (t.term y).sense) :
      t.equal a b ↔ (t.term a).sense = (t.term b).sense := by
    rw [ht.equal_iff]
    cases hf : t.form? a with
    | none =>
      rw [habsent hf]
      cases hg : t.form? b with
      | none => simp [habsent hg]
      | some g => simp [hnode hg]
    | some f =>
      cases hg : t.form? b with
      | none => simp [hnode hf, habsent hg]
      | some g => simp [hnode hf, hnode hg, forall₂_iff_map_eq (h f hf)]
  cases a with
  | none => exact hstep fun f hf => by cases hf
  | some i =>
    induction i using Nat.strongRecOn generalizing b with
    | _ i ih =>
      refine hstep fun f hf x hx y => ?_
      cases x with
      | none => exact hstep fun f hf => by cases hf
      | some j => exact ih j (ht i j ⟨f, hf, hx⟩)

end

/-! ### Copies within a tree and between trees -/

theorem Replicates.new (h : s.Replicates u k x y) (hj : u.Spans y j) : k ≤ j := by
  refine Replicates.induct (motive := fun _ y => u.Spans y j → k ≤ j)
    (fun x _ hj => absurd hj not_spans_none) (fun x n i ys _ hi hle hparts hj => ?_) h hj
  rcases spans_cases hj with rfl | ⟨y, ⟨f, hf, hy⟩, hj⟩
  · exact hle
  · cases hf.symm.trans (form?_of_node? hi)
    have hy : y ∈ ys := Replicates.parts (hparts.imp fun _ _ h => h.1) ▸ hy
    obtain ⟨_, _, h⟩ := exists_of_mem_right hparts hy
    exact h hj

/-- Copying adds an equal copy to a tree that has nothing in common with what was there, and
equality is an equivalence. -/
theorem copy_equal_disjoint (hs : s.Ordered) (x : Link) (t : Tree) :
    (t.Extends (s.copy x t).2 ∧ (s.copy x t).2.size = t.size + (s.term x).size ∧
      s.Replicates (s.copy x t).2 t.size x (s.copy x t).1 ∧
      ∀ j, (s.copy x t).2.Spans (s.copy x t).1 j → t.size ≤ j) ∧
    Equivalence (fun a b => s.equal a b = true) ∧ (s.copy x s).2.equal x (s.copy x s).1 := by
  have hcopy := copy_copied hs x t
  refine ⟨⟨hcopy.nodes, hcopy.size, hcopy.copies, fun j => hcopy.copies.new⟩,
    ⟨s.equal_refl, fun h => ?_, fun h h' => ?_⟩, ?_⟩
  · rw [hs.equal_iff_sense] at *
    exact h.symm
  · rw [hs.equal_iff_sense] at *
    exact h.trans h'
  · have hown := copy_copied hs x s
    have hu := hown.ordered hs
    by_cases hx : s.Has x
    · rw [hu.equal_iff_sense, hown.nodes.term_eq hs hu hx, hown.copies.term_eq hs hu]
    · -- nothing is copied from where there is no node
      have hn : s.node? x = none := by
        cases x with
        | none => rfl
        | some i => exact Array.getElem?_eq_none (Nat.le_of_not_lt fun hi => hx (.of_lt hi))
      have hrun : s.copy x s = (none, s) := by
        rw [copy, copyUpTo, hn]
        rfl
      rw [hrun]
      exact hs.equal_iff.mpr (.inl ⟨by rw [form?, hn]; rfl, rfl⟩)

/-- A part that stands in a list twice is copied twice. -/
theorem copy_equal_disjoint_shared :
    let s : Tree :=
      { nodes := #[{ form := .identifier { names := ["A"] } },
          { form := .list [some 0, none, some 0] }] }
    (s.copy (some 1) s).1 = some 4 ∧ (s.term (some 1)).size = 3 ∧
      (s.copy (some 1) s).2.equal (some 1) (some 4) := by
  intro s
  have hs : s.Ordered := by
    rintro i j ⟨f, hf, hj⟩
    match i, hf with
    | 0, rfl => cases hj
    | 1, rfl =>
      have hj : some j ∈ [some 0, none, some 0] := hj
      obtain rfl : j = 0 := by simpa using hj
      exact Nat.one_pos
  have hcopy := copy_equal_disjoint hs (some 1) s
  have hsize : (s.copy (some 1) s).2.size = s.size + 3 := by decide +kernel
  exact ⟨by decide +kernel, Nat.add_left_cancel (hcopy.1.2.1.symm.trans hsize), hcopy.2.2⟩

end Tree

end SqlAnalysis

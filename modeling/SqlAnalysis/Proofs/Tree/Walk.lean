import Mathlib.Data.List.Basic
import SqlAnalysis.Proofs.Tree.Order
import SqlAnalysis.Tree.Equality

/-!
Walks over a tree count down a bound. In an ordered tree a walk from a node goes to smaller and
smaller places, so it ends by itself: whatever the bound is above the place of the node, the walk is
the same.
-/

namespace SqlAnalysis.Tree

variable {t : Tree}

/-- A recursion that goes to smaller places only is the same at all bounds above its place. -/
theorem eq_of_bounds {p : α → Nat} {f : Nat → α → β}
    (hf : ∀ a d d', (∀ b, p b < p a → f d b = f d' b) → f (d + 1) a = f (d' + 1) a) (hd : p a < d)
    (hd' : p a < d') : f d a = f d' a := by
  induction hn : p a using Nat.strongRecOn generalizing a d d' with
  | _ n ih =>
    obtain ⟨d, rfl⟩ := Nat.exists_eq_add_one_of_ne_zero (Nat.ne_zero_of_lt hd)
    obtain ⟨d', rfl⟩ := Nat.exists_eq_add_one_of_ne_zero (Nat.ne_zero_of_lt hd')
    refine hf a d d' fun b hb => ih (p b) (hn ▸ hb) ?_ ?_ rfl
    · exact Nat.lt_of_lt_of_le hb (Nat.le_of_lt_succ hd)
    · exact Nat.lt_of_lt_of_le hb (Nat.le_of_lt_succ hd')

theorem Ordered.eq_of_bounds {f : Nat → Link → β} (ht : t.Ordered)
    (hnone : ∀ d d', f d none = f d' none) (hf : ∀ i d d',
    (∀ y, t.Part (some i) y → f d y = f d' y) → f (d + 1) (some i) = f (d' + 1) (some i))
    (hd : ∀ i, x = some i → i < d) (hd' : ∀ i, x = some i → i < d') : f d x = f d' x := by
  cases x with
  | none => exact hnone d d'
  | some i =>
    refine Tree.eq_of_bounds (p := id) (f := fun d i => f d (some i))
      (fun i d d' h => hf i d d' fun y hy => ?_) (hd i rfl) (hd' i rfl)
    cases y with
    | none => exact hnone d d'
    | some j => exact h j (ht i j hy)

variable (ht : t.Ordered)
include ht

omit ht in
theorem mapM_congr {l : List Link} {f g : Link → TreeM Link} (h : ∀ y ∈ l, f y = g y) :
    l.mapM f = l.mapM g := by
  induction l with
  | nil => rfl
  | cons y l ih =>
    rw [List.mapM_cons, List.mapM_cons, h y List.mem_cons_self,
      ih fun y hy => h y (List.mem_cons_of_mem _ hy)]

theorem Ordered.wellFounded_children : WellFounded fun j i : NodeId => j ∈ t.children (some i) :=
  Subrelation.wf (fun h => ht _ _ (part_of_mem_children h)) Nat.lt_wfRel.wf

theorem Ordered.preorderUpTo_eq (enter : NodeId → Bool) (hd : i < d) :
    t.preorderUpTo enter d i = t.preorderWhere enter (some i) := by
  refine Tree.eq_of_bounds (p := id) (fun i d d' h => ?_) hd i.lt_succ_self
  rw [preorderUpTo, preorderUpTo]
  congr 2
  exact List.flatMap_congr fun j hj => h j (ht i j (part_of_mem_children hj))

theorem Ordered.copyUpTo_eq (hd : ∀ i, x = some i → i < d) : t.copyUpTo d x = t.copy x := by
  refine ht.eq_of_bounds (fun d d' => ?_) (fun i d d' h => ?_) hd
    (by rintro i rfl; exact i.lt_succ_self)
  · cases d <;> cases d' <;> rfl
  · rw [copyUpTo, copyUpTo]
    cases hn : t.node? (some i) with
    | none => rfl
    | some n =>
      have hparts : n.form.parts.mapM (t.copyUpTo d) = n.form.parts.mapM (t.copyUpTo d') :=
        mapM_congr fun y hy => h y ⟨n.form, by rw [form?, hn]; rfl, hy⟩
      simp only [hparts]

omit ht in
theorem sameParts_congr [Monad m] {f g : Link → Link → m Bool}
    (h : ∀ x ∈ xs, ∀ y ∈ ys, f x y = g x y) : sameParts f xs ys = sameParts g xs ys := by
  induction xs generalizing ys with
  | nil => cases ys <;> rfl
  | cons x xs ih =>
    cases ys with
    | nil => rfl
    | cons y ys =>
      rw [sameParts, sameParts, h x List.mem_cons_self y List.mem_cons_self,
        ih fun x hx y hy => h x (List.mem_cons_of_mem _ hx) y (List.mem_cons_of_mem _ hy)]

theorem Ordered.equalUpTo_eq [Monad m] (same : List String → List String → m Bool) {a b : Link}
    (hd : max (a.getD 0) (b.getD 0) < d) : t.equalUpTo same d a b = t.equalWith same a b := by
  refine Tree.eq_of_bounds (p := fun ab : Link × Link => max (ab.1.getD 0) (ab.2.getD 0))
    (f := fun d ab => t.equalUpTo same d ab.1 ab.2) (a := (a, b)) (fun ⟨a, b⟩ d d' h => ?_)
    hd (Nat.lt_succ_self _)
  dsimp only at h ⊢
  rw [equalUpTo, equalUpTo]
  by_cases hab : a = b
  · rw [if_pos hab, if_pos hab]
  rw [if_neg hab, if_neg hab]
  -- different nodes have their parts below the later of the two
  have hparts {f g : Form} (hf : t.form? a = some f) (hg : t.form? b = some g) :
      sameParts (t.equalUpTo same d) f.parts g.parts =
      sameParts (t.equalUpTo same d') f.parts g.parts := by
    refine sameParts_congr fun x hx y hy => h (x, y) ?_
    cases a with
    | none => cases hf
    | some i =>
      cases b with
      | none => cases hg
      | some k =>
        have hbelow {x : Option Nat} {i : Nat} (h : t.Part (some i) x) : x.getD 0 ≤ i - 1 := by
          cases x with
          | none => exact Nat.zero_le _
          | some j => exact Nat.le_pred_of_lt (ht i j h)
        have hlt {j l i k : Nat} (hj : j ≤ i - 1) (hl : l ≤ k - 1) (hne : i ≠ k) : max j l <
          max i k := by omega
        exact hlt (hbelow ⟨f, hf, hx⟩) (hbelow ⟨g, hg, hy⟩) fun h => hab (congrArg some h)
  cases hf : t.form? a with
  | none => cases t.form? b <;> rfl
  | some f =>
    cases hg : t.form? b with
    | none => cases f <;> rfl
    | some g =>
      have hparts := hparts hf hg
      cases f with
      | call c =>
        cases g with
        | call c' => exact congrArg (ite _ · _) hparts
        | _ => rfl
      | list items =>
        cases g with
        | list items' => exact congrArg (ite _ · _) hparts
        | _ => rfl
      | _ => cases g <;> rfl

end SqlAnalysis.Tree

import Mathlib.Data.List.Find
import SqlAnalysis.Analysis.Window
import SqlAnalysis.Proofs.Analysis.Advance
import SqlAnalysis.Proofs.Tree.Rank

/-!
What is the same in a tree and in one that extends it. The nodes of an ordered tree are closed under
parts, and seen from them an extension is no different: windows of the same name are the same, and a
node leads to the same nodes.
-/

namespace SqlAnalysis.Tree

open Analysis

variable {t : Tree}

variable (hu : t.Extends u)
include hu

theorem Extends.form?_eq (hx : t.Has x) : u.form? x = t.form? x := by
  cases x with
  | none => rfl
  | some i =>
    obtain ⟨n, hn⟩ : ∃ n, t.nodes[i]? = some n := ⟨_, Array.getElem?_eq_getElem (hx i rfl)⟩
    simp only [Tree.form?, Tree.node?, Option.bind_some, hn, hu i n hn]

section

variable (hx : t.Has x)
include hx

theorem Extends.call?_eq : u.call? x = t.call? x := by
  simp only [Tree.call?, hu.form?_eq hx]

theorem Extends.identifier?_eq : u.identifier? x = t.identifier? x := by
  simp only [Tree.identifier?, hu.form?_eq hx]

theorem Extends.kind_eq : u.kind x = t.kind x := by
  simp only [Tree.kind, hu.call?_eq hx]

theorem Extends.elements_eq : u.elements x = t.elements x := by
  cases x with
  | none => rfl
  | some i => simp only [Tree.elements, Tree.list?, hu.form?_eq hx]

theorem Extends.window_eq : u.window x = t.window x := by
  simp only [Tree.window, hu.call?_eq hx]

end

theorem Extends.windowNamed?_eq (ht : t.Ordered) (hq : t.Has q) (m : NameMatcher)
    (name : String) : windowNamed? u m q name = windowNamed? t m q name := by
  have hselect : u.select q = t.select q := by simp only [Tree.select, hu.call?_eq hq]
  have hwindows : t.Has (t.select q).windows := t.select_windows q ▸ .operand ht q 6
  unfold windowNamed?
  rw [hselect, hu.elements_eq hwindows]
  refine congrArg Option.join (List.find?_congr fun w hw => ?_)
  have hname : t.Has (t.window w).name := t.window_name w ▸ .operand ht w 0
  rw [hu.window_eq (.elements ht hwindows hw), hu.identifier?_eq hname]

omit hu in
theorem exists_call?_of_windowNamed? (h : windowNamed? t m q name = some w) :
    ∃ c, t.call? (some w) = some c := by
  have hw := List.find?_some (Option.join_eq_some_iff.mp h)
  simp only [Tree.window] at hw
  cases hc : t.call? (some w) with
  | none => rw [hc] at hw; cases hw
  | some c => exact ⟨c, rfl⟩

omit hu in
theorem lt_size_of_windowNamed? (h : windowNamed? t m q name = some w) : w < t.size := by
  obtain ⟨c, hc⟩ := exists_call?_of_windowNamed? h
  exact lt_size_of_form? (form?_of_call? hc)

theorem Extends.refers_of_refers {named : String → Link} (h : t.Refers named x y) :
    u.Refers named x y := by
  cases h with
  | name hi hw =>
    have hform := hu.form? (form?_of_identifier? hi)
    exact .name (by simp only [identifier?, hform]) hw
  | base hc hk hb => exact .base (call?_of_form? (hu.form? (form?_of_call? hc))) hk hb

theorem Circular.extends {named : String → Link} (h : t.Circular named x) : u.Circular named x := by
  obtain ⟨y, hxy, hy⟩ := h
  exact ⟨y, Relation.ReflTransGen.mono (fun _ _ => hu.refers_of_refers) _ _ hxy,
    Relation.TransGen.mono (fun _ _ => hu.refers_of_refers) _ _ hy⟩

section Leads

variable (ht : t.Ordered) {named : String → Link}
    (hnamed : ∀ name w, named name = some w → w < t.size)
include ht hnamed

theorem Extends.refers (hx : t.Has x) (h : u.Refers named x y) : t.Refers named x y ∧ t.Has y := by
  have hrefers : t.Refers named x y := by
    cases h with
    | name hi hw => exact .name (hu.identifier?_eq hx ▸ hi) hw
    | base hc hk hb => exact .base (hu.call?_eq hx ▸ hc) hk hb
  obtain ⟨w, rfl, hw⟩ := lt_size_of_refers ht hnamed (.single hrefers)
  exact ⟨hrefers, .of_lt hw⟩

theorem Extends.transGen_refers (hx : t.Has x) (h : Relation.TransGen (u.Refers named) x y) :
    Relation.TransGen (t.Refers named) x y ∧ t.Has y := by
  induction h with
  | single h => exact (hu.refers ht hnamed hx h).imp_left .single
  | tail _ h ih => exact (hu.refers ht hnamed ih.2 h).imp_left ih.1.tail

theorem Extends.leads (hx : t.Has x) (h : u.Leads named x y) : t.Leads named x y ∧ t.Has y := by
  cases h with
  | part hf hq hy =>
    rw [hu.form?_eq hx] at hf
    exact ⟨.part hf (hu.kind_eq hx ▸ hq) hy, .part ht hf hy⟩
  | @operand _ c inner hc hk hinner hy =>
    rw [hu.call?_eq hx] at hc
    have hop : t.Has (c.operand 0) :=
      Call.operand_of_operands (fun y hy => .part ht (form?_of_call? hc) hy) .absent 0
    rw [hu.call?_eq hop] at hinner
    exact ⟨.operand hc hk hinner hy, .part ht (form?_of_call? hinner) hy⟩
  | @window c _ hc hk hs =>
    rw [hu.call?_eq hx] at hc
    have hop : t.Has (c.operand 1) :=
      Call.operand_of_operands (fun y hy => .part ht (form?_of_call? hc) hy) .absent 1
    exact (hu.transGen_refers ht hnamed hop hs).imp_left (.window hc hk)

theorem Extends.rank_lt (hw : t.Unwound named) (hx : t.Has x)
    (h : Relation.TransGen (u.Leads named) x y) : t.Has y ∧ t.rank named y < t.rank named x := by
  have hstep {x y} (hx : t.Has x) (h : u.Leads named x y) : t.Has y ∧
      t.rank named y < t.rank named x := by
    obtain ⟨hlead, hy⟩ := hu.leads ht hnamed hx h
    cases x with
    | none => exact absurd hlead Leads.not_none
    | some i => exact ⟨hy, rank_lt_of_leads ht hw hnamed (hx i rfl) hlead⟩
  induction h with
  | single h => exact hstep hx h
  | tail _ h ih =>
    obtain ⟨hy, hlt⟩ := hstep ih.1 h
    exact ⟨hy, Nat.lt_trans hlt ih.2⟩

end Leads

/-- In no query does a windowed call lead back to itself. -/
def WindowsEnd (t : Tree) (m : NameMatcher) : Prop :=
  ∀ q, t.kind q = .select → t.Unwound (windowNamed? t m q)

omit hu in
theorem WindowsEnd.unwound (h : t.WindowsEnd m) (ht : t.Ordered)
    (hq : ∀ i, q = some i → t.kind (some i) = .select) : t.Unwound (windowNamed? t m q) := by
  cases q with
  | none => exact ht.unwound_of_plain fun y ⟨_, _, hw, _⟩ => by cases hw
  | some i => exact h _ (hq i rfl)

end SqlAnalysis.Tree

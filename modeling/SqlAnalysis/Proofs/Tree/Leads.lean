import Mathlib.Logic.Relation
import SqlAnalysis.Tree.Parts

/-!
Where the analysis of an expression goes from a node. From most nodes it goes to their parts only,
but a windowed call also leads to the operands of its aggregate and to the windows that its window
starts from by name. Queries lead nowhere, since they are relations of their own.
-/

namespace SqlAnalysis

theorem Call.mem_operands_of_operand {c : Call} (h : c.operand k = some y) : some y ∈ c.operands :=
  List.mem_of_getElem? (Option.join_eq_some_iff.mp h)

theorem Call.operand_of_operands {A : Link → Prop} {c : Call} (h : ∀ y ∈ c.operands, A y)
    (h0 : A none) (k : Nat) : A (c.operand k) := by
  cases hk : c.operand k with
  | none => exact h0
  | some y => exact h _ (c.mem_operands_of_operand hk)

namespace Tree

variable {t : Tree}

/-- What a name or a specification of a window refers to: the window of the name, or the window that
the specification starts from. -/
inductive Refers (t : Tree) (named : String → Link) : Link → Link → Prop where
  | name {x i w} : t.identifier? x = some i → named i.last = some w → Refers t named x (some w)
  | base {x c w} : t.call? x = some c → c.kind = .window → c.operand 1 = some w →
    Refers t named x (some w)

/-- The window refers in the end to a window that refers to itself. -/
def Circular (t : Tree) (named : String → Link) (x : Link) : Prop :=
  ∃ y, Relation.ReflTransGen (t.Refers named) x y ∧ Relation.TransGen (t.Refers named) y y

/-- The nodes that the analysis of the expression at a node goes to next. -/
inductive Leads (t : Tree) (named : String → Link) : Link → Link → Prop where
  | part {x y f} : t.form? x = some f → (t.kind x).isQuery = false → y ∈ f.parts → Leads t named x y
  | operand {x y c inner} : t.call? x = some c → c.kind = .over →
    t.call? (c.operand 0) = some inner → y ∈ inner.operands → Leads t named x y
  | window {x c w} : t.call? x = some c → c.kind = .over →
    Relation.TransGen (Refers t named) (c.operand 1) w → Leads t named x w

/-- The nodes into which a rule for a node pushes types that it finds out by itself. -/
inductive Passes (t : Tree) : Link → Link → Prop where
  | operand {x y c} : t.call? x = some c → c.kind.isStatement = false →
    c.kind ≠ .naming → c.kind ≠ .descending → y ∈ c.operands → Passes t x y
  | branch {x y c k} : t.call? x = some c → c.kind = .caseOf →
    y ∈ t.elements (c.operand k) → Passes t x y
  | windowed {x y c inner} : t.call? x = some c → c.kind = .over → t.call?
    (c.operand 0) = some inner → inner.operator.expects ≠ none → y ∈ inner.operands → Passes t x y

/-- The nodes to which a node hands on what is pushed into it. -/
inductive Hands (t : Tree) : Link → Link → Prop where
  | item {x y items} : t.form? x = some (.list items) → y ∈ items → Hands t x y
  | operand {x c} : t.call? x = some c → c.kind = .naming ∨ c.kind = .descending →
    Hands t x (c.operand 0)

theorem form?_of_call? (h : t.call? x = some c) : t.form? x = some (.call c) := by
  unfold call? at h
  split at h
  · cases h; assumption
  · cases h

theorem call?_of_form? (h : t.form? x = some (.call c)) : t.call? x = some c := by
  simp only [call?, h]

theorem kind_of_call? (h : t.call? x = some c) : t.kind x = c.kind := by
  simp only [kind, h]

theorem form?_of_identifier? (h : t.identifier? x = some i) : t.form? x = some (.identifier i) := by
  unfold identifier? at h
  split at h
  · cases h; assumption
  · cases h

theorem form?_of_literal? (h : t.literal? x = some l) : t.form? x = some (.literal l) := by
  unfold literal? at h
  split at h
  · cases h; assumption
  · cases h

theorem form?_of_symbol (h : t.symbol x = name) (hname : name ≠ "") :
    t.form? x = some (.literal (.symbol name)) := by
  unfold symbol at h
  cases hl : t.literal? x with
  | none => rw [hl] at h; exact absurd h.symm hname
  | some l =>
    rw [hl] at h
    cases l with
    | symbol name' => cases h; exact form?_of_literal? hl
    | _ => exact absurd h.symm hname

theorem form?_of_list? {items : List Link} (h : t.list? x = some items) :
    t.form? x = some (.list items) := by
  unfold list? at h
  split at h
  · cases h; assumption
  · cases h

theorem kind_congr {u : Tree} (h : t.form? x = u.form? x) : t.kind x = u.kind x := by
  simp only [kind, call?, h]

theorem kind_eq_other (h : t.form? x = some f) (hf : ∀ c, f ≠ .call c) : t.kind x = .other := by
  cases f with
  | call c => exact absurd rfl (hf c)
  | _ => simp only [kind, call?, h]

theorem exists_form?_of_kind (h : t.kind x ≠ .other) : ∃ f, t.form? x = some f := by
  cases hc : t.call? x with
  | none => exact absurd (by simp only [kind, hc]) h
  | some c => exact ⟨_, form?_of_call? hc⟩

theorem Circular.next (h : t.Circular named x) : ∃ y, t.Refers named x y ∧ t.Circular named y := by
  obtain ⟨y, hxy, hy⟩ := h
  rcases Relation.ReflTransGen.cases_head hxy with rfl | ⟨z, hxz, hzy⟩
  · obtain ⟨z, hxz, hzx⟩ := Relation.TransGen.head'_iff.mp hy
    exact ⟨z, hxz, x, hzx, hy⟩
  · exact ⟨z, hxz, y, hzy, hy⟩

theorem Refers.form (h : t.Refers named x y) :
    (∃ i, t.form? x = some (.identifier i) ∧ named i.last = y ∧ y ≠ none) ∨
      ∃ c, t.form? x = some (.call c) ∧ c.kind = .window ∧ c.operand 1 = y ∧ y ≠ none := by
  cases h with
  | name hi hw => exact .inl ⟨_, form?_of_identifier? hi, hw, nofun⟩
  | base hc hk hw => exact .inr ⟨_, form?_of_call? hc, hk, hw, nofun⟩

theorem Refers.unique (hy : t.Refers named x y) (hz : t.Refers named x z) : y = z := by
  obtain ⟨i, hi, hy, _⟩ | ⟨c, hc, _, hy, _⟩ :=
    hy.form <;> obtain ⟨j, hj, hz, _⟩ | ⟨d, hd, _, hz, _⟩ := hz.form
  all_goals grind

theorem Leads.not_none : ¬ t.Leads named none y := by
  intro h
  cases h with
  | part h => cases h
  | operand h => cases h
  | window h => cases h

theorem Leads.of_mem (hc : t.call? x = some c) (hq : c.kind.isQuery = false)
    (hy : y ∈ c.operands) : t.Leads named x y :=
  .part (form?_of_call? hc) (kind_of_call? hc ▸ hq) hy

theorem Leads.of_mem_list {items : List Link} (hl : t.list? x = some items) (hy : y ∈ items) :
    t.Leads named x y :=
  .part (form?_of_list? hl) (by rw [kind_eq_other (form?_of_list? hl) fun _ => nofun]; rfl) hy

theorem eq_or_mem_of_mem_elements (hy : y ∈ t.elements x) :
    y = x ∨ ∃ items, t.list? x = some items ∧ y ∈ items := by
  cases x with
  | none => cases hy
  | some i =>
    simp only [elements] at hy
    cases hl : t.list? (some i) with
    | none => rw [hl] at hy; exact .inl (List.mem_singleton.mp hy)
    | some items => rw [hl] at hy; exact .inr ⟨items, rfl, hy⟩

theorem transGen_of_mem_elements {c : Call} (hc : t.call? x = some c) (hq : c.kind.isQuery = false)
    (hy : y ∈ t.elements (c.operand k)) : Relation.TransGen (t.Leads named) x y := by
  cases hk : c.operand k with
  | none =>
    rw [hk] at hy
    cases hy
  | some j =>
    have hj : t.Leads named x (some j) := .of_mem hc hq (c.mem_operands_of_operand hk)
    rw [hk] at hy
    obtain rfl | ⟨items, hl, hy⟩ := eq_or_mem_of_mem_elements hy
    · exact .single hj
    · exact .tail (.single hj) (.of_mem_list hl hy)

theorem Passes.transGen (h : t.Passes x y) : Relation.TransGen (t.Leads named) x y := by
  cases h with
  | operand hc hk _ _ hy => exact .single (.of_mem hc (Bool.or_eq_false_iff.mp hk).1 hy)
  | branch hc hk hy => exact transGen_of_mem_elements hc (by rw [hk]; rfl) hy
  | windowed hc hk hi _ hy => exact .single (.operand hc hk hi hy)

theorem Hands.transGen (h : t.Hands x (some i)) : Relation.TransGen (t.Leads named) x (some i) := by
  generalize hy : some i = y at h
  cases h with
  | item hf hmem => exact .single (.part hf (by rw [kind_eq_other hf fun _ => nofun]; rfl) hmem)
  | operand hc hk =>
    refine .single (.of_mem hc ?_ (hy ▸ Call.mem_operands_of_operand hy.symm))
    obtain hk | hk := hk <;> rw [hk] <;> rfl

section Parts

variable (t : Tree) (x : Link)

theorem select_list : (t.select x).list = t.operand x 1 := by
  unfold select operand; cases t.call? x <;> rfl

theorem select_source : (t.select x).source = t.operand x 2 := by
  unfold select operand; cases t.call? x <;> rfl

theorem select_condition : (t.select x).condition = t.operand x 3 := by
  unfold select operand; cases t.call? x <;> rfl

theorem select_groups : (t.select x).groups = t.operand x 4 := by
  unfold select operand; cases t.call? x <;> rfl

theorem select_having : (t.select x).having = t.operand x 5 := by
  unfold select operand; cases t.call? x <;> rfl

theorem select_windows : (t.select x).windows = t.operand x 6 := by
  unfold select operand; cases t.call? x <;> rfl

theorem select_order : (t.select x).order = t.operand x 7 := by
  unfold select operand; cases t.call? x <;> rfl

theorem window_name : (t.window x).name = t.operand x 0 := by
  unfold window operand; cases t.call? x <;> rfl

end Parts

theorem exists_leads_of_transGen (h : Relation.TransGen (t.Leads named) x y) :
    ∃ z, t.Leads named x z := by
  induction h with
  | single h => exact ⟨_, h⟩
  | tail _ _ ih => exact ih

theorem not_transGen_none : ¬ Relation.TransGen (t.Leads named) none y := fun h =>
  (exists_leads_of_transGen h).elim fun _ => Leads.not_none

end Tree

end SqlAnalysis

import SqlAnalysis.Proofs.Tree.Leads

/-!
The parts of nodes, and the nodes below a node. A tree is ordered if every node comes after its
parts; what is below a node of an ordered tree then has a smaller place than the node.
-/

namespace SqlAnalysis.Tree

variable {t : Tree}

/-- `y` is a part of the node `x`. -/
def Part (t : Tree) (x y : Link) : Prop := ∃ f, t.form? x = some f ∧ y ∈ f.parts

/-- `y` hangs under the node `x`. -/
abbrev Below (t : Tree) : Link → Link → Prop := Relation.TransGen t.Part

/-- The node `j` is `x` or hangs under it. -/
abbrev Spans (t : Tree) (x : Link) (j : NodeId) : Prop := Relation.ReflTransGen t.Part x (some j)

/-- Every node comes after its parts. -/
def Ordered (t : Tree) : Prop := ∀ i j : NodeId, t.Part (some i) (some j) → j < i

theorem Part.of_operands (hc : t.call? x = some c) (hy : y ∈ c.operands) : t.Part x y :=
  ⟨.call c, form?_of_call? hc, hy⟩

theorem Part.of_list {items : List Link} (hl : t.list? x = some items) (hy : y ∈ items) :
    t.Part x y :=
  ⟨.list items, form?_of_list? hl, hy⟩

theorem lt_size_of_form? (h : t.form? (some i) = some f) : i < t.size := by
  obtain ⟨n, hn, _⟩ := Option.map_eq_some_iff.mp h
  exact (Array.getElem?_eq_some_iff.mp hn).1

theorem not_part_none : ¬ t.Part none y := by
  rintro ⟨f, hf, _⟩
  cases hf

theorem part_of_mem_children (h : j ∈ t.children (some i)) : t.Part (some i) (some j) := by
  unfold children at h
  split at h
  · rename_i f hf
    obtain ⟨y, hy, hj⟩ := List.mem_filterMap.mp h
    exact ⟨f, hf, hj ▸ hy⟩
  · cases h

theorem reflTransGen_of_mem_preorderUpTo
    (h : n ∈ t.preorderUpTo enter depth i) : t.Spans (some i) n := by
  induction depth generalizing i with
  | zero => cases h
  | succ depth ih =>
    rw [preorderUpTo] at h
    cases h with
    | head => exact .refl
    | tail _ h =>
      split at h
      · obtain ⟨j, hj, hn⟩ := List.mem_flatMap.mp h
        exact .head (part_of_mem_children hj) (ih hn)
      · cases h

theorem reflTransGen_of_mem_preorderWhere (h : n ∈ t.preorderWhere enter x) : t.Spans x n := by
  cases x with
  | none => cases h
  | some i => exact reflTransGen_of_mem_preorderUpTo h

theorem reflTransGen_of_mem_elements (h : y ∈ t.elements x) : Relation.ReflTransGen t.Part x y := by
  obtain rfl | ⟨items, hl, hy⟩ := eq_or_mem_of_mem_elements h
  · exact .refl
  · exact .single (.of_list hl hy)

theorem operand_of_below {A : Link → Prop} (hc : t.call? x = some c)
    (hx : ∀ y, t.Below x y → A y) (h0 : A none) (k : Nat) : A (c.operand k) :=
  c.operand_of_operands (fun _ hy => hx _ (.single (.of_operands hc hy))) h0 k

theorem Below.of_operand (hc : t.call? x = some c) (h : t.Below (c.operand k) y) : t.Below x y := by
  cases hk : c.operand k with
  | none =>
    rw [hk] at h
    obtain ⟨z, hz, _⟩ := Relation.TransGen.head'_iff.mp h
    exact absurd hz not_part_none
  | some j => exact .head (.of_operands hc (c.mem_operands_of_operand hk)) (hk ▸ h)

theorem below_of_operand (hc : t.call? x = some c) (h : t.Spans (c.operand k) n) :
    t.Below x (some n) := by
  cases hk : c.operand k with
  | none =>
    rw [hk] at h
    rcases Relation.ReflTransGen.cases_head h with h | ⟨y, hy, _⟩
    · cases h
    · exact absurd hy not_part_none
  | some y =>
    rw [hk] at h
    exact .head' (.of_operands hc (c.mem_operands_of_operand hk)) h

theorem Ordered.lt_of_below (ht : t.Ordered) (h : t.Below (some i) (some j)) : j < i := by
  have hbelow {y} (h : t.Below (some i) y) : ∀ j, y = some j → j < i := by
    induction h with
    | single h =>
      rintro j rfl
      exact ht i j h
    | @tail y z _ h ih =>
      rintro j rfl
      cases y with
      | none => exact absurd h not_part_none
      | some k => exact Nat.lt_trans (ht k j h) (ih k rfl)
  exact hbelow h j rfl

/-- What is there at `x` is a node of the tree. -/
def Has (t : Tree) (x : Link) : Prop := ∀ i, x = some i → i < t.size

theorem Has.absent : t.Has none := nofun

theorem Has.of_lt (hi : i < t.size) : t.Has (some i) := fun _ h => Option.some.inj h ▸ hi

theorem Has.of_form? (h : t.form? x = some f) : t.Has x := by
  rintro i rfl
  exact lt_size_of_form? h

theorem Has.exists_form? (h : t.Has (some i)) : ∃ f, t.form? (some i) = some f :=
  ⟨_, congrArg (Option.map Node.form) (Array.getElem?_eq_getElem (h i rfl))⟩

theorem Has.part (ht : t.Ordered) (hf : t.form? x = some f) (hy : y ∈ f.parts) : t.Has y := by
  rintro j rfl
  cases x with
  | none => cases hf
  | some i => exact Nat.lt_trans (ht i j ⟨f, hf, hy⟩) (lt_size_of_form? hf)

theorem Has.operand (ht : t.Ordered) (x : Link) (k : Nat) : t.Has (t.operand x k) := by
  unfold Tree.operand
  cases hc : t.call? x with
  | none => exact .absent
  | some c => exact c.operand_of_operands (fun y hy => .part ht (form?_of_call? hc) hy) .absent k

theorem Has.elements (ht : t.Ordered) (hx : t.Has x) (hy : y ∈ t.elements x) : t.Has y := by
  obtain rfl | ⟨items, hl, hy⟩ := eq_or_mem_of_mem_elements hy
  · exact hx
  · exact .part ht (form?_of_list? hl) hy

end SqlAnalysis.Tree

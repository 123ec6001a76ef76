import SqlAnalysis.Proofs.Tree.Order

/-!
What a query selects from. A `FROM` clause is a tree of joins over relations, each of which may be
named or lateral. `Item` reaches the nodes of such a tree and stops at the relations; a tree is
`Unshared` if no node is an item of two queries or of both sides of a join.
-/

namespace SqlAnalysis

/-- A tree of joins over relations. -/
inductive JoinTree where
  | relation (node : NodeId)
  | join (node : NodeId) (type : JoinType) (left right : JoinTree)
deriving DecidableEq

namespace JoinTree

/-- The relations from left to right, each with whether some join around it may lack a match for
it. -/
def leaves : JoinTree → List (NodeId × Bool)
  | .relation i => [(i, false)]
  | .join _ type l r =>
    (l.leaves.map fun p => (p.1, p.2 || type.leftNullable)) ++
      r.leaves.map fun p => (p.1, p.2 || type.rightNullable)

/-- The relations as they are below a join that may lack a match for all of them. -/
def leavesUnder (nullable : Bool) (src : JoinTree) : List (NodeId × Bool) :=
  src.leaves.map fun p => (p.1, p.2 || nullable)

theorem leavesUnder_false (src : JoinTree) : src.leavesUnder false = src.leaves := by
  simp [leavesUnder]

theorem leavesUnder_relation : (relation i).leavesUnder nullable = [(i, nullable)] := by
  simp [leavesUnder, leaves]

theorem leavesUnder_join :
    (join i type l r).leavesUnder nullable = l.leavesUnder (nullable || type.leftNullable) ++
      r.leavesUnder (nullable || type.rightNullable) := by
  simp only [leavesUnder, leaves, List.map_append, List.map_map, Function.comp_def,
    Bool.or_assoc, Bool.or_comm nullable]

end JoinTree

/-- Calls that give a relation wherever they stand in a `FROM` clause. -/
def Kind.givesRows : Kind → Bool
  | .select | .union | .except | .intersect | .values | .unnest => true
  | _ => false

theorem Kind.not_isUpdate_of_givesRows {k : Kind} (h : k.givesRows) : ¬ k.isUpdate := by
  revert h
  cases k <;> decide

namespace Tree

variable {t : Tree}

/-- The item `x` is the relation `i`, which may be named or lateral. -/
inductive Presents (t : Tree) : Link → NodeId → Prop where
  | table {i : NodeId} {name : Identifier} : t.identifier? (some i) = some name →
    Presents t (some i) i
  | query {i : NodeId} {c : Call} : t.call? (some i) = some c → c.kind.givesRows →
    Presents t (some i) i
  | under {k i : NodeId} {c : Call} : t.call? (some k) = some c → c.kind = .naming ∨
    c.kind = .lateral → Presents t (c.operand 0) i → Presents t (some k) i

/-- The item `x` is that tree of joins. -/
inductive Joins (t : Tree) : Link → JoinTree → Prop where
  | relation {x : Link} {i : NodeId} : t.Presents x i → Joins t x (.relation i)
  | join {k : NodeId} {c : Call} {l r : JoinTree} : t.call? (some k) = some c →
    c.kind = .join → Joins t (c.operand 0) l → Joins t (c.operand 3) r →
    Joins t (some k) (.join k (t.joinType (.ofCall c)) l r)

/-- `y` is the item `x` or one of the items that `x` consists of. -/
inductive Item (t : Tree) : Link → Link → Prop where
  | refl (x : Link) : Item t x x
  | under {x y : Link} {c : Call} : t.call? x = some c → c.kind = .naming ∨
    c.kind = .lateral → Item t (c.operand 0) y → Item t x y
  | left {x y : Link} {c : Call} : t.call? x = some c → c.kind = .join →
    Item t (c.operand 0) y → Item t x y
  | right {x y : Link} {c : Call} : t.call? x = some c → c.kind = .join →
    Item t (c.operand 3) y → Item t x y

/-- The query `q` selects from the item `y`. -/
def Draws (t : Tree) (q : NodeId) (y : Link) : Prop :=
  ∃ c, t.call? (some q) = some c ∧ c.kind = .select ∧ t.Item (c.operand 2) y

/-- Among the nodes that `root` leads to, a node is an item of one query only and on one side of a
join only, and a table that is changed is no item. -/
structure Unshared (t : Tree) (root : Link) : Prop where
  query : ∀ q q' k, t.Spans root q → t.Spans root q' →
    t.Draws q (some k) → t.Draws q' (some k) → q = q'
  side : ∀ j c k, t.Spans root j → t.call? (some j) = some c → c.kind = .join →
    t.Item (c.operand 0) (some k) → ¬ t.Item (c.operand 3) (some k)
  target : ∀ d c k q, t.Spans root d → t.Spans root q →
    t.call? (some d) = some c → c.kind.isUpdate → c.operand 0 = some k → ¬ t.Draws q (some k)

theorem Item.trans (h : t.Item x y) (h' : t.Item y z) : t.Item x z := by
  induction h with
  | refl => exact h'
  | under hc hk _ ih => exact .under hc hk (ih h')
  | left hc hk _ ih => exact .left hc hk (ih h')
  | right hc hk _ ih => exact .right hc hk (ih h')

theorem Item.reaches (h : t.Item x (some j)) : t.Spans x j := by
  generalize hy : some j = y at h
  induction h with
  | refl => exact hy ▸ .refl
  | under hc _ _ ih | left hc _ _ ih | right hc _ _ ih =>
    subst hy
    exact (below_of_operand hc (ih rfl)).to_reflTransGen

theorem Draws.item (h : t.Draws q x) (h' : t.Item x y) : t.Draws q y := by
  obtain ⟨c, hc, hk, hx⟩ := h
  exact ⟨c, hc, hk, hx.trans h'⟩

theorem Presents.item (h : t.Presents x i) : t.Item x (some i) := by
  induction h with
  | table | query => exact .refl _
  | under hc hk _ ih => exact .under hc hk ih

theorem not_presents_join (hc : t.call? (some j) = some c) (hk : c.kind = .join) :
    ¬ t.Presents (some j) i := by
  intro h
  cases h with
  | table hi => rw [identifier?, form?_of_call? hc] at hi; cases hi
  | query hc' hrows =>
    cases hc.symm.trans hc'
    rw [hk] at hrows
    cases hrows
  | under hc' hk' =>
    cases hc.symm.trans hc'
    rcases hk' with hk' | hk' <;> cases hk.symm.trans hk'

theorem Presents.of_under (hc : t.call? (some j) = some c)
    (hk : c.kind = .naming ∨ c.kind = .lateral) (h : t.Presents (some j) i) :
    t.Presents (c.operand 0) i := by
  cases h with
  | table hi => rw [identifier?, form?_of_call? hc] at hi; cases hi
  | query hc' hrows =>
    cases hc.symm.trans hc'
    rcases hk with hk | hk <;> rw [hk] at hrows <;> cases hrows
  | under hc' _ h =>
    cases hc.symm.trans hc'
    exact h

theorem Joins.of_under (hc : t.call? (some j) = some c) (hk : c.kind = .naming ∨ c.kind = .lateral)
    (h : t.Joins (some j) src) : ∃ i, src = .relation i ∧ t.Presents (c.operand 0) i := by
  cases h with
  | join hc' hk' =>
    cases hc.symm.trans hc'
    rcases hk with hk | hk <;> cases hk.symm.trans hk'
  | relation h => exact ⟨_, rfl, h.of_under hc hk⟩

theorem Joins.isSome (h : t.Joins x src) : x.isSome := by
  cases h with
  | relation h => cases h <;> rfl
  | join => rfl

theorem Presents.unique (h : t.Presents x i) (h' : t.Presents x j) : i = j := by
  induction h with
  | table hi =>
    cases h' with
    | table | query => rfl
    | under hc => rw [identifier?, form?_of_call? hc] at hi; cases hi
  | @query i c hc hk =>
    cases h' with
    | table | query => rfl
    | under hc' hk' =>
      cases hc.symm.trans hc'
      rcases hk' with hk' | hk' <;> rw [hk'] at hk <;> cases hk
  | under hc hk _ ih => exact ih (h'.of_under hc hk)

/-- The relation that an item presents, looked for up to a depth. -/
def presented? (t : Tree) : Nat → Link → Link
  | 0, _ => none
  | depth + 1, x =>
    match x, t.form? x with
    | some i, some (.identifier _) => some i
    | some i, some (.call c) =>
      if c.kind.givesRows then some i
      else if c.kind = .naming ∨ c.kind = .lateral then t.presented? depth (c.operand 0)
      else none
    | _, _ => none

/-- The tree of joins that an item is, looked for up to a depth. -/
def joinTree? (t : Tree) : Nat → Link → Option JoinTree
  | 0, _ => none
  | depth + 1, x =>
    match x, t.call? x with
    | some k, some c =>
      if c.kind = .join then do
        return .join k (t.joinType (.ofCall c)) (← t.joinTree? depth (c.operand 0))
          (← t.joinTree? depth (c.operand 3))
      else (t.presented? depth x).map .relation
    | _, _ => (t.presented? depth x).map .relation

theorem presents_of_presented? (h : t.presented? depth x = some i) : t.Presents x i := by
  induction depth generalizing x with
  | zero => cases h
  | succ depth ih =>
    unfold presented? at h
    split at h
    · rename_i name hf
      cases h
      exact .table (by rw [identifier?, hf])
    · rename_i c hf
      split at h
      · cases h
        exact .query (call?_of_form? hf) ‹_›
      · split at h
        · exact .under (call?_of_form? hf) ‹_› (ih h)
        · cases h
    · cases h

theorem joins_of_joinTree? (h : t.joinTree? depth x = some src) : t.Joins x src := by
  induction depth generalizing x src with
  | zero => cases h
  | succ depth ih =>
    have hrelation (h : (t.presented? depth x).map JoinTree.relation = some src) : t.Joins
        x src := by
      obtain ⟨i, hi, rfl⟩ := Option.map_eq_some_iff.mp h
      exact .relation (presents_of_presented? hi)
    unfold joinTree? at h
    split at h
    · rename_i k c hc
      split at h
      · obtain ⟨l, hl, h⟩ := Option.bind_eq_some_iff.mp h
        obtain ⟨r, hr, h⟩ := Option.bind_eq_some_iff.mp h
        cases h
        exact .join hc ‹_› (ih hl) (ih hr)
      · exact hrelation h
    · exact hrelation h

end Tree

end SqlAnalysis

import Mathlib.Data.List.MinMax
import SqlAnalysis.Proofs.Tree.Branching

/-!
Trees whose nodes stand in a text, each inside the node that it is a part of and beside the other
parts. Nodes of such a tree that are over one place of the text lie in each other, and the narrowest
of them is the innermost.
-/

namespace SqlAnalysis.Tree

variable {t : Tree}

def Beside (t : Tree) (x y : Link) : Prop :=
  ∀ p q, t.span? x = some p → t.span? y = some q → p.last ≤ q.first ∨ q.last ≤ p.first

instance : Std.Symm t.Beside := ⟨fun _ _ h p q hp hq => (h q p hq hp).symm⟩

/-- Every node has a place, with the parts of the node inside it and beside each other. -/
structure Nests (t : Tree) : Prop where
  placed : ∀ {i}, i < t.size → ∃ p, t.span? (some i) = some p ∧ p.first < p.last
  inside : ∀ {x y p q}, t.Part x y → t.span? x = some p → t.span? y = some q →
    p.first < q.first ∧ q.last < p.last
  beside : ∀ {x f}, t.form? x = some f → f.parts.Pairwise t.Beside

/-- Nodes that start after the place `k` and stand beside each other. -/
structure Row (t : Tree) (k : Nat) (xs : List Link) : Prop where
  has : ∀ x ∈ xs, t.Has x
  first : ∀ x ∈ xs, ∀ p, t.span? x = some p → k < p.first
  beside : xs.Pairwise t.Beside

theorem Extends.span?_eq (hu : t.Extends u) (hx : t.Has x) : u.span? x = t.span? x := by
  cases x with
  | none => rfl
  | some i =>
    obtain ⟨n, hn⟩ : ∃ n, t.nodes[i]? = some n := ⟨_, Array.getElem?_eq_getElem (hx i rfl)⟩
    simp only [Tree.span?, Tree.node?, Option.bind_some, hn, hu i n hn]

theorem span?_add (t : Tree) (n : Node) : (t.add n).2.span? (some t.size) = n.span := by
  rw [span?, show (t.add n).2.node? (some t.size) = some n from Array.getElem?_push_size]
  rfl

theorem Has.of_span? (h : t.span? x = some p) : t.Has x := by
  rintro i rfl
  obtain ⟨n, hn, _⟩ := Option.bind_eq_some_iff.mp h
  exact (Array.getElem?_eq_some_iff.mp hn).1

theorem Row.among (h : t.Row k xs) (hys : Among ys xs) : t.Row k ys := by
  have hmem {y : Link} (hy : y ∈ ys) {A : Link → Prop} (hnone : A none)
      (hA : ∀ x ∈ xs, A x) : A y := by
    obtain rfl | hy := hys.mem hy
    · exact hnone
    · exact hA y hy
  exact ⟨fun y hy => hmem hy .absent h.has, fun y hy => hmem (A := fun y => ∀ p, t.span?
    y = some p → k < p.first) hy nofun h.first, hys.pairwise (fun h => symm h) nofun h.beside⟩

theorem Row.snoc (hu : t.Extends u) (h : t.Row k xs) (hy : u.Has y)
    (hk : k < stop) (hends : ∀ i p, t.span? (some i) = some p → p.last ≤ stop)
    (hfirst : ∀ p, u.span? y = some p → stop ≤ p.first) : u.Row k (xs ++ [y]) := by
  have hspan {x : Link} (hx : x ∈ xs) : u.span? x = t.span? x := hu.span?_eq (h.has x hx)
  refine ⟨List.forall_mem_append.mpr ⟨fun x hx => (h.has x hx).mono hu,
    List.forall_mem_singleton.mpr hy⟩,
    List.forall_mem_append.mpr ⟨fun x hx p hp => h.first x hx p (hspan hx ▸ hp),
      List.forall_mem_singleton.mpr fun p hp => ?_⟩,
    List.pairwise_append.mpr ⟨h.beside.imp_of_mem fun hx hx' hb p q hp hq => ?_,
      List.pairwise_singleton _ _, fun x hx y' hy' p q hp hq => .inl ?_⟩⟩
  · exact hk.trans_le (hfirst p hp)
  · exact hb p q (hspan hx ▸ hp) (hspan hx' ▸ hq)
  · obtain rfl := List.mem_singleton.mp hy'
    rw [hspan hx] at hp
    cases x with
    | none => cases hp
    | some i => exact (hends i p hp).trans (hfirst q hq)

theorem Nests.add (ht : t.Ordered) (h : t.Nests) (hspan : n.span = some p)
    (hlt : p.first < p.last) (hrow : t.Row p.first n.form.parts)
    (hlast : ∀ y ∈ n.form.parts, ∀ q, t.span? y = some q → q.last < p.last) :
    (t.add n).2.Nests := by
  have hold {y : Link} (hy : t.Has y) : (t.add n).2.span? y = t.span? y :=
    (Extends.add t n).span?_eq hy
  have hnew : (t.add n).2.span? (some t.size) = some p := (t.span?_add n).trans hspan
  have hparts {xs : List Link} (hxs : ∀ x ∈ xs, t.Has x) (hb : xs.Pairwise t.Beside) : xs.Pairwise
      (t.add n).2.Beside :=
    hb.imp_of_mem fun hx hy hb p q hp hq => hb p q (hold (hxs _ hx) ▸ hp) (hold (hxs _ hy) ▸ hq)
  refine ⟨fun {i} hi => ?_, fun {x y p' q} ⟨f, hf, hy⟩ hp hq => ?_, fun {x f} hf => ?_⟩
  · rcases Nat.lt_succ_iff_lt_or_eq.mp ((Array.size_push n).subst hi : i < t.size + 1) with hi | rfl
    · rw [hold (.of_lt hi)]
      exact h.placed hi
    · exact ⟨p, hnew, hlt⟩
  · cases x with
    | none => cases hf
    | some i =>
      obtain hf | ⟨rfl, rfl⟩ := form?_add_cases hf
      · rw [hold (.of_form? hf)] at hp
        rw [hold (.part ht hf hy)] at hq
        exact h.inside ⟨f, hf, hy⟩ hp hq
      · cases hp.symm.trans hnew
        rw [hold (hrow.has y hy)] at hq
        exact ⟨hrow.first y hy q hq, hlast y hy q hq⟩
  · cases x with
    | none => cases hf
    | some i =>
      obtain hf | ⟨rfl, rfl⟩ := form?_add_cases hf
      · exact hparts (fun y hy => .part ht hf hy) (h.beside hf)
      · exact hparts hrow.has hrow.beside

section Nests

variable (ht : t.Ordered) (hn : t.Nests)
include ht hn

theorem Nests.within (hj : t.Spans x j) (hp : t.span? x = some p) (hq : t.span? (some j) = some q) :
    p.first ≤ q.first ∧ q.last ≤ p.last := by
  induction hj using Relation.ReflTransGen.head_induction_on generalizing p with
  | refl =>
    cases hp.symm.trans hq
    exact ⟨Nat.le_refl _, Nat.le_refl _⟩
  | @head x y hxy hyj ih =>
    cases y with
    | none => exact absurd hyj not_spans_none
    | some m =>
      obtain ⟨f, hf, hm⟩ := hxy
      obtain ⟨r, hr, _⟩ := hn.placed (Has.part ht hf hm m rfl)
      have := hn.inside ⟨f, hf, hm⟩ hp hr
      have := ih hr
      omega

theorem Nests.apart (hx : t.Has x) (hy : t.Has y) (h : t.Beside x y) : t.Apart x y := by
  intro j hj hj'
  cases x with
  | none => exact not_spans_none hj
  | some a =>
    cases y with
    | none => exact not_spans_none hj'
    | some b =>
      obtain ⟨p, hp, _⟩ := hn.placed (hx a rfl)
      obtain ⟨q, hq, _⟩ := hn.placed (hy b rfl)
      obtain ⟨r, hr, hlt⟩ := hn.placed (hx.spans ht hj)
      have := hn.within ht hj hp hr
      have := hn.within ht hj' hq hr
      have := h p q hp hq
      omega

end Nests

/-! ### The innermost node over a place -/

def Over (t : Tree) (pos : Int) (i : NodeId) : Prop :=
  ∃ p, t.span? (some i) = some p ∧ p.contains pos

/-- Of the nodes under `root` that are over the place, the deepest. -/
structure Innermost (t : Tree) (root : Link) (pos : Int) (i : NodeId) : Prop where
  reached : t.Spans root i
  covers : t.Over pos i
  deepest : ∀ j, t.Spans root j → t.Over pos j → t.Spans (some j) i

theorem Nests.spans_or_spans (ht : t.Ordered) (hn : t.Nests) (hi : t.Spans x i) (hj : t.Spans x j)
    (hoi : t.Over pos i) (hoj : t.Over pos j) : t.Spans (some i) j ∨ t.Spans (some j) i := by
  cases x with
  | none => exact absurd hi not_spans_none
  | some r =>
    induction r using Nat.strongRecOn with
    | _ r ih =>
      rcases spans_cases hi with rfl | ⟨y, ⟨f, hf, hy⟩, hyi⟩
      · exact .inl hj
      rcases spans_cases hj with rfl | ⟨y', ⟨f', hf', hy'⟩, hyj⟩
      · exact .inr hi
      cases hf.symm.trans hf'
      cases y with
      | none => exact absurd hyi not_spans_none
      | some m =>
        cases y' with
        | none => exact absurd hyj not_spans_none
        | some m' =>
          by_cases hne : m = m'
          · subst hne
            exact ih m (ht r m ⟨f, hf, hy⟩) hyi hyj
          -- two parts are not over the same place
          obtain ⟨p, hp, hpos⟩ := hoi
          obtain ⟨q, hq, hpos'⟩ := hoj
          obtain ⟨p', hp', _⟩ := hn.placed (Has.part ht hf hy m rfl)
          obtain ⟨q', hq', _⟩ := hn.placed (Has.part ht hf hy' m' rfl)
          have := (hn.beside hf).forall hy hy' (fun h => hne (Option.some.inj h)) p' q' hp' hq'
          have := hn.within ht hyi hp' hp
          have := hn.within ht hyj hq' hq
          simp only [Span.contains, Bool.and_eq_true, decide_eq_true_eq] at hpos hpos'
          omega

def spansAt (t : Tree) (pos : Int) : List (NodeId × Span) :=
  t.nodes.toList.zipIdx.filterMap fun a => a.1.span.bind fun s =>
    if s.contains pos then some (a.2, s) else none

theorem mem_spansAt : (i, p) ∈ t.spansAt pos ↔ t.span? (some i) = some p ∧ p.contains pos := by
  have hfound {o : Option Span} {id : NodeId} :
      (o.bind fun s => if s.contains pos then some (id, s) else none) = some (i, p) ↔
        id = i ∧ o = some p ∧ p.contains pos := by
    cases o <;> grind
  have hspan : t.span? (some i) = some p ↔ ∃ n, t.nodes.toList[i]? = some n ∧ n.span = some p := by
    rw [Array.getElem?_toList]
    exact Option.bind_eq_some_iff
  simp only [spansAt, List.mem_filterMap, Prod.exists, List.mem_zipIdx_iff_getElem?, hfound, hspan]
  grind

/-- The search goes over the nodes over the place, by their width. -/
theorem nodeAt_search (t : Tree) (pos : Int) :
    (t.nodeAt pos = none → t.spansAt pos = []) ∧ ∀ i, t.nodeAt pos = some i →
      ∃ p, (i, p) ∈ t.spansAt pos ∧ ∀ a ∈ t.spansAt pos, p.width ≤ a.2.width := by
  have heq : t.nodeAt pos = ((t.spansAt pos).argmin fun a => a.2.width).map Prod.fst := by
    refine congrArg (Option.map Prod.fst) (congrArg (List.foldl · none _) ?_)
    funext best next
    cases best <;> rfl
  rw [heq]
  refine ⟨fun h => List.argmin_eq_none.mp (Option.map_eq_none_iff.mp h), fun i h => ?_⟩
  obtain ⟨⟨_, p⟩, hmin, rfl⟩ := Option.map_eq_some_iff.mp h
  exact ⟨p, List.argmin_mem hmin, fun a ha =>
    List.le_of_mem_argmin (f := fun a => a.2.width) ha hmin⟩

theorem nodeAt_eq_none (h : t.nodeAt pos = none) : ¬ t.Over pos i := by
  rintro ⟨p, hp, hpos⟩
  have := (t.nodeAt_search pos).1 h ▸ mem_spansAt.mpr ⟨hp, hpos⟩
  exact absurd this List.not_mem_nil

theorem nodeAt_eq_some (h : t.nodeAt pos = some i) :
    ∃ p, (t.span? (some i) = some p ∧ p.contains pos) ∧
      ∀ j q, t.span? (some j) = some q → q.contains pos → p.width ≤ q.width := by
  obtain ⟨p, hp, hmin⟩ := (t.nodeAt_search pos).2 i h
  exact ⟨p, mem_spansAt.mp hp, fun j q hq hpos => hmin (j, q) (mem_spansAt.mpr ⟨hq, hpos⟩)⟩

theorem Nests.nodeAt_iff (ht : t.Ordered)
    (hn : t.Nests) (hroot : ∀ j, j < t.size → t.Spans root j) :
    t.nodeAt pos = some i ↔ t.Innermost root pos i := by
  have hfind {i : NodeId} (h : t.nodeAt pos = some i) : t.Innermost root pos i := by
    obtain ⟨p, ⟨hp, hpos⟩, hmin⟩ := nodeAt_eq_some h
    have hi := hroot i (Has.of_span? hp i rfl)
    refine ⟨hi, ⟨p, hp, hpos⟩, fun j hj hover => ?_⟩
    rcases hn.spans_or_spans ht hi hj ⟨p, hp, hpos⟩ hover with hij | hji
    · rcases spans_cases hij with rfl | ⟨y, hy, hyj⟩
      · exact .refl
      · -- a node under a part is narrower
        obtain ⟨q, hq, hpos'⟩ := hover
        cases y with
        | none => exact absurd hyj not_spans_none
        | some m =>
          obtain ⟨f, hf, hm⟩ := hy
          obtain ⟨r, hr, _⟩ := hn.placed (Has.part ht hf hm m rfl)
          have := hn.inside ⟨f, hf, hm⟩ hp hr
          have := hn.within ht hyj hr hq
          have := hmin j q hq hpos'
          simp only [Span.width] at this
          omega
    · exact hji
  refine ⟨hfind, fun h => ?_⟩
  cases hat : t.nodeAt pos with
  | none => exact absurd h.covers (nodeAt_eq_none hat)
  | some j =>
    have hj := hfind hat
    exact congrArg some (Nat.le_antisymm (ht.le_of_spans (hj.deepest i h.reached h.covers))
      (ht.le_of_spans (h.deepest j hj.reached hj.covers)))

end SqlAnalysis.Tree

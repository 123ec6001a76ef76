import Mathlib.Data.List.Pairwise
import SqlAnalysis.Proofs.Tree.Building
import SqlAnalysis.Proofs.Tree.JoinTree

/-!
Trees in which no two nodes have a part in common. A node branches if nothing is under two of its
parts; a statement that changes a table is the exception, since the query for its rows has parts of
the statement itself. Where every node branches, a node is a part in one place only.
-/

namespace SqlAnalysis

/-- Each node is among `ys` no more often than among `xs`; absent nodes do not count. -/
def Among (ys xs : List Link) : Prop := ∀ i : NodeId, ys.count (some i) ≤ xs.count (some i)

theorem Among.mem (h : Among ys xs) (hy : y ∈ ys) : y = none ∨ y ∈ xs := by
  cases y with
  | none => exact .inl rfl
  | some i => exact .inr (List.count_pos_iff.mp ((List.count_pos_iff.mpr hy).trans_le (h i)))

theorem Among.pairwise (hsymm : ∀ {x y}, R x y → R y x) (hnone : ∀ {x}, R none x)
    (h : Among ys xs) (hxs : xs.Pairwise R) : ys.Pairwise R := by
  induction ys generalizing xs with
  | nil => exact .nil
  | cons y ys ih =>
    cases y with
    | none =>
      refine .cons (fun _ _ => hnone) (ih (fun i => ?_) hxs)
      rw [← List.count_cons_of_ne (nofun : none ≠ some i)]
      exact h i
    | some i =>
      obtain hnone | hmem := h.mem List.mem_cons_self
      · cases hnone
      obtain ⟨hi, hxs⟩ :=
        List.pairwise_cons.mp (((List.perm_cons_erase hmem).pairwise_iff hsymm).mp hxs)
      have hrest : Among ys (xs.erase (some i)) := by
        intro j
        have := h j
        rw [List.count_cons] at this
        rw [List.count_erase]
        omega
      exact .cons (fun z hz => (hrest.mem hz).elim (fun h => h ▸ hsymm hnone) (hi z)) (ih hrest hxs)

theorem Among.of_perm (h : ys.Perm xs) : Among ys xs := fun _ => (h.count_eq _).le

theorem Among.set (v : Link) (rest out : List Link) (k : Nat) :
    Among (out.set k v ++ rest) (out ++ v :: rest) := by
  intro i
  induction out generalizing k with
  | nil => grind
  | cons x out ih => cases k <;> grind

namespace Tree

variable {t : Tree} {k : Nat} {xs : List Link}

def Apart (t : Tree) (x y : Link) : Prop := ∀ j, t.Spans x j → ¬ t.Spans y j

def Holds (t : Tree) (i : NodeId) (k : Nat) (y : Link) : Prop :=
  ∃ f, t.form? (some i) = some f ∧ f.parts[k]? = some y

/-- The parts that are `kept` have nothing in common, and the calls under the node are under them.
They are all parts of a node in their places; only a statement that changes a table may leave out
parts other than the first. -/
structure Branches (t : Tree) (i : NodeId) (kept : List Link) : Prop where
  apart : kept.Pairwise t.Apart
  part : ∀ {j}, some j ∈ kept → t.Part (some i) (some j)
  place : ∀ {k y}, (t.kind (some i)).isUpdate = false ∨ k = 0 → t.Holds i k y → kept[k]? = some y
  covers : ∀ {j c}, t.call? (some j) = some c → t.Spans (some i) j → j = i ∨ ∃ y ∈ kept, t.Spans y j

def Neat (t : Tree) (i : NodeId) : Prop := ∃ kept, t.Branches i kept

theorem not_spans_none : ¬ t.Spans none j := by
  intro h
  rcases Relation.ReflTransGen.cases_head h with h | ⟨_, h, _⟩
  · cases h
  · exact not_part_none h

theorem Apart.symm (h : t.Apart x y) : t.Apart y x := fun j hy hx => h j hx hy

instance : Std.Symm t.Apart := ⟨fun _ _ => Apart.symm⟩

theorem eq_of_spans (h : xs.Pairwise t.Apart) (hx : x ∈ xs) (hy : y ∈ xs)
    (hj : t.Spans x j) (hj' : t.Spans y j) : x = y := by
  by_contra hne
  exact h.forall hx hy hne j hj hj'

theorem eq_of_getElem? (h : xs.Pairwise t.Apart) (hk : xs[k]? = some (some j))
    (hk' : xs[k']? = some (some j)) : k = k' := by
  have hlt {k k' : Nat} (hk : xs[k]? = some (some j)) (hk' : xs[k']? = some (some j)) : ¬ k <
      k' := by
    intro hlt
    obtain ⟨hl, he⟩ := List.getElem?_eq_some_iff.mp hk
    obtain ⟨hl', he'⟩ := List.getElem?_eq_some_iff.mp hk'
    have hapart := List.pairwise_iff_getElem.mp h k k' hl hl' hlt
    rw [he, he'] at hapart
    exact hapart j .refl .refl
  exact Nat.le_antisymm (Nat.not_lt.mp (hlt hk' hk)) (Nat.not_lt.mp (hlt hk hk'))

theorem Holds.part (h : t.Holds i k y) : t.Part (some i) y := by
  obtain ⟨f, hf, hy⟩ := h
  exact ⟨f, hf, List.mem_of_getElem? hy⟩

theorem Holds.of_operand (hc : t.call? (some i) = some c) (h : c.operand k = some j) :
    t.Holds i k (some j) := by
  refine ⟨.call c, form?_of_call? hc, ?_⟩
  rw [Call.operand] at h
  exact Option.join_eq_some_iff.mp h

theorem spans_cases (h : t.Spans (some i) j) : j = i ∨ ∃ y, t.Part (some i) y ∧ t.Spans y j := by
  rcases Relation.ReflTransGen.cases_head h with h | ⟨y, hy, h⟩
  · exact .inl (Option.some.inj h).symm
  · exact .inr ⟨y, hy, h⟩

theorem Ordered.le_of_spans (ht : t.Ordered) (h : t.Spans (some i) j) : j ≤ i := by
  rcases Relation.reflTransGen_iff_eq_or_transGen.mp h with h | h
  · exact Nat.le_of_eq (Option.some.inj h)
  · exact Nat.le_of_lt (ht.lt_of_below h)

theorem Has.spans (ht : t.Ordered) (hx : t.Has x) (h : t.Spans x j) : j < t.size := by
  cases x with
  | none => exact absurd h not_spans_none
  | some i => exact Nat.lt_of_le_of_lt (ht.le_of_spans h) (hx i rfl)

/-! ### Larger trees -/

section Extends

variable (ht : t.Ordered) (hu : t.Extends u)
include ht hu

theorem Extends.spans_iff (hx : t.Has x) : u.Spans x j ↔ t.Spans x j := by
  constructor
  · intro h
    induction h using Relation.ReflTransGen.head_induction_on with
    | refl => exact .refl
    | head h _ ih =>
      obtain ⟨f, hf, hy⟩ := h
      rw [hu.form?_eq hx] at hf
      exact .head ⟨f, hf, hy⟩ (ih (.part ht hf hy))
  · exact Relation.ReflTransGen.mono (fun _ _ ⟨f, hf, hy⟩ => ⟨f, hu.form? hf, hy⟩) _ _

theorem Extends.apart_iff (hx : t.Has x) (hy : t.Has y) : u.Apart x y ↔ t.Apart x y := by
  simp only [Apart, hu.spans_iff ht hx, hu.spans_iff ht hy]

theorem Extends.pairwise_apart (hxs : ∀ x ∈ xs, t.Has x) (h : xs.Pairwise t.Apart) :
    xs.Pairwise u.Apart :=
  h.imp_of_mem fun hx hy hxy => (hu.apart_iff ht (hxs _ hx) (hxs _ hy)).mpr hxy

theorem Neat.extends (hi : i < t.size) (h : t.Neat i) : u.Neat i := by
  obtain ⟨kept, h⟩ := h
  have hform := hu.form?_eq (Has.of_lt hi)
  have hhas : ∀ y ∈ kept, t.Has y := by
    intro y hy
    cases y with
    | none => exact .absent
    | some j =>
      obtain ⟨f, hf, hj⟩ := h.part hy
      exact .part ht hf hj
  refine ⟨kept, hu.pairwise_apart ht hhas h.apart, fun hj => ?_, fun hk hy => ?_,
    fun {j c} hc hj => ?_⟩
  · rw [Part, hform]
    exact h.part hj
  · rw [hu.kind_eq (.of_lt hi)] at hk
    rw [Holds, hform] at hy
    exact h.place hk hy
  · rw [hu.spans_iff ht (.of_lt hi)] at hj
    rw [hu.call?_eq (.of_lt ((Has.of_lt hi).spans ht hj))] at hc
    exact (h.covers hc hj).imp_right fun ⟨y, hy, hj⟩ =>
      ⟨y, hy, (hu.spans_iff ht (hhas y hy)).mpr hj⟩

end Extends

/-! ### Nodes that are built on others -/

/-- A node of the tree under which every node branches. -/
structure Sound (t : Tree) (x : Link) : Prop where
  has : t.Has x
  neat : ∀ {j}, t.Spans x j → t.Neat j

/-- So with each of the nodes, and nothing is under two of them. -/
structure Single (t : Tree) (xs : List Link) : Prop where
  each : ∀ x ∈ xs, t.Sound x
  apart : xs.Pairwise t.Apart

theorem Sound.absent : t.Sound none := ⟨.absent, fun h => absurd h not_spans_none⟩

theorem Sound.mono (ht : t.Ordered) (hu : t.Extends u) (h : t.Sound x) : u.Sound x where
  has := h.has.mono hu
  neat hj := by
    rw [hu.spans_iff ht h.has] at hj
    exact (h.neat hj).extends ht hu (h.has.spans ht hj)

theorem Single.mono (ht : t.Ordered) (hu : t.Extends u) (h : t.Single xs) : u.Single xs :=
  ⟨fun x hx => (h.each x hx).mono ht hu,
    hu.pairwise_apart ht (fun x hx => (h.each x hx).has) h.apart⟩

theorem Single.among (h : t.Single xs) (hys : Among ys xs) : t.Single ys := by
  refine ⟨fun y hy => ?_, hys.pairwise Apart.symm (fun _ h => absurd h not_spans_none) h.apart⟩
  obtain rfl | hy := hys.mem hy
  · exact .absent
  · exact h.each y hy

theorem Single.open (ht : t.Ordered) (h : t.Single (some i :: rest))
    (hf : t.form? (some i) = some f) (hk : (t.kind (some i)).isUpdate = false) :
    t.Single (f.parts ++ rest) := by
  obtain ⟨hi, hrest⟩ := List.forall_mem_cons.mp h.each
  obtain ⟨hcross, hapart⟩ := List.pairwise_cons.mp h.apart
  have hpart {y : Link} (hy : y ∈ f.parts) : t.Part (some i) y := ⟨f, hf, hy⟩
  obtain ⟨kept, hkept⟩ := hi.neat .refl
  refine ⟨List.forall_mem_append.mpr ⟨fun y hy =>
    ⟨.part ht hf hy, fun hj => hi.neat (.head (hpart hy) hj)⟩, hrest⟩, List.pairwise_append.mpr
    ⟨?_, hapart, fun y hy z hz j hj => hcross z hz j (.head (hpart hy) hj)⟩⟩
  refine List.pairwise_iff_getElem.mpr fun k k' hk₁ hk₂ hlt => ?_
  have hplace {k : Nat} (hk₁ : k < f.parts.length) : kept[k]? = some f.parts[k] :=
    hkept.place (.inl hk) ⟨f, hf, List.getElem?_eq_getElem hk₁⟩
  obtain ⟨hl, he⟩ := List.getElem?_eq_some_iff.mp (hplace hk₁)
  obtain ⟨hl', he'⟩ := List.getElem?_eq_some_iff.mp (hplace hk₂)
  rw [← he, ← he']
  exact List.pairwise_iff_getElem.mp hkept.apart k k' hl hl' hlt

section Add

variable (ht : t.Ordered)
include ht

theorem Single.add (hparts : ∀ y ∈ n.form.parts, t.Sound y) (hnode : (t.add n).2.Neat t.size)
    (hrest : t.Single rest) (hapart : ∀ y ∈ n.form.parts, ∀ z ∈ rest, t.Apart y z) :
    (t.add n).2.Single (some t.size :: rest) := by
  have hext := Extends.add t n
  have hbelow {j : NodeId} (hj : (t.add n).2.Spans (some t.size) j) : j = t.size ∨
      ∃ y ∈ n.form.parts, (t.add n).2.Spans y j := by
    refine (spans_cases hj).imp_right fun ⟨y, ⟨f, hf, hy⟩, hj⟩ => ⟨y, ?_, hj⟩
    cases hf.symm.trans (t.form?_add n)
    exact hy
  refine ⟨List.forall_mem_cons.mpr ⟨⟨.of_form? (t.form?_add n), fun hj => ?_⟩, (hrest.mono
    ht hext).each⟩, List.pairwise_cons.mpr ⟨fun z hz j hj hj' => ?_, (hrest.mono ht hext).apart⟩⟩
  · rcases hbelow hj with rfl | ⟨y, hy, hj⟩
    · exact hnode
    · exact ((hparts y hy).mono ht hext).neat hj
  · have hz' := (hrest.each z hz).has
    rw [hext.spans_iff ht hz'] at hj'
    rcases hbelow hj with rfl | ⟨y, hy, hj⟩
    · exact Nat.lt_irrefl _ (hz'.spans ht hj')
    · exact hapart y hy z hz j ((hext.spans_iff ht (hparts y hy).has).mp hj) hj'

theorem Builds.push_single (h : t.Single xs) (hxs : Among (n.form.parts ++ l) xs) :
    Builds t (Tree.push n) fun id u => u.Single (some id :: l) := by
  obtain ⟨heach, hapart⟩ := h.among hxs
  obtain ⟨hparts, hrest⟩ := List.forall_mem_append.mp heach
  obtain ⟨hown, hothers, hcross⟩ := List.pairwise_append.mp hapart
  have hext := Extends.add t n
  have hform : (t.add n).2.form? (some t.size) = some n.form := t.form?_add n
  refine ⟨ordered_add ht fun y hy => (hparts y hy).has, hext,
    .add ht hparts ⟨n.form.parts, ?_⟩ ⟨hrest, hothers⟩ hcross⟩
  refine ⟨hext.pairwise_apart ht (fun y hy => (hparts y hy).has) hown,
    fun hj => ⟨_, hform, hj⟩, fun _ ⟨f, hf, hy⟩ => ?_, fun _ hj =>
    (spans_cases hj).imp_right fun ⟨y, ⟨f, hf, hy⟩, hj⟩ => ⟨y, ?_, hj⟩⟩
  · cases hf.symm.trans hform
    exact hy
  · cases hf.symm.trans hform
    exact hy

theorem copyUpTo_single (source : Tree) (depth : Nat) (x : Link) (h : t.Single rest) :
    Builds t (source.copyUpTo depth x) fun y u => u.Single (y :: rest) := by
  have habsent {t : Tree} {rest : List Link} (h : t.Single rest) : t.Single (none :: rest) :=
    h.among fun i => Nat.le_refl _
  induction depth generalizing t x rest with
  | zero => exact .pure ht (habsent h)
  | succ depth ih =>
    rw [copyUpTo]
    split
    · exact .pure ht (habsent h)
    · rename_i n _
      have hparts (l : List Link) {t : Tree} {rest : List Link} (ht : t.Ordered)
          (h : t.Single rest) :
          Builds t (l.mapM (source.copyUpTo depth)) fun ys u => u.Single (ys ++ rest) := by
        induction l generalizing t rest with
        | nil => exact .pure ht h
        | cons y l ihl =>
          rw [List.mapM_cons]
          refine .bind (ih ht y h) fun z u hu _ hz => .bind (ihl hu hz) fun zs w hw _ hzs =>
            .pure hw (hzs.among fun i => ?_)
          grind
      refine .bind (hparts n.form.parts ht h) fun parts u hu _ hparts =>
        .map (.push_single hu hparts fun i => ?_)
      cases n.form with
      | call c | list items => exact Nat.le_refl _
      | _ => grind [Form.parts, Form.withParts]

theorem copy_single (source : Tree) (x : Link) (h : t.Single rest) :
    Builds t (source.copy x) fun y u => u.Single (y :: rest) :=
  copyUpTo_single ht source _ x h

end Add

/-! ### Parts in one place only -/

/-- `y` is what the item `x` names or makes lateral, or a side of the join `x`. -/
def ItemPart (t : Tree) (x y : Link) : Prop :=
  ∃ c k, t.call? x = some c ∧ c.kind ∈ [.naming, .lateral, .join] ∧ c.operand k = y

theorem Item.itemParts (h : t.Item x y) : Relation.ReflTransGen t.ItemPart x y := by
  induction h with
  | refl => exact .refl
  | under hc hk _ ih => exact .head ⟨_, 0, hc, by rcases hk with hk | hk <;> simp [hk], rfl⟩ ih
  | left hc hk _ ih => exact .head ⟨_, 0, hc, by simp [hk], rfl⟩ ih
  | right hc hk _ ih => exact .head ⟨_, 3, hc, by simp [hk], rfl⟩ ih

theorem itemParts_cases (h : Relation.ReflTransGen t.ItemPart x (some j)) :
    x = some j ∨ ∃ m c k, Relation.ReflTransGen t.ItemPart x (some m) ∧ t.call? (some m) = some c ∧
      c.kind ∈ [.naming, .lateral, .join] ∧ t.Holds m k (some j) := by
  rcases Relation.ReflTransGen.cases_tail h with h | ⟨y, hy, c, k, hc, hkind, hk⟩
  · exact .inl h.symm
  · cases y with
    | none => cases hc
    | some m => exact .inr ⟨m, c, k, hy, hc, hkind, .of_operand hc hk⟩

theorem spans_of_itemParts (h : Relation.ReflTransGen t.ItemPart x (some j)) : t.Spans x j := by
  generalize hy : some j = y at h
  induction h generalizing j with
  | refl => exact hy ▸ .refl
  | @tail y _ _ h ih =>
    obtain ⟨c, k, hc, _, hk⟩ := h
    cases y with
    | none => cases hc
    | some m =>
      subst hy
      exact (ih rfl).tail (Holds.part (.of_operand hc hk))

theorem isUpdate_of_item {k : Kind} (h : k ∈ [.naming, .lateral, .join]) : k.isUpdate = false := by
  revert k
  decide

section Unique

variable (ht : t.Ordered) (hneat : ∀ i, t.Spans x i → t.Neat i)
include ht hneat

/-- A node is a part of one call only, in one place; of a statement that changes a table only the
first part counts. -/
theorem holds_unique (hp : t.Spans x p) (hp' : t.Spans x p') (hc : t.call? (some p) = some c)
    (hc' : t.call? (some p') = some c') (hk : c.kind.isUpdate = false ∨ k = 0)
    (hk' : c'.kind.isUpdate = false ∨ k' = 0) (h : t.Holds p k (some j))
    (h' : t.Holds p' k' (some j)) : p = p' ∧ k = k' := by
  cases x with
  | none => exact absurd hp not_spans_none
  | some i =>
    -- on the way down both holders stay under the same part, until one of them is reached
    induction i using Nat.strongRecOn with
    | _ i ih =>
      obtain ⟨kept, hkept⟩ := hneat i .refl
      have hself {k : Nat} {c : Call} (hc : t.call? (some i) = some c)
        (hk : c.kind.isUpdate = false ∨ k = 0)
          (h : t.Holds i k (some j)) : kept[k]? = some (some j) := by
        exact hkept.place (kind_of_call? hc ▸ hk) h
      have hcycle {k k' : Nat} {p : NodeId} {y : Link}
        (hj : kept[k]? = some (some j)) (hy : y ∈ kept)
          (hp : t.Spans y p) (h : t.Holds p k' (some j)) : False := by
        obtain rfl := eq_of_spans hkept.apart (List.mem_of_getElem? hj) hy .refl (hp.tail h.part)
        exact absurd (ht p j h.part) (Nat.not_lt.mpr (ht.le_of_spans hp))
      rcases hkept.covers hc hp with rfl | ⟨y, hy, hyp⟩
      · rcases hkept.covers hc' hp' with rfl | ⟨y', hy', hyp'⟩
        · exact ⟨rfl, eq_of_getElem? hkept.apart (hself hc hk h) (hself hc' hk' h')⟩
        · exact (hcycle (hself hc hk h) hy' hyp' h').elim
      · rcases hkept.covers hc' hp' with rfl | ⟨y', hy', hyp'⟩
        · exact (hcycle (hself hc' hk' h') hy hyp h).elim
        · obtain rfl := eq_of_spans hkept.apart hy hy' (hyp.tail h.part) (hyp'.tail h'.part)
          cases y with
          | none => exact absurd hyp not_spans_none
          | some m =>
            have hpart := hkept.part hy
            exact ih m (ht i m hpart) (fun n hn => hneat n (.head hpart hn)) hyp hyp'

/-- Two calls whose operands have an item in common are the same call, or one is an item of the
other. -/
theorem items_meet (hp : t.Spans x p) (hp' : t.Spans x p')
    (hc : t.call? (some p) = some c) (hc' : t.call? (some p') = some c')
    (hk : c.kind.isUpdate = false ∨ k = 0) (hk' : c'.kind.isUpdate = false ∨ k' = 0)
    (h : Relation.ReflTransGen t.ItemPart (c.operand k) (some j))
    (h' : Relation.ReflTransGen t.ItemPart (c'.operand k') (some j)) : p = p' ∧
      k = k' ∨ c'.kind ∈ [.naming, .lateral, .join] ∧ Relation.ReflTransGen t.ItemPart (c.operand k)
      (some p') ∨ c.kind ∈ [.naming, .lateral, .join] ∧
      Relation.ReflTransGen t.ItemPart (c'.operand k') (some p) := by
  have hbelow {p m : NodeId} {c : Call} {k : Nat} (hp : t.Spans x p)
    (hc : t.call? (some p) = some c)
      (h : Relation.ReflTransGen t.ItemPart (c.operand k) (some m)) : t.Spans x m :=
    hp.trans (below_of_operand hc (spans_of_itemParts h)).to_reflTransGen
  -- up from the item in common
  induction hn : t.size - j using Nat.strongRecOn generalizing j with
  | _ n ih =>
    rcases itemParts_cases h with h | ⟨m, d, a, hm, hd, hkind, hj⟩
    · rcases itemParts_cases h' with h' | ⟨m', d', a', hm', hd', hkind', hj'⟩
      · exact .inl
          (holds_unique ht hneat hp hp' hc hc' hk hk' (.of_operand hc h) (.of_operand hc' h'))
      · obtain ⟨rfl, _⟩ := holds_unique ht hneat hp (hbelow hp' hc' hm')
          hc hd' hk (.inl (isUpdate_of_item hkind')) (.of_operand hc h) hj'
        cases hc.symm.trans hd'
        exact .inr (.inr ⟨hkind', hm'⟩)
    · rcases itemParts_cases h' with h' | ⟨m', d', a', hm', hd', hkind', hj'⟩
      · obtain ⟨rfl, _⟩ := holds_unique ht hneat hp' (hbelow hp hc hm)
          hc' hd hk' (.inl (isUpdate_of_item hkind)) (.of_operand hc' h') hj
        cases hc'.symm.trans hd
        exact .inr (.inl ⟨hkind, hm⟩)
      · obtain ⟨rfl, _⟩ := holds_unique ht hneat (hbelow hp hc hm) (hbelow hp' hc' hm') hd hd'
          (.inl (isUpdate_of_item hkind)) (.inl (isUpdate_of_item hkind')) hj hj'
        have hlt := ht _ _ hj.part
        have hsize := lt_size_of_form? (form?_of_call? hd)
        exact ih (t.size - m) (hn ▸ Nat.sub_lt_sub_left (Nat.lt_trans hlt hsize) hlt) hm hm' rfl

/-- Where every node branches, no item is shared. -/
theorem unshared_of_neat : t.Unshared x := by
  refine ⟨fun q q' k hq hq' ⟨c, hc, hkind, hd⟩ ⟨c', hc', hkind', hd'⟩ => ?_, fun j
    c k hj hc hkind hl hr => ?_, fun d c k q hd hq hc hkind htarget ⟨c', hc', hkind', hdraws⟩ => ?_⟩
  · have hselect {c : Call} (h : c.kind = .select) : c.kind.isUpdate = false := by rw [h]; rfl
    rcases items_meet ht hneat hq hq' hc hc' (.inl (hselect hkind)) (.inl (hselect hkind'))
      hd.itemParts hd'.itemParts with
      h | ⟨h, _⟩ | ⟨h, _⟩
    · exact h.1
    · rw [hkind'] at h
      cases of_decide_eq_false (p := Kind.select ∈ _) rfl h
    · rw [hkind] at h
      cases of_decide_eq_false (p := Kind.select ∈ _) rfl h
  · have hjoin : c.kind.isUpdate = false := by rw [hkind]; rfl
    have hcycle {k : Nat} (h : Relation.ReflTransGen t.ItemPart (c.operand k) (some j)) : False :=
      Nat.lt_irrefl j (ht.lt_of_below (below_of_operand hc (spans_of_itemParts h)))
    rcases items_meet ht hneat hj hj hc hc (.inl hjoin) (.inl hjoin) hl.itemParts
      hr.itemParts with h | h | h
    · cases h.2
    · exact hcycle h.2
    · exact hcycle h.2
  · have hselect : c'.kind.isUpdate = false := by rw [hkind']; rfl
    have htop : Relation.ReflTransGen t.ItemPart (c.operand 0) (some k) := htarget ▸ .refl
    rcases items_meet ht hneat hd hq hc hc' (.inr rfl) (.inl hselect) htop
      hdraws.itemParts with h | ⟨h, _⟩ | ⟨h, _⟩
    · cases h.2
    · rw [hkind'] at h
      cases of_decide_eq_false (p := Kind.select ∈ _) rfl h
    · rw [isUpdate_of_item h] at hkind
      cases hkind

end Unique

end Tree

end SqlAnalysis

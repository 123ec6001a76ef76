import SqlAnalysis.Proofs.Canonical.Building

/-!
The nodes of the canonical form. It is an ordered tree whatever the statement is. It adds calls,
lists and names of its own, which stand where nodes of the statement do, or nowhere; every other
node of it is a copy of one of the statement.
-/

namespace SqlAnalysis

/-- A property that all forms with parts have, and all names. -/
structure OfLeaves (P : Form → Prop) : Prop where
  call : ∀ c, P (.call c)
  list : ∀ items, P (.list items)
  identifier : ∀ i, P (.identifier i)

abbrev Term.Within (P : Form → Prop) : Term → Prop := Term.Every fun label _ => P label

variable {S : Option Span → Prop} {t : Tree}

theorem OfLeaves.withParts (hP : OfLeaves P) (h : P f) (parts : List Link) :
    P (f.withParts parts) := by
  cases f with
  | call c => exact hP.call _
  | list items => exact hP.list _
  | _ => exact h

theorem OfLeaves.of_label (hP : OfLeaves P) {f : Form} (h : P f.label) (parts : List Link) :
    P (f.withParts parts) := by
  cases f with
  | call c => exact hP.call _
  | list items => exact hP.list _
  | _ => exact h

namespace Tree

theorem Ordered.within_term (ht : t.Ordered) (hP : OfLeaves P)
    (h : ∀ j f, t.Spans x j → t.form? (some j) = some f → P f) : (t.term x).Within P :=
  .of_forms ht fun j f hj hf => hP.withParts (h j f hj hf) []

/-- As long as all nodes stand at a place in `S`, the step keeps them and adds only nodes with a
form in `P` that do too. -/
def Confined (P : Form → Prop) (S : Option Span → Prop) (t : Tree) (m : TreeM α) : Prop :=
  (∀ y, S (t.span? y)) → t.Extends (m t).2 ∧
    ∀ i n, (m t).2.node? (some i) = some n → t.node? (some i) = some n ∨ P n.form ∧ S n.span

namespace Confined

theorem spans (hm : Confined P S t m) (h : ∀ y, S (t.span? y)) (y : Link) :
    S ((m t).2.span? y) := by
  obtain hnone | ⟨i, n, rfl, hn, hspan⟩ := (m t).2.span?_cases y
  · exact hnone ▸ h none
  rw [hspan]
  obtain hold | hnew := (hm h).2 i n hn
  · have hi := h (some i)
    rwa [span?, hold] at hi
  · exact hnew.2

theorem form_cases (hm : Confined P S t m) (hS : ∀ y, S (t.span? y)) {f : Form}
    (hf : (m t).2.form? (some i) = some f) : t.form? (some i) = some f ∨ P f := by
  obtain ⟨n, hn, rfl⟩ := Option.map_eq_some_iff.mp hf
  exact ((hm hS).2 i n hn).imp (fun hold => by rw [Tree.form?, hold]; rfl) And.left

theorem pure (a : α) : Confined P S t (pure a : TreeM α) := fun _ => ⟨.refl t, fun _ _ => .inl⟩

theorem bind (hm : Confined P S t m) (hf : ∀ a u, t.Extends u → Confined P S u (f a)) :
    Confined P S t (m >>= f) := by
  intro hS
  obtain ⟨hext, hold⟩ := hm hS
  obtain ⟨hext', hnew⟩ := hf (m t).1 (m t).2 hext (hm.spans hS)
  exact ⟨hext.trans hext', fun i n h => (hnew i n h).elim (hold i n) .inr⟩

theorem map (hm : Confined P S t m) : Confined P S t (g <$> m) := hm

theorem get {f : Tree → TreeM β} (hf : Confined P S t (f t)) :
    Confined P S t (MonadState.get >>= f) := hf

theorem push (hform : P n.form) (hspan : (∀ y, S (t.span? y)) → S n.span) :
    Confined P S t (Tree.push n) := by
  refine fun hS => ⟨.add t n, fun i m hm => (node?_add_cases hm).imp_right ?_⟩
  rintro ⟨_, rfl⟩
  exact ⟨hform, hspan hS⟩

theorem mapM {l : List α} (h : ∀ a ∈ l, ∀ u, Confined P S u (g a)) : Confined P S t (l.mapM g) := by
  induction l generalizing t with
  | nil => exact .pure _
  | cons a l ih =>
    rw [List.mapM_cons]
    exact (h a List.mem_cons_self t).bind fun _ _ _ =>
      (ih fun b hb => h b (List.mem_cons_of_mem a hb)).bind fun _ _ _ => .pure _

theorem copyUpTo (hP : OfLeaves P) (ht : t.Ordered) (hext : t.Extends source)
    (hS : ∀ y, S (source.span? y)) (hx : t.Has x) (h : (t.term x).Within P) (depth : Nat) :
    Confined P S u (source.copyUpTo depth x) := by
  induction depth generalizing u x with
  | zero => exact .pure _
  | succ depth ih =>
    rw [Tree.copyUpTo]
    split
    · exact .pure _
    · rename_i n hn
      have hf : t.form? x = some n.form := by rw [← hext.form?_eq hx, form?, hn]; rfl
      rw [ht.term_of_form? hf] at h
      refine (mapM fun y hy u => ih (.part ht hf hy) (h.under _ (List.mem_map_of_mem hy))).bind
        fun _ _ _ =>
        .map (.push (hP.of_label h.here _) fun _ => ?_)
      have hspan := hS x
      rwa [span?, hn] at hspan

end Confined

def Copies (P : Form → Prop) (S : Option Span → Prop) (t : Tree) (x : Link) : Prop :=
  ∀ u, t.Extends u → Confined P S u (u.copy x)

theorem Copies.later (h : Copies P S t x) (hu : t.Extends u) :
    Copies P S u x := fun w hw => h w (hu.trans hw)

theorem Copies.of_within (hP : OfLeaves P) (ht : t.Ordered) (hx : t.Has x)
    (h : (t.term x).Within P) : Copies P S t x :=
  fun _ hu hS => Confined.copyUpTo hP ht hu hS hx h _ hS

end Tree

namespace Canonical

open SqlAnalysis.Tree

section Steps

variable (hP : OfLeaves P)
include hP

theorem selectAll_confined (hspan : S span) : Confined P S t (selectAll v x y span) :=
  .bind (.push (hP.identifier _) fun h => h none) fun _ _ _ =>
    .bind (.push (hP.list _) fun h => h none) fun _ _ _ =>
    .push (hP.call _) fun _ => hspan

theorem ordered_confined (hspan : S span) : Confined P S t (ordered v x y span) := by
  refine .get ?_
  split
  · dsimp only
    split
    · exact .push (hP.call _) fun _ => hspan
    · exact selectAll_confined hP hspan
  · exact selectAll_confined hP hspan

theorem target_confined (hx : Copies P S t x) (hy : Copies P S t y) :
    Confined P S t (target v x y) := by
  refine .get (.bind (hx t (.refl t)) fun copy u hu => ?_)
  dsimp only
  split
  · exact .pure _
  · exact .get (.bind (hy u hu) fun name w _ => .get (.map (.push (hP.call _) fun h => h _)))

theorem deletedRows_confined {p : DeleteParts} (hspan : S span) (htable : Copies P S t p.target)
    (hname : Copies P S t p.aliasName) : Confined P S t (deletedRows v p span) :=
  (target_confined hP htable hname).bind fun _ _ _ =>
    (selectAll_confined hP hspan).bind fun _ _ _ => .get (.push (hP.call _) fun _ => hspan)

theorem assignments_confined : Confined P S t (assignments v place sources) := by
  induction sources generalizing t place with
  | nil => exact .pure _
  | cons source sources ih =>
    exact .bind (.push (hP.identifier _) fun h => h none) fun _ _ _ =>
      .get (.bind (.push (hP.call _) fun h => h _) fun _ _ _ => .bind ih fun _ _ _ => .pure _)

theorem updatedRows_confined {p : UpdateParts} (hspan : S span) (htable : Copies P S t p.target)
    (hname : Copies P S t p.aliasName) : Confined P S t (updatedRows v p span) := by
  refine .bind (.push (hP.identifier _) fun h => h none) fun _ u hu =>
    .get (.bind (assignments_confined hP) fun _ w hw => ?_)
  refine .bind (.push (hP.list _) fun h => h none) fun _ z hz => ?_
  have hext := (hu.trans hw).trans hz
  exact .bind (target_confined hP (htable.later hext) (hname.later hext)) fun _ _ _ =>
    .push (hP.call _) fun _ => hspan

theorem equalityTests_confined (isFirst : Bool) {whens : List Link}
    (h : (isFirst ∧ whens.length < 2) ∨ Copies P S t x) :
    Confined P S t (equalityTests v x isFirst whens) := by
  induction whens generalizing t isFirst with
  | nil => exact .pure _
  | cons w whens ih =>
    have htests (value : Link) (u : Tree) (hext : t.Extends u) : Confined P S u (do
          let span := (← MonadState.get).span? w
          let test ← Tree.push
            { form := .call { operator := v.equals, operands := [value, w] }, span }
          let tests ← equalityTests v x false whens
          return some test :: tests) := by
      refine .get (.bind (.push (hP.call _) fun h => h _) fun test r hext' => ?_)
      cases whens with
      | nil => exact (Confined.pure _).bind fun _ _ _ => .pure _
      | cons w' whens =>
        have hx := h.resolve_left fun h => absurd h.2 (by simp)
        exact (ih false (.inr (hx.later (hext.trans hext')))).bind fun _ _ _ => .pure _
    rw [equalityTests]
    cases isFirst with
    | true => exact htests x t (.refl t)
    | false => exact .get (.bind (h.resolve_left (by simp) t (.refl t)) htests)

theorem call_confined {c : Call} (hspan : S span)
    (hcase : c.kind = .caseOf → 2 ≤ (t.items (c.operand 1)).length → Copies P S t (c.operand 0))
    (hdelete : c.kind = .delete → Copies P S t (c.operand 0) ∧ Copies P S t (c.operand 2))
    (hupdate : c.kind = .update → Copies P S t (c.operand 0) ∧ Copies P S t (c.operand 4)) :
    Confined P S t (call v c span top) := by
  have hkeep {u : Tree} (operands : List Link) : Confined P S u (keep c span operands) :=
    .push (hP.call _) fun _ => hspan
  unfold call
  dsimp only
  split
  · exact ordered_confined hP hspan
  · exact selectAll_confined hP hspan
  iterate 4
    refine .bind (hkeep _) fun _ _ _ => ?_
    split
    · exact selectAll_confined hP hspan
    · exact .pure _
  · exact hkeep _
  · rename_i hk
    exact (deletedRows_confined hP hspan (hdelete hk).1 (hdelete hk).2).bind fun _ _ _ => hkeep _
  · rename_i hk
    exact (updatedRows_confined hP hspan (hupdate hk).1 (hupdate hk).2).bind fun _ _ _ => hkeep _
  · rename_i hk
    split
    · exact hkeep _
    · refine .bind (.get fun hS => Confined.bind (equalityTests_confined hP true ?_)
        (fun _ _ _ => .push (hP.list _) fun _ => hS _) hS) fun _ _ _ => hkeep _
      rcases Nat.lt_or_ge (t.items (c.operand 1)).length 2 with hlt | hge
      · exact .inl ⟨rfl, hlt⟩
      · exact .inr (hcase hk hge)
  · exact hkeep _

end Steps

/-- What is done is in the new tree, which is ordered; its nodes have a form in `P` and stand at a
place in `S`. -/
structure Progress.Sound (P : Form → Prop) (S : Option Span → Prop) (p : Progress) : Prop where
  ordered : p.tree.Ordered
  done : ∀ i out, p.done.get? i = some out → p.tree.Has (some out)
  nodes : ∀ i n, p.tree.node? (some i) = some n → P n.form ∧ S n.span

theorem Progress.Sound.within {p : Progress} (hp : p.Sound P S) (hP : OfLeaves P) (x : Link) :
    (p.tree.term x).Within P := by
  refine hp.ordered.within_term hP fun j f _ hf => ?_
  obtain ⟨n, hn, rfl⟩ := Option.map_eq_some_iff.mp hf
  exact (hp.nodes j n hn).1

/-- The step keeps the progress sound, and what it gives is in the new tree. -/
def Converts (P : Form → Prop) (S : Option Span → Prop) (p : Progress)
    (x : CanonicalM α) (Q : α → Tree → Prop) : Prop :=
  (x p).2.Sound P S ∧ p.tree.Extends (x p).2.tree ∧ Q (x p).1 (x p).2.tree

namespace Converts

theorem pure {v : α} (hp : p.Sound P S) (h : Q v p.tree) :
    Converts P S p (pure v) Q := ⟨hp, .refl _, h⟩

theorem bind (hx : Converts P S p x Q)
    (hf : ∀ v q, q.Sound P S → p.tree.Extends q.tree → Q v q.tree → Converts P S q (f v) R) :
    Converts P S p (x >>= f) R := by
  obtain ⟨hq, hext, hv⟩ := hx
  obtain ⟨hr, hext', h⟩ := hf _ _ hq hext hv
  exact ⟨hr, hext.trans hext', h⟩

theorem get {f : Progress → CanonicalM β} (hf : Converts P S p (f p) R) :
    Converts P S p (MonadState.get >>= f) R := hf

theorem inTree (hp : p.Sound P S) (hS : S none) {x : TreeM α} (hx : Builds p.tree x Q)
    (hc : Confined P S p.tree x) : Converts P S p (inTree x) Q := by
  have hspans (y : Link) : S (p.tree.span? y) := by
    obtain hnone | ⟨i, n, rfl, hn, hspan⟩ := p.tree.span?_cases y
    · exact hnone ▸ hS
    · exact hspan ▸ (hp.nodes i n hn).2
  exact ⟨⟨hx.1, fun i out h => (hp.done i out h).mono hx.2.1,
    fun i n hn => ((hc hspans).2 i n hn).elim (hp.nodes i n) id⟩, hx.2⟩

theorem mapM {g : α → CanonicalM Link} (hp : p.Sound P S) (l : List α)
    (h : ∀ v q, q.Sound P S → Converts P S q (g v) fun y t => t.Has y) :
    Converts P S p (l.mapM g) fun ys t => ∀ y ∈ ys, t.Has y := by
  induction l generalizing p with
  | nil => exact .pure hp nofun
  | cons v l ih =>
    rw [List.mapM_cons]
    refine .bind (h v p hp) fun y q hq _ hy => .bind (ih hq) fun ys r hr hext hys => .pure hr ?_
    exact List.forall_mem_cons.mpr ⟨hy.mono hext, hys⟩

end Converts

theorem nodeUpTo_converts (hP : OfLeaves P) (hS : S none) (ops : Registry)
    (hsource : ∀ i n, source.node? (some i) = some n → P n.form ∧ S n.span)
    (depth : Nat) (top : Bool) (x : Link) {p : Progress} (hp : p.Sound P S) :
    Converts P S p (nodeUpTo v ops source depth top x) fun y t => t.Has y := by
  induction depth generalizing top x p with
  | zero => exact .pure hp .absent
  | succ depth ih =>
    unfold nodeUpTo
    split
    · rename_i i n hn
      obtain ⟨hform, hspan⟩ := hsource i n hn
      have hdone (out : NodeId) (q : Progress) (hq : q.Sound P S) (_ : p.tree.Extends q.tree)
          (hout : q.tree.Has (some out)) :
          Converts P S q (do
            modify fun s => { s with done := s.done.insert i out }
            return some out) fun y t => t.Has y := by
        refine ⟨⟨hq.ordered, fun j out' hj => ?_, hq.nodes⟩, .refl _, hout⟩
        have hj : (q.done.insert i out).get? j = some out' := hj
        rw [Table.get?_insert] at hj
        split at hj
        · cases hj; exact hout
        · exact hq.done j out' hj
      refine .get ?_
      split
      · rename_i out hout
        exact .pure hp (hp.done i out hout)
      · dsimp only
        split
        · rename_i c hc
          refine .bind (.mapM hp c.operands fun y q hq => ih false y hq)
            fun operands q hq hext hops => ?_
          have hpadded : ∀ y ∈ padded c.operator.slots operands, q.tree.Has y := by
            intro y hy
            obtain hy | hy := List.mem_append.mp hy
            · exact hops y hy
            · exact (List.mem_replicate.mp hy).2 ▸ .absent
          refine .bind (.inTree hq hS ((call_spec hq.ordered hpadded).weaken fun _ _ h => h.1) ?_)
            fun out r hr hext' hout =>
            hdone out r hr (hext.trans hext') hout
          have hcopies (n : Nat) : Copies P S q.tree
              (Call.operand ⟨bound ops c.operator, padded c.operator.slots operands⟩ n) :=
            .of_within hP hq.ordered (Call.operand_of_operands hpadded .absent n) (hq.within hP _)
          exact call_confined hP hspan (fun _ _ => hcopies 0) (fun _ => ⟨hcopies 0, hcopies 2⟩)
            fun _ => ⟨hcopies 0, hcopies 4⟩
        · rename_i items _
          refine .bind (.mapM hp items fun y q hq => ih false y hq) fun items q hq hext hitems => ?_
          exact .bind (.inTree hq hS (.push hq.ordered hitems) (.push (hP.list _) fun _ => hspan))
            fun out r hr hext' hout =>
            hdone out r hr (hext.trans hext') hout
        · rename_i f hcall hlist
          refine .bind (.inTree hp hS (.push hp.ordered ?_) (.push hform fun _ => hspan)) hdone
          cases hf : n.form with
          | call c => exact absurd hf (hcall c)
          | list items => exact absurd hf (hlist items)
          | _ => exact nofun
    · exact .pure hp .absent

end Canonical

/-- What is true of all forms of a statement, and of all calls, lists and names, is true of its
canonical form, and what is true of all places of its nodes, and of no place, is true of those of
its canonical form. -/
theorem Statement.canonical_sound (hP : OfLeaves P)
    (hS : S none) {s s' : Statement} (h : s.canonical ops = .ok s')
    (hs : ∀ i n, s.tree.node? (some i) = some n → P n.form ∧ S n.span) : s'.tree.Ordered ∧
      s'.tree.Has s'.root ∧ ∀ i n, s'.tree.node? (some i) = some n → P n.form ∧ S n.span := by
  unfold Statement.canonical at h
  cases hv : Canonical.Vocabulary.ofRegistry ops with
  | error e => rw [hv] at h; cases h
  | ok v =>
    rw [hv] at h
    cases h
    have hstart : Canonical.Progress.Sound P S {} :=
      ⟨fun i j hpart => ?_, nofun, fun i n hn => by cases hn⟩
    · obtain ⟨hp, _, hroot⟩ :=
        Canonical.nodeUpTo_converts (v := v) hP hS ops hs (s.root.getD 0 + 1) true s.root hstart
      exact ⟨hp.ordered, hroot, hp.nodes⟩
    · obtain ⟨f, hf, _⟩ := hpart
      cases hf

theorem Statement.canonical_ordered {s s' : Statement} (h : s.canonical ops = .ok s') :
    s'.tree.Ordered ∧ s'.tree.Has s'.root := by
  obtain ⟨ho, hroot, _⟩ := Statement.canonical_sound (P := fun _ => True) (S := fun _ => True)
    ⟨fun _ => trivial, fun _ => trivial, fun _ => trivial⟩ trivial h fun _ _ _ => ⟨trivial, trivial⟩
  exact ⟨ho, hroot⟩

end SqlAnalysis

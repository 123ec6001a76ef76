import SqlAnalysis.Proofs.Canonical.Form

/-!
Parameters in the canonical form. It has one node for each parameter of the statement, except in
what it copies: a value that is compared more than once, and the table that a statement changes with
its alias.
-/

namespace SqlAnalysis

abbrev Term.Lacks (k : Int) : Term → Prop := Term.Every fun label _ => label ≠ .parameter k

namespace Canonical

theorem lacks_canonicalTerm (h : x.Lacks k) : (canonicalTerm v ops top x).Lacks k :=
  every_canonicalTerm ⟨fun _ => nofun, fun _ => nofun, fun _ _ => nofun, fun _ _ _ _ => nofun,
    fun _ _ _ _ _ _ => nofun⟩ (fun _ _ _ _ _ => nofun) (h.imp fun _ _ h _ _ => h) top

theorem length_items_canonicalTerm : (canonicalTerm v ops top x).items.length = x.items.length := by
  cases x with
  | absent => rw [canonicalTerm]
  | node label ps =>
    cases label with
    | call c =>
      have hcall (o : Operator) (ps : List Term) : (Term.call o ps).items = [] := rfl
      have hordered (query order : Term) : (orderedTerm v query order).items = [] := by
        unfold orderedTerm
        split
        · split <;> rfl
        · rfl
      rw [canonicalTerm, callTerm]
      have hnone : (Term.node (.call c) ps).items = [] := rfl
      rw [hnone]
      split
      · rw [hordered]
      all_goals first | rfl | (split <;> rfl)
    | _ =>
      rw [canonicalTerm_of_ne_call v (fun c hc => by cases hc)]
      simp [Term.items]

end Canonical

namespace Canonical

open SqlAnalysis.Tree

abbrev Spares {α : Type} (k : Int) : Tree → TreeM α → Prop :=
  Confined (· ≠ .parameter k) fun _ => True

theorem ofLeaves_ne_parameter : OfLeaves (· ≠ .parameter k) :=
  ⟨fun _ => nofun, fun _ => nofun, fun _ => nofun⟩

/-- The parts of a call that are copied for its canonical form. -/
def copiedParts (ops : Registry) (t : Tree) (c : Call) : List Link :=
  match (bound ops c.operator).kind with
  | .caseOf => if 2 ≤ (t.items (c.operand 1)).length then [c.operand 0] else []
  | .delete => [c.operand 0, c.operand 2]
  | .update => [c.operand 0, c.operand 4]
  | _ => []

section Walk

variable {p : Progress}

/-- Every parameter of that number in the new tree is the image of one in the source. -/
def Progress.Depicted (k : Int) (source : Tree) (p : Progress) : Prop :=
  ∀ j, p.tree.form? (some j) = some (.parameter k) →
    ∃ i, source.form? (some i) = some (.parameter k) ∧ p.done.get? i = some j

theorem term_image (hp : p.Tracks v ops source root E)
    (hx : ∀ i, x = some i → i < root ∧ ∃ out, p.done.get? i = some out) :
    p.tree.term (p.image x) = canonicalTerm v ops false (source.term x) := by
  simpa using map_term_image hp (l := [x]) fun i hi => hx i (List.mem_singleton.mp hi).symm

theorem imageCall_spares (hp : p.Tracks v ops source root E) (hs : source.Ordered)
    (hc : ∀ y ∈ copiedParts ops source c, (source.term y).Lacks k)
    (hdone : ∀ j, some j ∈ c.operands → j < root ∧ ∃ out, p.done.get? j = some out) :
    Spares k p.tree (call v (imageCall ops p c) span top) := by
  have hat (n : Nat) : p.tree.term ((imageCall ops p c).operand n) =
      canonicalTerm v ops false (source.term (c.operand n)) := by
    rw [operand_imageCall]
    exact term_image hp fun j hj => hdone j (c.mem_operands_of_operand hj)
  have hlacks (n : Nat) (hn : c.operand n ∈ copiedParts ops source c) :
      Copies (· ≠ .parameter k) (fun _ => True) p.tree ((imageCall ops p c).operand n) :=
    .of_within ofLeaves_ne_parameter hp.ordered (Call.operand_of_operands
      (hp.has_operands c) .absent n) (hat n ▸ lacks_canonicalTerm (hc _ hn))
  unfold copiedParts at hlacks
  refine call_confined ofLeaves_ne_parameter trivial (fun hk hlen => hlacks 0 ?_)
    (fun hk => ⟨hlacks 0 ?_, hlacks 2 ?_⟩) fun hk => ⟨hlacks 0 ?_, hlacks 4 ?_⟩
  · have hkind : (bound ops c.operator).kind = .caseOf := hk
    have hitems := congrArg (·.items.length) (hat 1)
    simp only [hp.ordered.items_term, length_items_canonicalTerm, hs.items_term,
      List.length_map] at hitems
    rw [hkind]
    dsimp only
    rw [if_pos (hitems ▸ hlen)]
    exact List.mem_singleton_self _
  all_goals
    have hkind : (bound ops c.operator).kind = _ := hk
    rw [hkind]
    simp

theorem depicted_carries (hs : source.Ordered) (hcopied : ∀ i c,
    source.call? (some i) = some c → ∀ y ∈ copiedParts ops source c, (source.term y).Lacks k) :
    Carries v ops source root (Progress.Depicted k source) := by
  intro i n p top hn hp hnew hdone j hj
  have hform : source.form? (some i) = some n.form := by rw [form?, hn]; rfl
  have hold (hj : p.tree.form? (some j) = some (.parameter k)) :
      ∃ i', source.form? (some i') = some (.parameter k) ∧
      (p.finish i (imageOf v ops p n top)).done.get? i' = some j := by
    obtain ⟨l, hl, hout⟩ := hp.holds j hj
    refine ⟨l, hl, ?_⟩
    rw [p.get?_finish, if_neg]
    · exact hout
    · rintro rfl
      rw [hnew] at hout
      cases hout
  -- only a parameter becomes one
  have hspares (hm : Spares k p.tree (imageOf v ops p n top)) :=
    hold ((hm.form_cases (fun _ => trivial) hj).resolve_right (· rfl))
  cases hf : n.form with
  | call c =>
    rw [hf] at hform hdone
    refine hspares ?_
    rw [imageOf, hf]
    exact imageCall_spares hp hs (hcopied i c (call?_of_form? hform)) hdone
  | list items =>
    refine hspares ?_
    rw [imageOf, hf]
    exact .push (by rintro ⟨⟩) fun _ => trivial
  | parameter l =>
    rw [imageOf, hf] at hj hold ⊢
    obtain hj | ⟨rfl, hl⟩ := form?_add_cases hj
    · exact hold hj
    · exact ⟨i, hl ▸ hform, by rw [p.get?_finish, if_pos rfl]; rfl⟩
  | _ =>
    refine hspares ?_
    rw [imageOf, hf]
    exact .push (by rw [hf]; rintro ⟨⟩) fun _ => trivial

end Walk

end Canonical

/-- A parameter of that number stands in a part of the statement that is copied for its canonical
form. -/
def Statement.Copies (ops : Registry) (s : Statement) (k : Int) : Prop :=
  ∃ i c, s.tree.call? (some i) = some c ∧ ∃ x ∈ Canonical.copiedParts ops s.tree c, ∃ j,
    s.tree.Spans x j ∧ s.tree.form? (some j) = some (.parameter k)

theorem Statement.canonical_parameter (h : Script.parse ops text = .ok s)
    (hs' : s.canonical ops' = .ok s') (hk : ¬ s.Copies ops' k)
    (hi : s'.tree.form? (some i) = some (.parameter k))
    (hj : s'.tree.form? (some j) = some (.parameter k)) : i = j := by
  obtain ⟨hord, hroot, _⟩ := Script.parse_reads h
  cases hv : Canonical.Vocabulary.ofRegistry ops' with
  | error e =>
    unfold Statement.canonical at hs'
    rw [hv] at hs'
    cases hs'
  | ok v =>
    rw [Canonical.canonical_eq hv hord hroot] at hs'
    cases hs'
    cases hr : s.root with
    | none =>
      rw [Canonical.finished, hr] at hi
      cases hi
    | some r =>
      have hcopied (l : NodeId) (c : Call) (hc : s.tree.call? (some l) = some c) (y : Link)
          (hy : y ∈ Canonical.copiedParts ops' s.tree c) : (s.tree.term y).Lacks k :=
        hord.within_term Canonical.ofLeaves_ne_parameter fun m f hm hform hf =>
          hk ⟨l, c, hc, y, hy, m, hm, hf ▸ hform⟩
      have hdepicted := (Canonical.finished_tracks v ops' hord hroot hr
        (Canonical.depicted_carries hord hcopied) fun j hj => by cases hj).1.holds
      obtain ⟨i₀, hi₀, hdone⟩ := hdepicted i hi
      obtain ⟨j₀, hj₀, hdone'⟩ := hdepicted j hj
      cases Script.parse_numbers h hi₀ hj₀
      exact Option.some.inj (hdone.symm.trans hdone')

end SqlAnalysis

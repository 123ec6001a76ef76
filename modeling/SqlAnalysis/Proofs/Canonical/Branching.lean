import SqlAnalysis.Proofs.Canonical.Form

/-!
The canonical form of a text shares no nodes. What was one node stays one node, what is needed twice
is copied, and the nodes of a text are in one place each. Only a statement that changes a table has
parts in common with the query for its rows.
-/

namespace SqlAnalysis

variable {c : Call}

theorem Tree.Single.upTo {t : Tree} (h : t.Single (c.operands ++ rest)) (n : Nat) :
    t.Single ((List.range n).map c.operand ++ (c.operands.drop n ++ rest)) := by
  have hdrop (n : Nat) (i : NodeId) : (c.operands.drop n).count (some i) =
      [c.operand n].count (some i) + (c.operands.drop (n + 1)).count (some i) := by
    by_cases hn : n < c.operands.length
    · rw [List.drop_eq_getElem_cons hn, ← List.singleton_append, List.count_append,
        Call.operand, List.getElem?_eq_getElem hn]
      rfl
    · rw [List.drop_eq_nil_of_le (by omega), List.drop_eq_nil_of_le (by omega),
        Call.operand, List.getElem?_eq_none (by omega)]
      rfl
  induction n with
  | zero => exact h
  | succ n ih =>
    refine ih.among fun i => ?_
    have := hdrop n i
    simp only [List.range_succ, List.map_append, List.map_cons, List.map_nil, List.count_append]
    omega

theorem Tree.Builds.and (h : Builds t m Q) (h' : Builds t m R) :
    Builds t m fun a u => Q a u ∧ R a u := ⟨h.1, h.2.1, h.2.2, h'.2.2⟩

namespace Canonical

open SqlAnalysis.Tree

variable {t : Tree}

/-- Nothing is under the node and one of the others, or under two of these. -/
abbrev SingleBeside (rest : List Link) (id : NodeId) (u : Tree) : Prop := u.Single (some id :: rest)

section

variable (ht : t.Ordered)
include ht

theorem leaf_single (h : t.Single rest) (f : Form) (hf : f.parts = []) :
    Builds t (Tree.build f) (SingleBeside rest) :=
  .push_single ht h fun i => by rw [hf]; exact Nat.le_refl _

theorem selectAll_single (h : t.Single (x :: y :: rest)) :
    Builds t (selectAll v x y span) (SingleBeside rest) := by
  refine .bind (leaf_single ht h (.identifier _) rfl) fun star u hu _ h => ?_
  refine .bind (.push_single hu h fun i => Nat.le_refl _) fun list w hw _ h =>
    .push_single hw h fun i => ?_
  simp only [Form.parts, SelectParts.operands, List.count_append, List.count_cons,
    List.count_nil, Option.none_beq_some, Bool.false_eq_true, if_false]
  omega

theorem block_single (h : t.Single xs) (hxs : Among (p.operands ++ rest) xs) :
    Builds t (block v p span) (SingleBeside rest) := .push_single ht h hxs

theorem ordered_single (h : t.Single (x :: y :: rest)) :
    Builds t (ordered v x y span) (SingleBeside rest) := by
  refine .get ?_
  split
  · rename_i c hc
    dsimp only
    split
    · rename_i hselect
      cases x with
      | none => cases hc
      | some i =>
        have hkind : (t.kind (some i)).isUpdate = false := by rw [kind_of_call? hc, hselect.1]; rfl
        refine .push_single ht ((h.open ht (form?_of_call? hc) hkind).upTo 8) fun i => ?_
        simp only [Form.parts, SelectParts.operands, SelectParts.ofCall,
          List.range, List.range.loop, List.map, List.count_append, List.count_cons]
        omega
    · exact selectAll_single ht h
  · exact selectAll_single ht h

theorem target_single (x y : Link) (h : t.Single rest) :
    Builds t (target v x y) fun z u => u.Single (z :: rest) := by
  refine .get (.bind (copy_single ht t x h) fun copy u hu _ h => ?_)
  split
  · exact .pure hu h
  · refine .get (.bind (copy_single hu u y h) fun name w hw _ h =>
      .get (.map (.push_single hw h fun i => ?_)))
    simp only [Form.parts, List.count_append, List.count_cons, List.count_nil]
    omega

theorem deletedRows_single (hv : v.Fits ops) (h : t.Single (p.condition :: rest)) :
    Builds t (deletedRows v p span) (SingleBeside rest) := by
  refine .bind (target_single ht _ _ h) fun source u hu _ h => ?_
  have hsource := (h.each _ List.mem_cons_self).has
  have hall : u.Single (source :: none :: p.condition :: rest) := h.among fun i => by
    simp only [List.count_cons, Option.none_beq_some, Bool.false_eq_true, if_false]
    omega
  refine .bind ((selectAll_single hu hall).and (selectAll_spec hu hsource .absent))
    fun all w hw _ ⟨h, list, hcall, _⟩ => .get ?_
  have hkind : (w.kind (some all)).isUpdate = false := by
    rw [kind_of_call? hcall, Call.kind, hv.select.2]
    rfl
  refine block_single hw (h.open hw (form?_of_call? hcall) hkind) fun i => ?_
  rw [show w.select (some all) = plainBlock (some list) source none none by rw [select, hcall]; rfl]
  simp only [Form.parts, SelectParts.operands, List.count_append, List.count_cons]
  omega

theorem assignments_single (k : Nat) (h : t.Single (sources ++ rest)) :
    Builds t (assignments v k sources) fun items u => u.Single (items ++ rest) := by
  induction sources generalizing t k rest with
  | nil => exact .pure ht h
  | cons source sources ih =>
    refine .bind (leaf_single ht h (.identifier _) rfl) fun name u hu _ h => .get ?_
    refine .bind (.push_single hu h (l := sources ++ rest) fun i => ?_) fun item w hw _ h => ?_
    · simp only [Form.parts, List.count_append, List.count_cons, List.count_nil]
      omega
    have h : w.Single (sources ++ some item :: rest) := h.among (.of_perm List.perm_middle)
    refine .bind (ih hw (k + 1) h) fun items z hz _ h =>
      .pure hz (h.among (.of_perm List.perm_middle.symm))

theorem updatedRows_single (h : t.Single (t.items p.sources ++ p.condition :: rest))
    (hsources : t.Has p.sources) :
    Builds t (updatedRows v p span) (SingleBeside rest) := by
  refine .bind (leaf_single ht h (.identifier _) rfl) fun star u hu hext h => .get ?_
  rw [hext.items_eq hsources]
  have h : u.Single (t.items p.sources ++ some star :: p.condition :: rest) :=
    h.among (.of_perm List.perm_middle)
  refine .bind (assignments_single hu 0 h) fun items w hw _ h => ?_
  refine .bind (.push_single hw h (l := p.condition :: rest) fun i => ?_) fun list z hz _ h => ?_
  · simp only [Form.parts, List.count_append, List.count_cons]
    omega
  refine .bind (target_single hz _ _ h) fun source r hr _ h => block_single hr h fun i => ?_
  simp only [SelectParts.operands, List.count_append, List.count_cons,
    List.count_nil, Option.none_beq_some, Bool.false_eq_true, if_false]
  omega

theorem equalityTests_single (isFirst : Bool)
    (h : t.Single ((if isFirst then [x] else []) ++ (whens ++ rest))) :
    Builds t (equalityTests v x isFirst whens) fun tests u => u.Single (tests ++ rest) := by
  induction whens generalizing t isFirst rest with
  | nil => exact .pure ht (h.among fun i => by simp only [List.count_append]; omega)
  | cons w whens ih =>
    have htests (value : Link) {u : Tree} (hu : u.Ordered)
        (h : u.Single (value :: w :: (whens ++ rest))) :
        Builds u (do
          let span := (← get).span? w
          let test ← Tree.push
            { form := .call { operator := v.equals, operands := [value, w] }, span }
          let tests ← equalityTests v x false whens
          return some test :: tests) fun ys z => z.Single (ys ++ rest) := by
      refine .get (.bind (.push_single hu h fun i => Nat.le_refl _) fun test r hr _ h => ?_)
      have h : r.Single (whens ++ some test :: rest) := h.among (.of_perm List.perm_middle)
      refine .bind (ih hr false h) fun tests z hz _ h =>
        .pure hz (h.among (.of_perm List.perm_middle.symm))
    rw [equalityTests]
    cases isFirst with
    | true => exact htests x ht h
    | false => exact .get (.bind (copy_single ht t x h) fun value u hu _ h => htests value hu h)

theorem items_single (h : t.Single (x :: rest)) : t.Single (t.items x ++ rest) := by
  cases hl : t.list? x with
  | none =>
    rw [items, hl]
    exact h.among fun i => (List.sublist_cons_self x rest).count_le _
  | some ys =>
    rw [items, hl]
    cases x with
    | none => cases hl
    | some i =>
      have hform := form?_of_list? hl
      have hkind : (t.kind (some i)).isUpdate = false := by
        rw [kind_eq_other hform fun c hc => by cases hc]
        rfl
      exact h.open ht hform hkind

theorem conditions_single (h : t.Single (p.value :: p.whens :: rest)) :
    Builds t (conditions v p) (SingleBeside rest) := by
  have h : t.Single (p.whens :: p.value :: rest) := h.among (.of_perm (.swap ..))
  have h : t.Single (p.value :: (t.items p.whens ++ rest)) :=
    (items_single ht h).among (.of_perm List.perm_middle.symm)
  exact .get (.bind (equalityTests_single ht true h) fun tests u hu _ h =>
    .push_single hu h fun i => Nat.le_refl _)

end

theorem statement_single {n : Node} (hn : n.form = .call { c with operands })
    (ht : t.Ordered) (hu : u.Ordered) (hext : t.Extends u) (hk : c.kind.isUpdate)
    (hold : t.Single (c.operands ++ rest)) (hnew : u.Single (kept ++ rest))
    (hops : ∀ y ∈ operands, y ∈ kept ∨ y ∈ (List.range m).map c.operand)
    (hkept : ∀ y ∈ kept, y = none ∨ y ∈ operands) (hzero : operands[0]? = kept[0]?) (hcovers :
    ∀ y ∈ operands, ∀ j d, u.call? (some j) = some d → u.Spans y j → ∃ z ∈ kept, u.Spans z j) :
    Builds u (Tree.push n) (SingleBeside rest) := by
  obtain ⟨hsound, hrest⟩ := List.forall_mem_append.mp hnew.each
  obtain ⟨hown, hothers, hcross⟩ := List.pairwise_append.mp hnew.apart
  have hext' := Extends.add u n
  have hform : (u.add n).2.form? (some u.size) = some (.call { c with operands }) :=
    hn ▸ u.form?_add n
  have hparts : n.form.parts = operands := hn ▸ rfl
  have hoperand {y : Link} (hy : y ∈ operands) : u.Sound y ∧ ∀ z ∈ rest, u.Apart y z := by
    rcases hops y hy with hy | hy
    · exact ⟨hsound y hy, hcross y hy⟩
    · obtain ⟨heach, hrest⟩ := List.forall_mem_append.mp (hold.upTo m).each
      obtain ⟨_, hrest'⟩ := List.forall_mem_append.mp hrest
      obtain ⟨_, _, hcross⟩ := List.pairwise_append.mp (hold.upTo m).apart
      exact ⟨(heach y hy).mono ht hext, fun z hz =>
        (hext.apart_iff ht (heach y hy).has (hrest' z hz).has).mpr
          (hcross y hy z (List.mem_append_right _ hz))⟩
  refine ⟨ordered_add hu fun y hy => (hoperand (hparts ▸ hy)).1.has, hext', .add hu (fun y hy =>
    (hoperand (hparts ▸ hy)).1) ⟨kept, ?_⟩ ⟨hrest, hothers⟩ fun y hy => (hoperand (hparts ▸ hy)).2⟩
  refine ⟨hext'.pairwise_apart hu (fun y hy => (hsound y hy).has) hown,
    fun hj => ⟨_, hform, (hkept _ hj).resolve_left nofun⟩, fun hplace ⟨f, hf, hy⟩ => ?_,
    fun hd hj => (spans_cases hj).imp_right fun ⟨y, ⟨f, hf, hy⟩, hj⟩ => ?_⟩
  · cases hf.symm.trans hform
    rcases hplace with hplace | rfl
    · rw [kind_of_call? (call?_of_form? hform)] at hplace
      cases hk.symm.trans hplace
    · exact hzero.symm.trans hy
  · cases hf.symm.trans hform
    have hhas := (hoperand hy).1.has
    rw [hext'.spans_iff hu hhas] at hj
    rw [hext'.call?_eq (.of_lt (hhas.spans hu hj))] at hd
    obtain ⟨z, hz, hj⟩ := hcovers y hy _ _ hd hj
    exact ⟨z, hz, (hext'.spans_iff hu (hsound z hz).has).mpr hj⟩

section

variable (ht : t.Ordered) (h : t.Single (c.operands ++ rest))
include ht h

theorem insert_single (hk : c.kind = .insert) :
    Builds t (keep c span ((InsertParts.ofCall c).withQuery (c.operand 1)))
      (SingleBeside rest) := by
  have hkept : t.Single (c.operand 0 :: c.operand 2 :: c.operand 1 ::
      c.operands.drop 4 ++ rest) := by
    refine (h.upTo 4).among fun i => ?_
    simp only [List.range, List.range.loop, List.map, List.count_append, List.count_cons]
    omega
  have hmem : ∀ y ∈ (InsertParts.ofCall c).withQuery (c.operand 1),
      y ∈ c.operand 0 :: c.operand 2 :: c.operand 1 :: c.operands.drop 4 := by
    grind [InsertParts.operands, InsertParts.ofCall]
  refine statement_single rfl ht ht (.refl t) (by rw [hk]; rfl) h hkept
    (m := 0) (fun y hy => .inl (hmem y hy)) ?_ rfl fun y hy j d _ hj => ⟨y, hmem y hy, hj⟩
  grind [InsertParts.operands, InsertParts.ofCall]

theorem delete_single (hv : v.Fits ops) (hk : c.kind = .delete) :
    Builds t (do
      let query ← deletedRows v (DeleteParts.ofCall c) span
      keep c span ((DeleteParts.ofCall c).withQuery (some query))) (SingleBeside rest) := by
  have hop (k : Nat) : t.Has (c.operand k) :=
    (c.operand_of_operands (fun y hy => h.each y (List.mem_append_left _ hy)) .absent k).has
  have hpool : t.Single (c.operand 1 :: c.operand 0 :: c.operand 2 ::
      (c.operands.drop 4 ++ rest)) := by
    refine (h.upTo 4).among fun i => ?_
    simp only [List.range, List.range.loop, List.map, List.count_append, List.count_cons]
    omega
  refine .bind ((deletedRows_single ht hv hpool).and (deletedRows_spec ht (p := .ofCall c)
    (hop 0) (hop 1) (hop 2))) fun query u hu hext ⟨hpool, list, source, hcall, _⟩ => ?_
  have hkept : u.Single (c.operand 0 :: c.operand 2 :: some query ::
      c.operands.drop 4 ++ rest) := by
    refine hpool.among fun i => ?_
    simp only [List.count_append, List.count_cons]
    omega
  refine statement_single rfl ht hu hext (by rw [hk]; rfl) h hkept (m := 2)
    ?_ ?_ rfl fun y hy j d _ hj => ?_
  · grind [DeleteParts.operands, DeleteParts.ofCall, List.range.loop]
  · grind [DeleteParts.operands, DeleteParts.ofCall]
  · -- the condition is the condition of the query
    have hy : y = c.operand 1 ∨
        y ∈ c.operand 0 :: c.operand 2 :: some query :: c.operands.drop 4 := by
      grind [DeleteParts.operands, DeleteParts.ofCall]
    rcases hy with rfl | hy
    · exact ⟨some query, by grind, (below_of_operand hcall (k := 3) hj).to_reflTransGen⟩
    · exact ⟨y, hy, hj⟩

end

theorem Assigned.spans {items items' : List Link} (h : Assigned v t k items items') (hy : y ∈ items)
    (hj : t.Spans y j) : ∃ item ∈ items', t.Spans item j := by
  induction items generalizing k items' with
  | nil => cases hy
  | cons source items ih =>
    obtain ⟨item, items', ⟨name, hcall, _⟩, hrest, rfl⟩ := List.forall₂_cons_left_iff.mp h
    rcases List.mem_cons.mp hy with rfl | hy
    · exact ⟨item, List.mem_cons_self, .head (.of_operands hcall List.mem_cons_self) hj⟩
    · obtain ⟨item', hmem, hj⟩ := ih hrest hy
      exact ⟨item', List.mem_cons_of_mem _ hmem, hj⟩

theorem SelectsUpdated.spans (h : SelectsUpdated v t p query)
    (hy : y = p.condition ∨ y ∈ t.items p.sources) (hj : t.Spans y j) : t.Spans query j := by
  obtain ⟨list, source, all, items, hcall, hlist, _, hitems, _⟩ := h
  rcases hy with rfl | hy
  · exact (below_of_operand hcall (k := 3) hj).to_reflTransGen
  · obtain ⟨item, hmem, hj⟩ := hitems.spans hy hj
    have hlist : t.Spans (some list) j := .head (.of_list hlist (List.mem_cons_of_mem _ hmem)) hj
    exact (below_of_operand hcall (k := 1) hlist).to_reflTransGen

section

variable (ht : t.Ordered) (h : t.Single (c.operands ++ rest))
include ht h

/-- A source of an update that is no list gives no new values; it is an operand like the others. -/
theorem update_single (hk : c.kind = .update) :
    Builds t (do
      let query ← updatedRows v (UpdateParts.ofCall c) span
      keep c span ((UpdateParts.ofCall c).withQuery (some query))) (SingleBeside rest) := by
  have hop (k : Nat) : t.Has (c.operand k) :=
    (c.operand_of_operands (fun y hy => h.each y (List.mem_append_left _ hy)) .absent k).has
  obtain ⟨own, hown, hpool⟩ : ∃ own,
    (own = c.operand 2 ∨ own = none ∧ ∃ ys, t.list? (c.operand 2) = some ys) ∧
      t.Single (t.items (c.operand 2) ++ c.operand 3 :: c.operand 0 ::
      c.operand 1 :: own :: c.operand 4 :: (c.operands.drop 6 ++ rest)) := by
    cases hl : t.list? (c.operand 2) with
    | none =>
      refine ⟨c.operand 2, .inl rfl, (h.upTo 6).among fun i => ?_⟩
      rw [items, hl]
      simp only [Option.getD, List.range, List.range.loop, List.map, List.count_append,
        List.count_cons]
      omega
    | some ys =>
      refine ⟨none, .inr ⟨rfl, ys, rfl⟩, items_single ht ((h.upTo 6).among fun i => ?_)⟩
      simp only [List.range, List.range.loop, List.map, List.count_append,
        List.count_cons, Option.none_beq_some, Bool.false_eq_true, if_false]
      omega
  refine .bind ((updatedRows_single ht hpool (hop 2)).and
    (updatedRows_spec ht (p := .ofCall c) (hop 0) (hop 2) (hop 3) (hop 4)))
    fun query u hu hext h => ?_
  obtain ⟨hpool, hquery⟩ := h
  have hkept : u.Single (c.operand 0 :: c.operand 1 :: own :: c.operand 4 ::
      some query :: c.operands.drop 6 ++ rest) := by
    refine hpool.among fun i => ?_
    simp only [List.count_append, List.count_cons]
    omega
  refine statement_single rfl ht hu hext (by rw [hk]; rfl) h hkept (m := 4)
    ?_ ?_ rfl fun y hy j d hd hj => ?_
  · grind [UpdateParts.operands, UpdateParts.ofCall, List.range.loop]
  · grind [UpdateParts.operands, UpdateParts.ofCall]
  · have hmem : some query ∈ c.operand 0 :: c.operand 1 :: own :: c.operand 4 ::
      some query :: c.operands.drop 6 := by grind
    have hy : y = c.operand 2 ∨ y = c.operand 3 ∨ y ∈ c.operand 0 :: c.operand 1 ::
        own :: c.operand 4 :: some query :: c.operands.drop 6 := by
      grind [UpdateParts.operands, UpdateParts.ofCall]
    rcases hy with rfl | rfl | hy
    · rcases hown with rfl | ⟨_, ys, hl⟩
      · exact ⟨_, by grind, hj⟩
      · -- a call under a list is under an item
        have hlist : u.list? (c.operand 2) = some ys := hext.list? hl
        rcases Relation.ReflTransGen.cases_head hj with heq | ⟨z, ⟨f, hf, hz⟩, hj⟩
        · rw [heq, list?, form?_of_call? hd] at hlist
          cases hlist
        · cases (form?_of_list? hlist).symm.trans hf
          refine ⟨some query, hmem, hquery.spans (.inr ?_) hj⟩
          show z ∈ u.items (c.operand 2)
          rwa [items, hlist]
    · exact ⟨some query, hmem, hquery.spans (.inl rfl) hj⟩
    · exact ⟨y, hy, hj⟩

theorem caseOf_single :
    Builds t (do
      let whens ← conditions v (CaseParts.ofCall c)
      keep c span (((CaseParts.ofCall c).withTests whens).take c.operands.length))
      (SingleBeside rest) := by
  have h : t.Single (c.operand 0 :: c.operand 1 :: c.operand 2 :: c.operand 3 ::
    (c.operands.drop 4 ++ rest)) := h.upTo 4
  refine .bind (conditions_single ht h) fun whens u hu _ h => .push_single hu h fun i => ?_
  have := (List.take_sublist c.operands.length
    ((CaseParts.ofCall c).withTests whens)).count_le (some i)
  simp only [Form.parts, CaseParts.operands, CaseParts.ofCall, List.count_append,
    List.count_cons, List.count_nil, Option.none_beq_some, Bool.false_eq_true, if_false] at this ⊢
  omega

theorem call_single (hv : v.Fits ops) :
    Builds t (call v c span top) (SingleBeside rest) := by
  have hkeep : Builds t (keep c span c.operands) (SingleBeside rest) :=
    .push_single ht h fun _ => Nat.le_refl _
  have hnone {t : Tree} {x : Link} {rest : List Link} (h : t.Single (x :: rest)) : t.Single
      (x :: none :: rest) :=
    h.among fun i => by
      simp only [List.count_cons, Option.none_beq_some, Bool.false_eq_true, if_false]; omega
  have hset : Builds t (do
      let out ← keep c span c.operands
      if top then selectAll v (some out) none span
      else return out) (SingleBeside rest) := by
    refine .bind hkeep fun out u hu _ hout => ?_
    split
    · exact selectAll_single hu (hnone hout)
    · exact .pure hu hout
  unfold call
  dsimp only
  split
  · refine ordered_single ht ((h.upTo 2).among fun i => ?_)
    simp only [List.range, List.range.loop, List.map, List.count_append, List.count_cons]
    omega
  · refine selectAll_single ht (hnone ((h.upTo 1).among fun i => ?_))
    simp only [List.range, List.range.loop, List.map, List.count_append, List.count_cons]
    omega
  · exact hset
  · exact hset
  · exact hset
  · exact hset
  · exact insert_single ht h ‹_›
  · exact delete_single ht h hv ‹_›
  · exact update_single ht h ‹_›
  · split
    · exact hkeep
    · exact caseOf_single ht h
  · exact hkeep

end

theorem imageOf_single (hv : v.Fits ops) (hp : p.tree.Ordered)
    (h : p.tree.Single (n.form.parts.map p.image ++ rest)) :
    Builds p.tree (imageOf v ops p n top) (SingleBeside rest) := by
  unfold imageOf
  split
  · rename_i c hc
    rw [hc] at h
    refine call_single hp (h.among fun i => ?_) hv
    simp only [imageCall, padded, Form.parts, List.count_append, List.count_replicate,
      Option.none_beq_some, Bool.false_eq_true, if_false]
    omega
  · rename_i items hitems
    rw [hitems] at h
    exact .push_single hp h fun _ => Nat.le_refl _
  · refine .push_single hp h fun i => ?_
    have hleaf : n.form.parts = [] := by
      unfold Form.parts
      split <;> simp_all
    rw [hleaf]
    exact Nat.le_refl _

/-- What stands for nodes that have nothing in common has nothing in common. -/
def Progress.Unmixed (source : Tree) (p : Progress) : Prop :=
  ∀ xs : List Link, xs.Pairwise source.Apart →
    (∀ i, some i ∈ xs → ∃ out, p.done.get? i = some out) → p.tree.Single (xs.map p.image)

theorem unmixed_carries (hv : v.Fits ops) (hs : source.Ordered) (hnests : source.Nests) :
    Carries v ops source root (Progress.Unmixed source) := by
  intro i n p top hi hp hnew hparts xs hxs hdone
  have hform : source.form? (some i) = some n.form := by rw [form?, hi]; rfl
  have hhas {y : Link} (hy : y ∈ n.form.parts) : source.Has y := .part hs hform hy
  have hpool {zs : List Link} (hzs : (some i :: zs).Pairwise source.Apart)
      (hdone : ∀ j, some j ∈ zs → ∃ out, p.done.get? j = some out) :
      Builds p.tree (imageOf v ops p n top) fun id u => u.Single (some id :: zs.map p.image) := by
    obtain ⟨hcross, hzs⟩ := List.pairwise_cons.mp hzs
    refine imageOf_single hv hp.ordered
      (List.map_append ▸ hp.holds (n.form.parts ++ zs) (List.pairwise_append.mpr ⟨?_, hzs, ?_⟩) ?_)
    · exact (hnests.beside hform).imp_of_mem fun hy hz h => hnests.apart hs (hhas hy) (hhas hz) h
    · exact fun y hy z hz j hj => hcross z hz j (.head ⟨_, hform, hy⟩ hj)
    · intro j hj
      exact (List.mem_append.mp hj).elim (fun hj => (hparts j hj).2) (hdone j)
  have hkeep {j : NodeId} (hne : i ≠ j) : (p.finish i (imageOf v ops p n top)).done.get? j =
      p.done.get? j :=
    (p.get?_finish ..).trans (if_neg hne)
  have hother {zs : List Link} (hmem : some i ∉ zs) : zs.map
      (p.finish i (imageOf v ops p n top)).image = zs.map p.image := by
    refine List.map_congr_left fun z hz => ?_
    cases z with
    | none => rfl
    | some j => exact hkeep fun h => hmem (h ▸ hz)
  have hold {zs : List Link} (hmem : some i ∉ zs) (hzs : ∀ j, some j ∈ zs →
      some j ∈ xs) (j : NodeId) (hj : some j ∈ zs) :
      ∃ out, p.done.get? j = some out := by
    obtain ⟨out, hout⟩ := hdone j (hzs j hj)
    exact ⟨out, (hkeep fun h => hmem (h ▸ hj)).symm.trans hout⟩
  by_cases hmem : some i ∈ xs
  · have hperm := List.perm_cons_erase hmem
    have happart := (hperm.pairwise_iff Apart.symm).mp hxs
    have hrest : some i ∉ xs.erase (some i) :=
      fun h => (List.pairwise_cons.mp happart).1 _ h i .refl .refl
    have hsingle := (hpool happart (hold hrest fun j hj => List.mem_of_mem_erase hj)).2.2
    refine hsingle.among (.of_perm ?_)
    rw [← hother hrest]
    refine (hperm.map _).trans (.of_eq (congrArg (· :: _) ?_))
    exact (p.get?_finish ..).trans (if_pos rfl)
  · rw [hother hmem]
    have hext := (hpool (List.pairwise_singleton _ _) (by rintro _ ⟨⟩)).2.1
    exact (hp.holds xs hxs (hold hmem fun _ hj => hj)).mono hp.ordered hext

end Canonical

theorem Statement.canonical_unshared (h : Script.parse ops text = .ok s)
    (h' : s.canonical ops' = .ok s') : s'.tree.Unshared s'.root := by
  obtain ⟨hs, hroot, _⟩ := Script.parse_reads h
  refine Tree.unshared_of_neat (Statement.canonical_ordered h').1 fun i hi => ?_
  cases hv : Canonical.Vocabulary.ofRegistry ops' with
  | error e =>
    rw [Statement.canonical, hv] at h'
    cases h'
  | ok v =>
    rw [Canonical.canonical_eq hv hs hroot] at h'
    cases h'
    rw [Canonical.image_eq hv] at hi
    cases hr : s.root with
    | none =>
      rw [hr] at hi
      exact absurd hi Tree.not_spans_none
    | some r =>
      have hstart : Canonical.Progress.Unmixed s.tree {} := by
        -- nothing is done at the start
        refine fun xs _ hdone => (Tree.Single.mk nofun .nil : Tree.Single _ []).among fun i => ?_
        refine (List.count_eq_zero.mpr fun hi => ?_).le
        obtain ⟨x, hx, hi⟩ := List.mem_map.mp hi
        cases x with
        | none => cases hi
        | some j =>
          obtain ⟨out, hout⟩ := hdone j hx
          cases hout
      obtain ⟨htracks, hdone, _⟩ := Canonical.finished_tracks v ops' hs hroot hr
        (Canonical.unmixed_carries (Canonical.Vocabulary.fits_of_ofRegistry hv)
        hs (Script.parse_nests h)) hstart
      rw [hr] at hi
      have hsingle := htracks.holds [some r] (List.pairwise_singleton _ _) fun j hj => by
        cases List.mem_singleton.mp hj
        exact hdone
      exact (hsingle.each _ List.mem_cons_self).neat hi

end SqlAnalysis

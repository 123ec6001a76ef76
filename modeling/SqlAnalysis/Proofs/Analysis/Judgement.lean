import SqlAnalysis.Proofs.Analysis.Window

/-!
The two judgements about expressions, derivation of types and inference from the context, and the
check of grouped expressions. Each goes only where the node leads to.
-/

namespace SqlAnalysis.Analysis

variable {e : Engine}

section Queries

variable [Refusing I H] (hv : ∀ ns, Keeps s I H (e.validate ns .unknown))
include hv

theorem queryRow_keeps {id : Link} : Keeps s I H (queryRow e id) := by
  unfold queryRow
  grind [rowOf_keeps]

theorem deriveCollected_keeps {id : NodeId} : Keeps s I H (deriveCollected e id) := by
  unfold deriveCollected
  grind [rowOf_keeps]

variable [Hushed I]

theorem deriveQuery_keeps (id : Link) : Keeps s I H (deriveQuery e id) := by
  unfold deriveQuery
  grind [queryRow_keeps]

theorem deriveIdentifier_keeps [Heeding s W I] (hcounted : ∃ steps, e = engine steps)
    {scope : ScopeId} {id : NodeId} (hid : W.typed (some id))
    (hf : ∀ a, I a → a.tree.form? (some id) = some (.identifier i)) :
    Keeps s I H (deriveIdentifier e scope id i) := by
  obtain ⟨steps, rfl⟩ := hcounted
  have hresolved {a : Analysis} (ha : I a) (hplain : i.isSimple →
      ∃ c, nullaryFrom (s.operators.lookup i.last .functionId) s c = (.ok none, a))
      {k : Resolved → AnalysisM SqlType}
      (hk : ∀ r, Keeps s I H (k r)) : GivesFrom s I H (do
        let r ← resolve (engine steps) scope (some id) i
        setQualified id r.names
        k r) (fun _ _ => True) a := by
    refine .bind (resolve_keeps hv scope _ i) ha fun r b hrun hb hadv => ?_
    refine .seq (J := fun _ _ => True) (.of_ok rfl ?_ (.of_eq rfl) trivial)
      fun _ => hk r
    exact Heeding.mark (.qualified hid ha (hf a ha) hplain hrun hb hadv)
  unfold deriveIdentifier
  refine .of_from fun a ha => ?_
  dsimp only
  split
  · rename_i hsimple
    refine .bind_read (.bind nullaryFrom_keeps ha fun found b hrun hb hadv => ?_)
    split
    · rename_i o t
      refine .of_ok rfl ?_ (.of_eq rfl) trivial
      exact Heeding.mark (.function hid ha (hf a ha) hsimple hrun hb)
    · rename_i hnone
      refine hresolved hb (fun _ => ⟨a, ?_⟩) fun r => by grind
      cases found with
      | none => exact hrun
      | some p => exact absurd rfl (hnone p.1 p.2)
  · rename_i hsimple
    exact hresolved ha (fun h => absurd h hsimple) fun r => by grind

end Queries

variable {t : Tree}

section Derive

theorem form?_of_isNull (h : t.isNull x) : t.form? x = some (.literal .null) := by
  unfold Tree.isNull Tree.literal? at h
  split at h
  · rename_i l hl
    cases l <;> first | exact hl | cases h
  · cases h

variable [Hushed I] [Refusing I H] [Heeding s W I] {id : NodeId} (he : e.Serves s I H R)
  (hs : R.scopes scope)
include he hs

theorem membersType_keeps (hx : R.typed x) : Keeps s I H (membersType e scope x) := by
  unfold membersType
  have hq := deriveQuery_keeps he.relation x
  grind [he.derive]

theorem deriveIn_keeps (h : ∀ y ∈ c.operands, R.typed y) (hid : W.typed (some id))
    (hc : ∀ a, I a → a.tree.call? (some id) = some c) (hk : c.kind = .isIn ∨ c.kind = .isNotIn) :
    Keeps s I H (deriveIn e scope id c) := by
  have hoverload : Keeps s I H (setOverload id c.operator) :=
    setOverload_keeps hid hc (.inr (.inr hk))
  refine .seq (he.derive hs (c.operand_of_operands h he.absent 0)) fun value => ?_
  refine .seq (membersType_keeps he hs (c.operand_of_operands h he.absent 1)) fun members => ?_
  grind

def NullBranches (branches : List Link) (ids : List NodeId) (a : Analysis) : Prop :=
  ∀ n ∈ ids, some n ∈ branches ∧ a.tree.form? (some n) = some (.literal .null)

instance (branches : List Link) (ids : List NodeId) : Stable (NullBranches branches ids) :=
  ⟨fun h hadv n hn => ⟨(h n hn).1, hadv.tree.form? (h n hn).2⟩⟩

omit [Hushed I] [Refusing I H] in
theorem branchTypes_gives (h : ∀ y ∈ branches, R.typed y) :
    Gives s I H (branchTypes e scope branches) fun r => NullBranches branches r.2.1 := by
  induction branches with
  | nil => exact .pure fun _ _ => nofun
  | cons b branches ih =>
    have hrest := ih fun y hy => h y (List.mem_cons_of_mem b hy)
    have hmore {ids : List NodeId} {a : Analysis} (hr : NullBranches branches ids a) : NullBranches
        (b :: branches) ids a :=
      fun n hn => ⟨List.mem_cons_of_mem b (hr n hn).1, (hr n hn).2⟩
    rw [branchTypes]
    refine .of_from fun a ha => .bind_get ?_
    split
    · rename_i hnull
      refine .bind_gives (hrest a ha) fun r c _ hc hadv hr => .pure hc fun n hn => ?_
      rcases List.mem_append.mp hn with hn | hn
      · cases Option.mem_toList.mp hn
        exact ⟨List.mem_cons_self, hadv.tree.form? (form?_of_isNull hnull)⟩
      · exact hmore hr n hn
    · refine .bind (he.derive hs (h b List.mem_cons_self)) ha fun t c _ hc _ => ?_
      refine .bind_gives (hrest c hc) fun r d _ hd _ hr => ?_
      dsimp only
      split
      · exact .pure hd (hmore hr)
      · exact .pure hd (hmore hr)

theorem deriveCase_keeps (hid : W.typed (some id)) (hc : ∀ a, I a → a.tree.call? (some id) = some c)
    (hk : c.kind = .caseOf) (hx : ∀ a, I a → a.Reaches s scope R.typed (some id)) :
    Keeps s I H (deriveCase e scope id c) := by
  have hq : c.kind.isQuery = false := by rw [hk]; rfl
  refine .bind_get_after fun a ha => ?_
  have he' : e.Serves s (fun b => I b ∧ Advances a b) H R := he.frame
  have hwhens : ∀ y ∈ a.tree.elements (c.operand 1), R.typed y :=
    (hx a ha).operandElements (hc a ha) hq 1
  have hthens : ∀ y ∈ a.tree.elements (c.operand 2), R.typed y :=
    (hx a ha).operandElements (hc a ha) hq 2
  have hbranches : ∀ y ∈ a.tree.elements (c.operand 2) ++ (c.operand 3).toList.map some,
      R.typed y := by
    intro y hy
    obtain hy | hy := List.mem_append.mp hy
    · exact hthens y hy
    · obtain ⟨z, hz, rfl⟩ := List.mem_map.mp hy
      exact (hx a ha).operands (hc a ha) hq _ (c.mem_operands_of_operand (Option.mem_toList.mp hz))
  dsimp only [CaseParts.ofCall]
  split
  · exact .refuse_bind
  refine .seq (checkConditions_keeps he' hs hwhens) fun _ => ?_
  refine .bind_gives (branchTypes_gives he' hs hbranches) fun r => ?_
  have hnull (t : SqlType) : ∀ n ∈ r.2.1, Keeps s (fun b => (I b ∧ Advances a b) ∧
      NullBranches (a.tree.elements (c.operand 2) ++ (c.operand 3).toList.map some) r.2.1 b)
      H (setType n t) := by
    intro n hn
    refine .of_from fun b hb => .of_ok (run_setType b n t s) ⟨?_, Stable.advances hb.2 (.of_eq rfl)⟩
      (.of_eq rfl) trivial
    refine Heeding.mark (s := s) (I := fun b => I b ∧ Advances a b)
      (.null hb.1 (hb.2 n hn).2
      (.inr ⟨a, id, c, ⟨ha, .refl a⟩, hb.1.2, hid, hc a ha, .inl ⟨hk, ?_⟩⟩))
    refine (List.mem_append.mp (hb.2 n hn).1).imp_right fun h => ?_
    obtain ⟨m, hm, heq⟩ := List.mem_map.mp h
    cases heq
    exact Option.mem_toList.mp hm
  split
  · exact .refuse_bind
  refine .seq (building_keeps TypeTable.leastRestrictive_steady) fun common => ?_
  split
  · exact .refuse
  · exact .seq (building_keeps (TypeTable.withNullable_steady _ _)) fun result =>
      .seq (.forM (hnull result)) fun _ => Keeps.pure _

theorem deriveCall_keeps (hid : W.typed (some id))
    (hw : ∀ {id}, R.typed id → Keeps s I H (resolveWindow scope id))
    (hc : ∀ a, I a → a.tree.call? (some id) = some c) (hq : c.kind.isQuery = false)
    (hx : ∀ a, I a → a.Reaches s scope R.typed (some id)) :
    Keeps s I H (deriveCall e scope id c) := by
  refine .of_state fun a ha => ?_
  have hops := (hx a ha).operands (hc a ha) hq
  have hop := c.operand_of_operands hops he.absent
  unfold deriveCall
  split
  iterate 5 exact he.derive hs (hop 0)
  · exact deriveExists_keeps he hs hops hid hc ‹_›
  · exact deriveCollected_keeps he.relation
  · exact deriveMultiset_keeps he hs hops
  · exact deriveRow_keeps he hs hops
  · exact deriveCase_keeps he hs hid hc ‹_› hx
  · exact deriveCast_keeps he hs hops hid hc ‹_›
  · exact deriveOver_keeps he hs hid hw hc ‹_› hx
  · exact deriveField_keeps he hs hops
  · exact deriveIn_keeps he hs hops hid hc (.inl ‹_›)
  · exact deriveIn_keeps he hs hops hid hc (.inr ‹_›)
  · exact Keeps.pure _
  · exact deriveOperator_keeps he hs hops hc (.inl ⟨hid, hq⟩) false

theorem deriveForm_keeps {f : Form} (hid : W.typed (some id))
    (hw : ∀ {id}, R.typed id → Keeps s I H (resolveWindow scope id))
    (hf : ∀ a, I a → a.tree.form? (some id) = some f ∧ (a.tree.kind (some id)).isQuery = false)
    (hx : ∀ a, I a → a.Reaches s scope R.typed (some id)) :
    Keeps s I H (deriveForm e scope id f) := by
  refine .of_state fun a ha => ?_
  cases f with
  | literal l => exact .bind_read (building_keeps (l.sqlType_steady _))
  | identifier i => exact deriveIdentifier_keeps he.relation he.counted hid fun b hb => (hf b hb).1
  | parameter k => exact Keeps.pure _
  | list items =>
    exact deriveList_keeps he hs (fun y hy => (hx a ha).step (.part (hf a ha).1 (hf a ha).2 hy))
  | typeSpec spec => exact namedType_keeps (some id) spec
  | qualifier q => exact building_keeps TypeTable.interval_steady
  | call c =>
    have hc := fun b hb => Tree.call?_of_form? (hf b hb).1
    exact deriveCall_keeps he hs hid hw hc (Tree.kind_of_call? (hc a ha) ▸ (hf a ha).2) hx

theorem derive_keeps (hid : W.typed x)
    (hw : ∀ {id}, R.typed id → Keeps s I H (resolveWindow scope id))
    (hx : ∀ a, I a → a.Reaches s scope R.typed x) : Keeps s I H (derive e scope x) := by
  obtain ⟨steps, rfl⟩ := he.counted
  refine .of_from fun a ha => .bind_get ?_
  split
  · exact deriveQuery_keeps he.relation x a ha
  · rename_i hq
    split
    · rename_i i f hf
      split
      · exact .pure ha trivial
      · rename_i hnew
        have hform : Keeps s (fun b => I b ∧ Advances a b) H
            (deriveForm (engine steps) scope i f) := by
          refine deriveForm_keeps he.frame hs hid (fun hid => (hw hid).frame)
            (fun b hb => ?_) fun b hb => hx b hb.1
          have hfb := hb.2.tree.form? hf
          exact ⟨hfb, Tree.kind_congr (hfb.trans hf.symm) ▸ Bool.not_eq_true _ ▸ hq⟩
        obtain ⟨⟨hb, _⟩, hr⟩ := hform a ⟨ha, .refl a⟩
        rw [GivesFrom, run_bind]
        rcases hrun : deriveForm (engine steps) scope i f s a with ⟨halt | t, b⟩ <;>
          rw [hrun] at hb hr
        · exact ⟨hb, hr⟩
        · dsimp only
          rw [run_bind, run_setType]
          refine ⟨⟨?_, hb.2.trans (.of_eq rfl)⟩, trivial⟩
          exact Heeding.mark (.derived hid ha hf (by simpa using hq) hnew hrun hb.1 hb.2)
    · exact .refuse ha

end Derive

section Infer

variable [Hushed I] [Heeding s W I] {id : NodeId} (he : e.Serves s I H R) (hs : R.scopes scope)
include he hs

theorem inferOperands_keeps (h : ∀ y ∈ c.operands, R.typed y)
    (hoffer : c.operator.expects ≠ none → ∀ y ∈ c.operands, R.expected y) (target : SqlType) :
    Keeps s I H (inferOperands e scope c target) := by
  unfold inferOperands Engine.deriveSoft
  refine .bind_get fun a _ => ?_
  split
  · refine .bind (.pure rfl) ?_
    rintro _ rfl
    refine Keeps.forM fun p hp => he.infer hs ?_
    obtain ⟨hy, ht⟩ := List.of_mem_zip hp
    obtain ⟨_, _, ht⟩ := List.mem_map.mp ht
    exact .inr ⟨ht ▸ rfl, h p.1 hy⟩
  · rename_i rule hrule
    refine .seq (.mapM fun arg harg => ?_) fun ts =>
      .seq (building_keeps (OperandRule.expected_steady _ ts target)) fun expected =>
      Keeps.forM fun p hp =>
        he.infer hs (.inl (hoffer (by simp [hrule]) p.1 (List.of_mem_zip hp).1))
    grind [he.derive]

theorem inferCase_keeps (hid : W.typed (some id)) (hself : Keeps s I H (e.derive scope (some id)))
    (hc : ∀ a, I a → a.tree.call? (some id) = some c) (hk : c.kind = .caseOf)
    (hoffer : ∀ a, I a → ∀ y, a.tree.Passes (some id) y → R.expected y) :
    Keeps s I H (inferCase e scope id c) := by
  refine .bind_get_after fun a ha => ?_
  have he' : e.Serves s (fun b => I b ∧ Advances a b) H R := he.frame
  have hbranch (k : Nat) : ∀ y ∈ a.tree.elements (c.operand k), R.expected y := fun y hy =>
    hoffer a ha y (.branch (hc a ha) hk hy)
  dsimp only [CaseParts.ofCall]
  refine .seq boolean_keeps fun condition => ?_
  refine .seq (.forM fun y hy => he'.infer hs (.inl (hbranch 1 y hy))) fun _ =>
    .seq hself.frame fun type => ?_
  refine .seq (.forM fun y hy => he'.infer hs (.inl (hbranch 2 y hy))) fun _ => ?_
  cases hother : c.operand 3 with
  | none => exact Keeps.pure _
  | some b =>
    dsimp only
    split
    · rename_i hnull
      refine .of_from fun d hd => .of_ok (run_setType d b type s) ?_ (.of_eq rfl) trivial
      have hform := hd.2.tree.form? (form?_of_isNull hnull)
      exact Heeding.mark (s := s) (I := fun b => I b ∧ Advances a b)
        (.null hd hform
        (.inr ⟨a, id, c, ⟨ha, .refl a⟩, hd.2, hid, hc a ha, .inl ⟨hk, .inr hother⟩⟩))
    · refine he'.infer hs
        (.inl (hoffer a ha _ (.operand (hc a ha) ?_ ?_ ?_ (c.mem_operands_of_operand hother))))
      all_goals rw [hk]
      · rfl
      · nofun
      · nofun

theorem inferCast_keeps (h : ∀ y ∈ c.operands, R.typed y) (hid : W.typed (some id))
    (hc : ∀ a, I a → a.tree.call? (some id) = some c) (hk : c.kind = .cast)
    (hoffer : ∀ a, I a → ∀ y, a.tree.Passes (some id) y → R.expected y) :
    Keeps s I H (inferCast e scope c) := by
  have hop := c.operand_of_operands h he.absent
  refine .seq (he.derive hs (hop 1)) fun type => ?_
  cases hsource : c.operand 0 with
  | none => exact Keeps.pure _
  | some source =>
    refine .bind_get_after fun a ha => ?_
    have he' : e.Serves s (fun b => I b ∧ Advances a b) H R := he.frame
    split
    · rename_i hnull
      refine .seq (building_keeps (TypeTable.withNullable_steady true type)) fun t => ?_
      refine .of_from fun d hd => .of_ok (run_setType d source t s) ?_ (.of_eq rfl) trivial
      have hform := hd.2.tree.form? (form?_of_isNull hnull)
      exact Heeding.mark (s := s) (I := fun b => I b ∧ Advances a b)
        (.null hd hform (.inr ⟨a, id, c, ⟨ha, .refl a⟩, hd.2, hid, hc a ha, .inr ⟨hk, hsource⟩⟩))
    · refine he'.infer hs
        (.inl (hoffer a ha _ (.operand (hc a ha) ?_ ?_ ?_ (c.mem_operands_of_operand hsource))))
      all_goals rw [hk]
      · rfl
      · nofun
      · nofun

theorem inferOver_keeps (hc : ∀ a, I a → a.tree.call? (some id) = some c)
    (hk : c.kind = .over) (hx : ∀ a, I a → a.Reaches s scope R.typed (some id))
    (hoffer : ∀ a, I a → ∀ y, a.tree.Passes (some id) y → R.expected y) :
    Keeps s I H (inferOver e scope c target) := by
  refine .bind_get fun a ha => ?_
  have hq : c.kind.isQuery = false := by rw [hk]; rfl
  have hwindow :=
    he.inferUnknown hs (c.operand_of_operands ((hx a ha).operands (hc a ha) hq) he.absent 1)
  split
  · rename_i inner hinner
    have hargs : ∀ y ∈ inner.operands, R.typed y := fun y hy =>
      (hx a ha).step (.operand (hc a ha) hk hinner hy)
    have hpush := inferOperands_keeps he hs hargs
      (fun hrule y hy => hoffer a ha y (.windowed (hc a ha) hk hinner hrule hy)) target
    exact .seq hpush fun _ => hwindow
  · exact hwindow

theorem inferCall_keeps (hid : W.typed (some id)) (hself : Keeps s I H (e.derive scope (some id)))
    (hc : ∀ a, I a → a.tree.call? (some id) = some c)
    (hx : ∀ a, I a → a.Reaches s scope R.typed (some id))
    (hoffer : ∀ a, I a → ∀ y, a.tree.Passes (some id) y → R.expected y)
    (hhand : target.isUnknown = false → ∀ a, I a → ∀ y, a.tree.Hands (some id) y → R.expected y) :
    Keeps s I H (inferCall e scope id c target) := by
  refine .of_state fun a ha => ?_
  unfold inferCall
  split
  · exact Keeps.pure _
  · rename_i hstatement
    have hstatement : c.kind.isStatement = false := by simpa using hstatement
    have hq : c.kind.isQuery = false := by
      simp only [Kind.isStatement, Bool.or_eq_false_iff] at hstatement
      exact hstatement.1
    have hops := (hx a ha).operands (hc a ha) hq
    have hop := c.operand_of_operands hops he.absent
    have hfirst (hk : c.kind = .naming ∨ c.kind = .descending) : R.Offers (c.operand 0) target := by
      cases ht : target.isUnknown with
      | true => exact .inr ⟨ht, hop 0⟩
      | false => exact .inl (hhand ht a ha _ (.operand (hc a ha) hk))
    split
    iterate 5 exact Keeps.pure _
    · exact he.infer hs (hfirst (.inl ‹_›))
    · exact he.infer hs (hfirst (.inr ‹_›))
    · exact inferCase_keeps he hs hid hself hc ‹_› hoffer
    · exact inferCast_keeps he hs hops hid hc ‹_› hoffer
    · exact inferOver_keeps he hs hc ‹_› hx hoffer
    · exact .seq (he.inferUnknown hs (hop 2)) fun _ => he.inferUnknown hs (hop 3)
    · refine .bind_get fun b hb => inferOperands_keeps he ?_ hops (fun _ y hy => ?_) target
      · split
        · exact he.ungrouped hb hs
        · exact hs
      · exact hoffer a ha y (.operand (hc a ha) hstatement ‹_› ‹_› hy)

omit [Hushed I] in
theorem inferList_keeps (h : ∀ y ∈ items, R.typed y)
    (hhand : target.isUnknown = false → ∀ y ∈ items, R.expected y) :
    Keeps s I H (inferList e scope items target) := by
  unfold inferList
  split
  · split
    · exact .forM fun p hp => he.infer hs (.inl (hhand rfl p.1 (List.of_mem_zip hp).1))
    · exact Keeps.pure _
  · refine .forM fun y hy => he.infer hs ?_
    cases ht : target.isUnknown with
    | true => exact .inr ⟨ht, h y hy⟩
    | false => exact .inl (hhand ht y hy)

/-- Inference at a node asks only about nodes that it leads to, and about the type of the node
itself. Types that are known are pushed into the nodes that a rule for the node finds types for. -/
theorem infer_keeps [Refusing I H] (hid : W.typed x)
    (hexpected : target.isUnknown = false → W.expected x)
    (hself : Keeps s I H (e.derive scope x)) (hx : ∀ a, I a → a.Reaches s scope R.typed x)
    (hoffer : ∀ a, I a → ∀ y, a.tree.Passes x y → R.expected y)
    (hhand : target.isUnknown = false → ∀ a, I a → ∀ y, a.tree.Hands x y → R.expected y) :
    Keeps s I H (infer e scope x target) := by
  refine .bind_get_after fun a ha => ?_
  have he' : e.Serves s (fun b => I b ∧ Advances a b) H R := he.frame
  split
  · rename_i i k hf
    split
    · exact .refuse_bind
    · rename_i hknown
      have hknown : target.isUnknown = false := by simpa using hknown
      refine .of_from fun b hb => .bind (building_keeps (TypeTable.withNullable_steady true target))
        hb fun t d hrun hd _ => ?_
      refine .of_ok (v := ()) (b := d.withParameter i k t) ?_ ?_ (.of_eq rfl) trivial
      · rw [run_bind, run_setType]
        rfl
      · exact Heeding.mark (I := fun b => I b ∧ Advances a b)
          (.parameter (hexpected hknown) hb (hb.2.tree.form? hf) hknown hrun hd)
  · rename_i i hf
    split
    · exact .refuse_bind
    · have hknown : target.isUnknown = false := by simp_all
      refine .seq (building_keeps (TypeTable.withNullable_steady true target)) fun t => ?_
      refine .of_from fun d hd => .of_ok (run_setType d i t s) ?_ (.of_eq rfl) trivial
      exact Heeding.mark (s := s) (I := fun b => I b ∧ Advances a b)
        (.null hd (hd.2.tree.form? hf) (.inl (hexpected hknown)))
  · rename_i items hf
    refine inferList_keeps he' hs (fun y hy => (hx a ha).step (.part hf ?_ hy)) fun hknown y hy =>
      ?_
    · rw [Tree.kind_eq_other hf fun _ => nofun]
      rfl
    · exact hhand hknown a ha y (.item hf hy)
  · rename_i hf
    exact inferCall_keeps he' hs hid hself.frame (fun b hb => Tree.call?_of_form?
      (hb.2.tree.form? hf)) (fun b hb => hx b hb.1) (fun b hb => hoffer b hb.1) fun hknown b hb =>
      hhand hknown b hb.1
  · exact Keeps.pure _

end Infer

section Group

theorem call?_of_isCall (h : t.isCall x [k]) : ∃ c, t.call? x = some c ∧ c.kind = k := by
  unfold Tree.isCall at h
  split at h
  · rename_i c hc
    exact ⟨c, hc, by simpa using h⟩
  · cases h

theorem windowAt_of_call? (h : t.call? x = some c) : windowAt t m q x = x := by
  rw [windowAt, Tree.identifier?, Tree.form?_of_call? h]

theorem checkGroupedWindow_eq
    (hc : a.tree.call? (windowAt a.tree s.matcher (a.store.selectOf g.scope) x) = some c)
    (hk : c.kind = .window) : checkGroupedWindow g check x s a =
      (a.tree.elements (c.operand 2) ++ a.tree.elements (c.operand 3)).forM check s a := by
  rw [checkGroupedWindow, run_bind_get, run_bind_read]
  simp [Tree.isCall, Tree.window, WindowParts.ofCall, hc, hk]

theorem checkGroupedWindow_keeps (hcheck : ∀ y, A y → Keeps s I H (check y))
    (hx : ∀ a, I a → WindowReaches a s g.scope A x) :
    Keeps s I H (checkGroupedWindow g check x) := by
  refine .bind_get fun a ha => .bind_read ?_
  dsimp only
  split
  · rename_i hw
    obtain ⟨c, hc, hk⟩ := call?_of_isCall hw
    have hq : c.kind.isQuery = false := by rw [hk]; rfl
    have hreach : a.Reaches s g.scope A
        (windowAt a.tree s.matcher (a.store.selectOf g.scope) x) := by
      unfold windowAt
      split
      · rename_i i hi
        cases hn : windowNamed? a.tree s.matcher (a.store.selectOf g.scope) i.last with
        | none => exact .absent
        | some w => exact ((hx a ha).next (.name hi hn)).spec
      · exact (hx a ha).spec
    have hwindow : a.tree.window (windowAt a.tree s.matcher (a.store.selectOf g.scope) x) =
        .ofCall c := by
      simp only [Tree.window, hc, Option.elim_some]
    rw [hwindow]
    exact .seq (.forM fun y hy => hcheck y (hreach.operandElements hc hq 2 y hy)) fun _ =>
      Keeps.forM fun y hy => hcheck y (hreach.operandElements hc hq 3 y hy)
  · exact Keeps.pure _

theorem mem_parts_of_mem_children (hf : t.form? x = some f) (hy : y ∈ t.children x) :
    some y ∈ f.parts := by
  simp only [Tree.children, hf, Form.children, List.mem_filterMap] at hy
  obtain ⟨_, hy, rfl⟩ := hy
  exact hy

theorem checkGroupedCall_keeps {id : NodeId} (hcheck : ∀ y, A y → Keeps s I H (check y))
    (h0 : A none) (hc : ∀ a, I a → a.tree.call? (some id) = some c)
    (hx : ∀ a, I a → a.Reaches s g.scope A (some id)) :
    Keeps s I H (checkGroupedCall g check id c) := by
  refine .bind_get fun a ha => ?_
  dsimp only
  split
  · exact Keeps.pure _
  · rename_i hskip
    have hq : c.kind.isQuery = false := by
      simp only [Bool.or_eq_true, not_or, Bool.not_eq_true] at hskip
      exact hskip.1
    have hops := (hx a ha).operands (hc a ha) hq
    have hop := c.operand_of_operands hops h0
    split
    iterate 3 exact Keeps.pure _
    · rename_i hk
      have hwindow : Keeps s I H (checkGroupedWindow g check (c.operand 1)) :=
        checkGroupedWindow_keeps hcheck fun b hb => (hx b hb).window (hc b hb) hk
      split
      · rename_i hinner
        obtain ⟨inner, hinner⟩ := Option.isSome_iff_exists.mp hinner
        refine .seq (.forM fun y hy => hcheck _ ?_) fun _ => hwindow
        exact (hx a ha).step
          (.operand (hc a ha) hk hinner (mem_parts_of_mem_children (Tree.form?_of_call? hinner) hy))
      · exact hwindow
    iterate 3 exact hcheck _ (hop 0)
    · exact Keeps.forM fun y hy =>
        hcheck _ (hops _ (mem_parts_of_mem_children (Tree.form?_of_call? (hc a ha)) hy))

/-- The check of a grouped expression; `R` says which depth is enough for a node. -/
theorem checkGroupedUpTo_keeps [Hushed I] [Refusing I H] {R : Nat → Link → Prop}
    (hv : ∀ ns, Keeps s I H (e.validate ns .unknown)) (hR0 : ∀ x, R 0 x → H .exhausted)
    (hRnone : ∀ d i, R (d + 1) (some i) → R d none)
    (hR : ∀ a, I a → ∀ d x, R (d + 1) x → a.Reaches s g.scope (R d) x) {depth : Nat}
    (hx : R depth x) : Keeps s I H (checkGroupedUpTo e g depth x) := by
  induction depth generalizing x with
  | zero => exact .throw (hR0 x hx)
  | succ depth ih =>
    cases x with
    | none => exact Keeps.pure _
    | some i =>
      rw [checkGroupedUpTo]
      refine .seq (isGroupExpr_keeps hv) fun found => ?_
      split
      · exact Keeps.pure _
      refine .bind_get_after fun a ha => ?_
      split
      · exact checkGroupedName_keeps (fun ns => (hv ns).frame)
      · rename_i items hf
        refine Keeps.forM fun y hy => (ih ((hR a ha _ _ hx).step (.part hf ?_ hy))).frame
        rw [Tree.kind_eq_other hf fun _ => nofun]
        rfl
      · rename_i hf
        exact checkGroupedCall_keeps (fun y hy => (ih hy).frame) (hRnone depth i hx)
          (fun b hb => Tree.call?_of_form? (hb.2.tree.form? hf)) fun b hb => hR b hb.1 _ _ hx
      · exact Keeps.pure _

end Group

end SqlAnalysis.Analysis

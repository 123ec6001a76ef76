import SqlAnalysis.Proofs.Analysis.Relation

/-!
Validation of a relation, and the engine. A relation is in progress while its row type is found out,
and is valid or unvalidated afterwards, so validating it is a step by which the analysis advances.
-/

namespace SqlAnalysis.Analysis

variable {e : Engine}

def withStatus (a : Analysis) (id : NamespaceId) (st : Status) : Analysis :=
  { a with store := a.store.modifyNamespace id fun n => { n with status := st } }

theorem status?_withStatus (a : Analysis) (id id' : NamespaceId) (st : Status) :
    (a.withStatus id st).store.status? id' =
      if id = id' then (a.store.status? id').map fun _ => st else a.store.status? id' :=
  a.store.status?_setStatus id id' st

variable {id : NamespaceId} {a : Analysis}

theorem namespace?_withStatus_of_ne (h : id ≠ id') :
    (a.withStatus id st).store.namespace? id' = a.store.namespace? id' := by
  rw [withStatus, Store.namespace?_modifyNamespace, if_neg h]

theorem sameDeclared_withStatus : SameDeclared a (a.withStatus id st) :=
  ⟨.refl _, rfl, rfl, rfl, rfl, rfl,
    fun id' => a.store.declared?_modifyNamespace id id' _ fun _ => rfl⟩

/-- A relation that was unvalidated is so again, or valid, when its validation has come to its
end. -/
theorem Advances.close (hid : a.store.status? id = some .unvalidated)
    (h : Advances (a.withStatus id (.inProgress none)) b) (hst : Status.Advances .unvalidated st) :
    Advances a (b.withStatus id st) := by
  refine ⟨h.tree, h.types, h.scopes, h.clauses, fun id' => ?_, fun {id' n} hn hvalid => ?_⟩
  · have hb := h.status id'
    rw [status?_withStatus] at hb ⊢
    split
    · rename_i heq
      subst heq
      rw [if_pos rfl, hid] at hb
      rw [hid]
      cases hb' : b.store.status? id with
      | none => rw [hb'] at hb; cases hb
      | some st' => exact .kept hst
    · rename_i hne
      rwa [if_neg hne] at hb
  · have hne : id ≠ id' := by
      rintro rfl
      rw [Store.status?, hn, Option.map_some, Option.some_inj] at hid
      rw [Namespace.isValid, hid] at hvalid
      cases hvalid
    rw [namespace?_withStatus_of_ne hne]
    exact h.kept ((namespace?_withStatus_of_ne hne).trans hn) hvalid

theorem inProgress_withStatus (h : a.store.status? id = some st)
    (row : Option SqlType) : InProgress id (a.withStatus id (.inProgress row)) :=
  ⟨row, by rw [status?_withStatus, if_pos rfl, h, Option.map_some]⟩

theorem relates_withStatus (hn : a.store.namespace? id = some n) (h : I (a.withStatus id st)) :
    Relates I id n.kind n.node :=
  ⟨_, { n with status := st }, h,
    by rw [withStatus, Store.namespace?_modifyNamespace, if_pos rfl, hn, Option.map_some], rfl, rfl⟩

theorem run_validate (hn : a.store.namespace? id = some n) (hst : n.status = .unvalidated) :
    validate e id target s a =
      match rowType e id n target s (a.withStatus id (.inProgress none)) with
      | (.error h, b) => (.error h, b.withStatus id .unvalidated)
      | (.ok row, b) => (.ok (), (b.withStatus id (.valid row)).withRow n row) := by
  have hopen : setStatus id (.inProgress none) s a = (.ok (), a.withStatus id (.inProgress none)) :=
    rfl
  rw [validate, run_bind_get]
  simp only [hn, hst]
  rw [run_bind, hopen]
  dsimp only
  rw [run_bind, run_tryCatch]
  rcases rowType e id n target s (a.withStatus id (.inProgress none)) with ⟨h | row, b⟩
  · rfl
  · exact run_recordRow _

variable [Refusing I H]

/-- What validating a relation keeps. While the row type is found out it keeps `J`, and at its end
`K` holds. -/
theorem validate_keeps [Entering s I] {target : SqlType}
    (hopen : ∀ a n, I a → a.store.namespace? id = some n → n.status = .unvalidated →
      J (a.withStatus id (.inProgress none)) ∧ Gives s J H (rowType e id n target) K)
    (hdone : ∀ b row, J b → K row b → I (b.withStatus id (.valid row)))
    (hfail : ∀ b, J b → I (b.withStatus id .unvalidated)) : Keeps s I H (validate e id target) := by
  intro a ha
  cases hn : a.store.namespace? id with
  | none =>
    rw [validate, run_bind_get]
    simp only [hn]
    exact ⟨⟨ha, .refl a⟩, Refusing.refused ha ⟨none, rfl⟩⟩
  | some n =>
    cases hst : n.status with
    | valid row =>
      rw [validate, run_bind_get]
      simp only [hn, hst]
      exact ⟨⟨ha, .refl a⟩, trivial⟩
    | inProgress published =>
      rw [validate, run_bind_get]
      simp only [hn, hst]
      exact ⟨⟨ha, .refl a⟩, Refusing.refused ha ⟨n.node, rfl⟩⟩
    | unvalidated =>
      have hid : a.store.status? id = some .unvalidated := by
        rw [Store.status?, hn, Option.map_some, hst]
      obtain ⟨hJ, hrow⟩ := hopen a n ha hn hst
      obtain ⟨⟨hb, hadv⟩, hr⟩ := hrow _ hJ
      rw [run_validate hn hst]
      rcases hres : rowType e id n target s (a.withStatus id (.inProgress none)) with ⟨h | row, b⟩
      · rw [hres] at hb hadv hr
        exact ⟨⟨hfail b hb, hadv.close hid .unvalidated⟩, hr⟩
      · rw [hres] at hb hadv hr
        have hclose := hadv.close hid (.validated row)
        have hvalid : (b.withStatus id (.valid row)).store.status? id = some (.valid row) := by
          obtain ⟨published, hpublished⟩ := Stable.advances (inProgress_withStatus hid none) hadv
          rw [status?_withStatus, if_pos rfl, hpublished, Option.map_some]
        have hentry := Entering.entry (s := s) (.row ha hn hst (hdone b row hb hr) hvalid)
        exact ⟨⟨hentry, hclose.trans notes_withRow.advances⟩, trivial⟩

theorem rowType_keeps [Hushed I] [Entering s I] (he : e.Settles s I H R)
    {target : SqlType} (ho : R.Opens I target n)
    (hn : Relates I id n.kind n.node) (hprogress : ∀ a, I a → InProgress id a)
    (hlist : n.kind = .select → Lists s I target n.node) (hpublish : ∀ row,
    Keeps s I H (modifyNamespace id fun n => { n with status := .inProgress (some row) })) :
    Keeps s I H (rowType e id n target) := by
  unfold rowType
  split
  · exact validateTable_keeps hprogress
  · rename_i hk
    exact validateSelect_keeps he (ho.block hk) (ho.items hk) (hlist hk) hprogress hpublish
  · exact joinRow_keeps he
  · exact validateSetOp_keeps he ho.expects
  · rename_i hk
    exact validateValues_keeps he (ho.rows hk) (ho.cells hk) (hk ▸ hn)
  · exact validateUnnest_keeps he (ho.collection ‹_›)
  · exact validateCollect_keeps he
  · exact validateTarget_keeps he hprogress

omit [Refusing I H] in
theorem publish_keeps {P : Analysis → Prop}
    (hP : ∀ a row, P a → InProgress id a → P (a.withStatus id (.inProgress row))) (row : SqlType) :
    Keeps s (fun a => P a ∧ InProgress id a) H
      (modifyNamespace id fun n => { n with status := .inProgress (some row) }) := by
  refine Runs.modify fun a ha => ?_
  obtain ⟨before, hrow⟩ := ha.2
  refine ⟨⟨hP a (some row) ha.1 ha.2, inProgress_withStatus hrow (some row)⟩, ?_⟩
  refine .of_sameDeclared sameDeclared_withStatus (.refl _) (fun id' => ?_)
    (ha.2.namespace?_modifyNamespace _)
  change Status.Becomes _ ((a.withStatus id (.inProgress (some row))).store.status? id')
  rw [status?_withStatus]
  split
  · rename_i hid
    subst hid
    rw [hrow]
    exact .kept (.inProgress _ _)
  · exact .refl _

variable [Hushed I]

theorem checkGrouped_keeps (hH : H .exhausted) (hv : ∀ ns, Keeps s I H (e.validate ns .unknown)) :
    Keeps s I H (checkGrouped e scope x) := by
  unfold checkGrouped
  refine .bind_get fun a _ => ?_
  split
  · exact Keeps.pure _
  · exact checkGroupedUpTo_keeps (R := fun _ _ => True) hv (fun _ _ => hH) (fun _ _ _ => trivial)
      (fun _ _ _ _ _ _ _ => trivial) trivial

theorem Engine.Serves.settles (hH : H .exhausted) (he : e.Serves s I H R) (hR : R.Closed s I) :
    e.Settles s I H R :=
  { he, hR with
    check := fun _ _ _ => checkGrouped_keeps hH he.relation
    checkColumn := fun _ _ _ => (checkGrouped_keeps hH he.relation).frame
    window := fun _ _ _ => resolveWindow_keeps hH
    below := fun _ _ _ _ => .inl hH }

theorem engine_settles_of [Heeding s R I] (hH : H .exhausted) (hR : R.Closed s I)
    (hv : ∀ steps, (engine steps).Settles s I H R → ∀ id {target}, R.targets target → Keeps
    s I H (validate (engine steps) id target)) (steps : Nat) : (engine steps).Settles s I H R := by
  refine Engine.Serves.settles hH ?_ hR
  induction steps with
  | zero =>
    exact ⟨⟨0, rfl⟩, fun _ _ _ => .throw hH, fun _ _ => .throw hH,
      fun _ _ => .throw hH, hR.untargeted,
      hR.absent, hR.vacant, fun _ _ => hR.anywhere _, fun h => Heeding.mark (.framed (W := R) h)⟩
  | succ steps ih =>
    refine ⟨⟨steps + 1, rfl⟩, fun id _ ht => hv steps (ih.settles hH hR) id ht,
      fun hs hx => ?_, fun hs hx => ?_, hR.untargeted,
      hR.absent, hR.vacant, fun _ _ => hR.anywhere _, fun h => Heeding.mark (.framed (W := R) h)⟩
    · exact derive_keeps ih hs hx (fun _ => resolveWindow_keeps hH) fun a ha => hR.reaches ha hx
    · have htyped := hx.elim hR.within And.right
      refine infer_keeps ih hs htyped (fun hknown => ?_) (ih.derive hs htyped) (fun a ha =>
        hR.reaches ha htyped) (fun a ha y hy => hR.passes ha htyped hy) fun hknown a ha y hy =>
        hR.hands ha ?_ hy
      all_goals exact hx.resolve_right fun h => by rw [hknown] at h; cases h.1

omit [Hushed I] in
theorem Requests.opens_any (target : SqlType) (n : Namespace) : Requests.any.Opens I target n :=
  ⟨trivial, fun _ _ _ => ⟨fun _ _ => trivial, trivial, trivial⟩,
    fun _ _ _ _ _ _ _ => ⟨trivial, .inl trivial, .inl trivial⟩, fun _ _ _ _ _ _ _ => trivial,
    fun _ _ _ _ _ _ _ _ _ _ _ => trivial, fun _ _ _ => trivial⟩

omit [Hushed I] in
theorem Engine.Settles.source (he : e.Settles s I H .any) (x : Link) (t : SqlType) :
    Keeps s I H (validateSource e x t) :=
  validateSource_keeps he trivial

theorem engine_settles_of_status [Heeding s R I] [Entering s I] [Listing I] (hH : H .exhausted)
    (hR : R.Closed s I) (hopens : ∀ {a id n target}, I a → a.store.namespace? id = some n →
    R.targets target → R.Opens (fun a => I a ∧ InProgress id a) target n)
    (hstatus : ∀ a id st, I a → I (a.withStatus id st)) (steps : Nat) :
    (engine steps).Settles s I H R := by
  refine engine_settles_of hH hR (fun steps he id target htarget => ?_) steps
  refine validate_keeps (J := fun a => I a ∧ InProgress id a) (K := fun _ _ => True)
    (fun a n ha hn _ => ?_) (fun b _ hb _ => hstatus b id _ hb.1) fun b hb => hstatus b id _ hb.1
  have hid : a.store.status? id = some n.status := by rw [Store.status?, hn, Option.map_some]
  have hJ := And.intro (hstatus a id (.inProgress none) ha) (inProgress_withStatus hid none)
  exact ⟨hJ, rowType_keeps he.frame (hopens ha hn htarget) (relates_withStatus hn hJ)
    (fun _ ha => ha.2) (fun _ => .of_listing _ _) (publish_keeps fun b _ hb _ => hstatus b id _ hb)⟩

theorem engine_settles_any [Heeding s .any I] [Entering s I] [Listing I] (hH : H .exhausted)
    (hstatus : ∀ a id st, I a → I (a.withStatus id st)) (steps : Nat) :
    (engine steps).Settles s I H .any :=
  engine_settles_of_status hH Requests.closed_any (fun _ _ _ => Requests.opens_any _ _) hstatus
    steps

/-- An analysis always advances: whatever the engine is asked, and whether it succeeds or not. -/
theorem engine_settles (s : Setting) (steps : Nat) :
    (engine steps).Settles s (fun _ => True) (fun _ => True) .any :=
  engine_settles_any trivial (fun _ _ _ _ => trivial) steps

end SqlAnalysis.Analysis

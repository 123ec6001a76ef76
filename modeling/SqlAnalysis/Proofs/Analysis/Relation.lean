import SqlAnalysis.Proofs.Analysis.Judgement

/-!
The rules for relations. `Requests.Opens` collects the nodes that they ask the engine about, and
`Engine.Settles` what an engine has to answer.
-/

namespace SqlAnalysis

/-- Whether an expression has no type of its own: a null constant or a parameter. -/
def Tree.isOpen (t : Tree) (x : Link) : Bool := t.isNull x || (t.parameter? x).isSome

namespace Analysis

variable {e : Engine} {R : Requests}

def bareItem (t : Tree) (item : Link) : Link := (splitAlias t item 0).1

theorem splitAlias_fst (t : Tree) (item : Link) (place : Nat) :
    (splitAlias t item place).1 = bareItem t item := by
  unfold bareItem splitAlias
  split
  · rfl
  · split <;> rfl
  · rfl

theorem has_bareItem {t u : Tree} (hu : t.Extends u) (ho : u.Ordered) (hx : u.Has x) :
    u.Has (bareItem t x) := by
  unfold bareItem splitAlias
  cases hf : t.form? x with
  | none => exact hx
  | some f =>
    cases f with
    | call c =>
      have hexpr : u.Has (c.operand 0) :=
        c.operand_of_operands (fun _ => .part ho (hu.form? hf)) .absent 0
      dsimp only
      split <;> assumption
    | _ => exact hx

def Assigns (c : Call) (columns : Link) : Prop :=
  c.kind = .insert ∧ columns = (InsertParts.ofCall c).columns ∨ c.kind = .update ∧
    columns = (UpdateParts.ofCall c).columns

namespace Requests

/-- What adding an item to the output of a query asks about. -/
structure Item (R : Requests) (t : Tree) (target : SqlType) (item : Link) : Prop where
  expr : R.typed (bareItem t item)
  offered : R.expected (bareItem t item) ∨ target.isUnknown
  /-- An expression without a type is refused before the type of the item is asked for. -/
  item : R.typed item ∨ t.isOpen (bareItem t item) ∧ target.isUnknown

/-- What validating a query block asks about beside its items. -/
structure Block (R : Requests) (t : Tree) (query : NodeId) : Prop where
  operand : ∀ k, k ≠ 1 → R.typed (t.operand (some query) k)
  condition : R.expected (t.operand (some query) 3)
  having : R.expected (t.operand (some query) 5)

/-- What finding out the row type of a relation asks about, in analyses with the property `I`. -/
structure Opens (R : Requests) (I : Analysis → Prop) (target : SqlType) (n : Namespace) : Prop where
  expects : R.targets target
  block : n.kind = .select → ∀ a, I a → R.Block a.tree n.node
  items : n.kind = .select → ∀ a b, I a → I b →
    ∀ x ∈ a.tree.elements (a.tree.operand (some n.node) 1), R.Item b.tree target x
  rows : n.kind = .values → ∀ a, I a → ∀ c, a.tree.call? (some n.node) = some c →
    ∀ y ∈ c.operands, R.typed y
  cells : n.kind = .values → ∀ a b, I a → I b → ∀ c, a.tree.call? (some n.node) = some c →
    ∀ y ∈ c.operands, ∀ z ∈ cellsOf a.tree y, R.expected (bareCell b.tree z)
  collection : n.kind = .unnest → ∀ a, I a → R.typed (a.tree.operand (some n.node) 0)

end Requests

/-- Requests with all that they lead to, in analyses with the property `I`. -/
structure Requests.Closed (R : Requests) (s : Setting) (I : Analysis → Prop) : Prop where
  anywhere : ∀ scope, R.scopes scope
  untargeted : R.targets .unknown
  absent : R.typed none
  vacant : R.expected none
  within : ∀ {x}, R.expected x → R.typed x
  parts : ∀ {a x y f}, I a → R.typed x → a.tree.form? x = some f → (a.tree.kind x).isQuery = false →
    y ∈ f.parts → R.typed y
  /-- The call of a window may be of any kind. -/
  inner : ∀ {a x c inner y}, I a → R.typed x → a.tree.call? x = some c → c.kind = .over →
    a.tree.call? (c.operand 0) = some inner → y ∈ inner.operands → R.typed y
  named : ∀ {a scope name w}, I a →
    windowNamed? a.tree s.matcher (a.store.selectOf scope) name = some w → R.typed (some w)
  passes : ∀ {a x y}, I a → R.typed x → a.tree.Passes x y → R.expected y
  hands : ∀ {a x y}, I a → R.expected x → a.tree.Hands x y → R.expected y

/-- The engine answers closed requests, and the checks that count their own depth come to their
end. -/
structure Engine.Settles (e : Engine) (s : Setting) (I : Analysis → Prop)
    (H : Halt → Prop) (R : Requests) : Prop extends e.Serves s I H R, R.Closed s I where
  check : ∀ scope {x}, R.typed x → Keeps s I H (checkGrouped e scope x)
  checkColumn : ∀ scope id i, Keeps s (fun a => I a ∧ a.tree.form? (some id) = some (.identifier i))
    H (checkGrouped e scope (some id))
  window : ∀ scope {x}, R.typed x → Keeps s I H (resolveWindow scope x)
  below : ∀ {a i j f}, I a → R.typed (some i) → a.tree.form? (some i) = some f → some j ∈ f.parts →
    H .exhausted ∨ j < i

theorem Requests.Closed.frame {P : Analysis → Prop} (h : R.Closed s I) :
    R.Closed s fun a => I a ∧ P a where
  anywhere := h.anywhere
  untargeted := h.untargeted
  absent := h.absent
  vacant := h.vacant
  within := h.within
  parts ha := h.parts ha.1
  inner ha := h.inner ha.1
  named ha := h.named ha.1
  passes ha := h.passes ha.1
  hands ha := h.hands ha.1

theorem Requests.closed_any : Requests.any.Closed s I :=
  ⟨fun _ => trivial, trivial, trivial, trivial, fun _ => trivial, fun _ _ _ _ _ => trivial,
    fun _ _ _ _ _ _ => trivial, fun _ _ => trivial, fun _ _ _ => trivial, fun _ _ _ => trivial⟩

namespace Requests.Closed

variable (h : R.Closed s I) (ha : I a)
include h ha

section

variable (hx : R.typed x)
include hx

theorem operands (hc : a.tree.call? x = some c) (hq : c.kind.isQuery = false) :
    ∀ y ∈ c.operands, R.typed y :=
  fun _ hy => h.parts ha hx (Tree.form?_of_call? hc) (Tree.kind_of_call? hc ▸ hq) hy

theorem operand {c : Call} (hc : a.tree.call? x = some c) (hq : c.kind.isQuery = false) (k : Nat) :
    R.typed (c.operand k) :=
  c.operand_of_operands (h.operands ha hx hc hq) h.absent k

theorem operandOf (hk : a.tree.isCall x [k]) (hq : k.isQuery = false) (n : Nat) :
    R.typed (a.tree.operand x n) := by
  obtain ⟨c, hc, rfl⟩ := call?_of_isCall hk
  rw [Tree.operand, hc]
  exact h.operand ha hx hc hq n

theorem elements : ∀ y ∈ a.tree.elements x, R.typed y := by
  intro y hy
  obtain rfl | ⟨items, hl, hy⟩ := Tree.eq_or_mem_of_mem_elements hy
  · exact hx
  · have hf := Tree.form?_of_list? hl
    refine h.parts ha hx hf ?_ hy
    rw [Tree.kind_eq_other hf fun _ => nofun]
    rfl

theorem refers (hy : Relation.TransGen (a.Refers s scope) x y) : R.typed y := by
  have hstep {x y} (hx : R.typed x) (hy : a.Refers s scope x y) : R.typed y := by
    cases hy with
    | name _ hn => exact h.named ha hn
    | @base c _ hc hk hb =>
      exact h.operands ha hx hc (by rw [hk]; rfl) _ (c.mem_operands_of_operand hb)
  induction hy with
  | single hy => exact hstep hx hy
  | tail _ hy ih => exact hstep ih hy

theorem leads (hy : a.Leads s scope x y) : R.typed y := by
  cases hy with
  | part hf hq hp => exact h.parts ha hx hf hq hp
  | operand hc hk hi hp => exact h.inner ha hx hc hk hi hp
  | window hc hk hw => exact h.refers ha (h.operand ha hx hc (by rw [hk]; rfl) 1) hw

theorem reaches : a.Reaches s scope R.typed x := by
  intro y hy
  induction hy with
  | single hy => exact h.leads ha hx hy
  | tail _ hy ih => exact h.leads ha ih hy

theorem windowReaches : WindowReaches a s scope R.typed x :=
  ⟨h.reaches ha hx, fun _ hw => h.reaches ha (h.refers ha hx hw)⟩

end

end Requests.Closed

theorem Engine.Settles.frame {P : Analysis → Prop} [Stable P] (he : e.Settles s I H R) :
    e.Settles s (fun a => I a ∧ P a) H R :=
  { he.toServes.frame, he.toClosed.frame with
    check := fun scope _ hx => (he.check scope hx).frame
    checkColumn :=
      fun scope id i => ((he.checkColumn scope id i).frame).congr fun _ => and_right_comm
    window := fun scope _ hx => (he.window scope hx).frame
    below := fun ha => he.below ha.1 }

/-- A select list is written down in the state in which its items have been looked at. -/
def Lists (s : Setting) (I : Analysis → Prop) (target : SqlType) (query : NodeId) : Prop :=
  ∀ a b steps scope o, I a →
    selectItems (engine steps) scope target {} (a.tree.elements (a.tree.select (some query)).list)
    s a = (.ok o, b) → I b → I (b.withSelectList query o.items)

theorem Lists.of_listing [Listing I] (target : SqlType) (query : NodeId) : Lists s I target query :=
  fun _ _ _ _ _ _ _ hb => Listing.list query _ hb

section Joins

theorem fromNamespace_keeps {id : Link} : Keeps s I H (fromNamespace id) := by
  unfold fromNamespace
  grind

variable [Refusing I H]

theorem refuseAggregates_keeps (id : Link) (clause : Restricted) :
    Keeps s I H (refuseAggregates id clause) := by
  unfold refuseAggregates
  grind

theorem checkCommonColumn_keeps {id : Link} :
    Keeps s I H (checkCommonColumn id name left right) := by
  unfold checkCommonColumn
  grind

theorem checkConditionType_keeps {id : NodeId} : Keeps s I H (checkConditionType id p) := by
  unfold checkConditionType
  grind

theorem checkUsing_keeps : Keeps s I H (checkUsing columns left right) := by
  unfold checkUsing
  grind [checkCommonColumn_keeps]

theorem checkNatural_keeps {id : NodeId} : Keeps s I H (checkNatural id left right) := by
  unfold checkNatural
  grind [checkCommonColumn_keeps]

variable [Hushed I] (he : e.Settles s I H R)
include he

theorem validateCondition_keeps (hx : R.typed x) (hexpected : R.expected x) (scope : ScopeId)
    (clause : Restricted) : Keeps s I H (validateCondition e scope x clause) := by
  have hs := he.anywhere scope
  have hinfer (t : SqlType) : Keeps s I H (e.infer scope x t) := he.infer hs (.inl hexpected)
  unfold validateCondition
  grind [he.derive, refuseAggregates_keeps]

theorem validateJoin_gives (hc : ∀ y ∈ c.operands, R.typed y)
    (hexpected : ∀ y ∈ c.operands, R.expected y) {id : NodeId}
    (hlast : ∀ a, I a → Gives s I H (match a.namespaceAt id with
      | some ns => e.validate ns .unknown
      | none => refuse id .joinInputUnregistered) K) : Gives s I H (validateJoin e id c) K := by
  have hon := validateCondition_keeps he (c.operand_of_operands hc he.absent 5)
    (c.operand_of_operands hexpected he.vacant 5)
  unfold validateJoin
  dsimp only [JoinParts.ofCall]
  refine .seq checkConditionType_keeps fun _ => .seq fromNamespace_keeps fun l => ?_
  refine .seq fromNamespace_keeps fun r => ?_
  split
  · rename_i l r
    refine .bind_get fun a _ => ?_
    split
    case' h_1 => refine .bind_get fun b _ => .seq (hon _ _) fun _ => ?_
    case' h_2 =>
      refine .seq (namespaceOfId_keeps l) fun left => .seq (namespaceOfId_keeps r) fun right => ?_
      refine .seq checkUsing_keeps fun _ => ?_
    -- whatever its condition, a join may be natural besides
    all_goals
      split
      · exact .seq (namespaceOfId_keeps l) fun _ => .seq (namespaceOfId_keeps r) fun _ =>
          .seq checkNatural_keeps fun _ => .bind_get hlast
      · exact .bind_get hlast
  · exact .refuse

theorem validateJoin_keeps (hc : ∀ y ∈ c.operands, R.typed y)
    (hexpected : ∀ y ∈ c.operands, R.expected y) {id : NodeId} :
    Keeps s I H (validateJoin e id c) := by
  refine validateJoin_gives he hc hexpected fun a _ => ?_
  split
  · exact he.relation _
  · exact .refuse

theorem sideFields_keeps (id : Link) (nullable : Bool) :
    Keeps s I H (sideFields e id nullable) := by
  have hrow (ns : NamespaceId) := rowOf_keeps (he.relation ns)
  unfold sideFields
  grind [fromNamespace_keeps]

theorem joinRow_keeps {id : NodeId} : Keeps s I H (joinRow e id) := by
  have hside := sideFields_keeps he
  unfold joinRow
  grind

theorem validateFromUpTo_keeps {x : Link} (hx : R.typed x)
    (hd : H .exhausted ∨ x.elim 0 (· + 1) < depth) : Keeps s I H (validateFromUpTo e depth x) := by
  induction depth generalizing x with
  | zero => exact .throw (hd.resolve_right (Nat.not_lt_zero _))
  | succ depth ih =>
    rw [validateFromUpTo]
    refine .bind_get fun a ha => ?_
    dsimp only
    split
    · rename_i i c hc
      have hop (hq : c.kind.isQuery = false) (k : Nat) : Keeps s I H
          (validateFromUpTo e depth (c.operand k)) := by
        refine ih (he.operand ha hx hc hq k) ?_
        obtain hd | hd := hd
        · exact .inl hd
        have hi : i < depth := Nat.lt_of_succ_lt_succ hd
        cases hk : c.operand k with
        | none => exact .inr (Nat.zero_lt_of_lt hi)
        | some j =>
          refine (he.below ha hx (Tree.form?_of_call? hc) (c.mem_operands_of_operand hk)).imp_right
            ?_
          exact fun hj => Nat.lt_of_le_of_lt hj hi
      split
      · exact hop (by rw [‹c.kind = _›]; rfl) 0
      · exact hop (by rw [‹c.kind = _›]; rfl) 0
      · rename_i hk
        have hq : c.kind.isQuery = false := by rw [hk]; rfl
        have hoffered : ∀ y ∈ c.operands, R.expected y := fun y hy =>
          he.passes ha hx
            (.operand hc (by rw [hk]; rfl) (by rw [hk]; decide) (by rw [hk]; decide) hy)
        exact .seq (hop hq 0) fun _ => .seq (hop hq 3) fun _ =>
          validateJoin_keeps he (he.operands ha hx hc hq) hoffered
      · grind [he.relation]
    · grind [he.relation]

theorem validateFrom_keeps (hx : R.typed x) : Keeps s I H (validateFrom e x) := by
  refine validateFromUpTo_keeps he hx (.inr ?_)
  cases x with
  | none => exact Nat.succ_pos _
  | some i => exact Nat.lt_succ_self _

end Joins

section Select

def Columns (ids : List NodeId) (a : Analysis) : Prop :=
  ∀ id ∈ ids, ∃ i, a.tree.form? (some id) = some (.identifier i)

instance (ids : List NodeId) : Stable (Columns ids) :=
  ⟨fun h hadv id hid => (h id hid).imp fun _ hi => hadv.tree.form? hi⟩

/-- The expression is a node of the tree, at least if nodes come after their parts. -/
def Held (x : Link) (a : Analysis) : Prop := a.tree.Ordered → a.tree.Has x

instance (x : Link) : Stable (Held x) :=
  ⟨fun h hadv hb => (h (hadv.tree.ordered hb)).mono hadv.tree⟩

theorem Held.of_form? (h : a.tree.form? x = some f) : Held x a := fun _ => .of_form? h

theorem infer_open_ne_ok (hx : a.tree.isOpen x) (ht : t.isUnknown) :
    (engine steps).infer scope x t s a ≠ (.ok (), b) := by
  cases steps with
  | zero => exact nofun
  | succ steps =>
    change infer (engine steps) scope x t s a ≠ _
    rw [infer, run_bind_get]
    rw [Tree.isOpen, Bool.or_eq_true] at hx
    cases x with
    | none => rcases hx with hx | hx <;> cases hx
    | some i =>
      rcases hx with hnull | hparameter
      · simp only [form?_of_isNull hnull, ht]
        exact nofun
      · unfold Tree.parameter? at hparameter
        split at hparameter
        · rename_i k hk
          simp only [hk, ht]
          exact nofun
        · cases hparameter

theorem form?_of_derive (h : (engine steps).derive scope x s a = (.ok t, b)) :
    ∃ f, a.tree.form? x = some f := by
  cases steps with
  | zero => cases h
  | succ steps =>
    change derive (engine steps) scope x s a = _ at h
    rw [derive, run_bind_get] at h
    cases hf : a.tree.form? x with
    | some f => exact ⟨f, rfl⟩
    | none =>
      have hkind : a.tree.kind x = .other := by simp only [Tree.kind, Tree.call?, hf]
      rw [hkind] at h
      cases x <;> simp only [hf] at h <;> exact absurd h (refuse_ne_ok _)

theorem monotonicCount_keeps {isMonotonic : Link → AnalysisM Bool}
    (h : ∀ x, Keeps s I H (isMonotonic x)) : Keeps s I H (monotonicCount t isMonotonic args) := by
  induction args with
  | nil => exact Keeps.pure _
  | cons arg args ih =>
    rw [monotonicCount]
    grind

theorem ifPresent_keeps {id : Link} (hx : Keeps s I H x) :
    Keeps s I H (ifPresent id x) := by
  unfold ifPresent
  grind

section Keys

variable [Refusing I H] (he : e.Settles s I H R)
include he

theorem validateOrderKey_keeps (hx : R.typed x) (scope : ScopeId) (row : SqlType) :
    Keeps s I H (validateOrderKey e scope row x) := by
  have hs := he.anywhere scope
  refine .bind_get fun a ha => ?_
  have hexpr : R.typed (if a.tree.isCall x [.descending] then a.tree.operand x 0 else x) := by
    split
    · exact he.operandOf ha hx ‹_› rfl 0
    · exact hx
  dsimp only
  split
  · split
    · exact .refuse_bind
    · exact .seq (he.derive hs hx) fun _ => Keeps.pure _
  · exact .seq (he.inferUnknown hs hexpr) fun _ => .seq (he.derive hs hx) fun _ =>
      he.check scope hexpr

theorem validateOrder_keeps (hx : ∀ a, I a → R.typed (a.tree.operand (some query) 7)) :
    Keeps s I H (validateOrder e query row) := by
  refine .bind_get fun a ha => Keeps.forM fun y hy => validateOrderKey_keeps he ?_ _ row
  exact he.elements ha (a.tree.select_order _ ▸ hx a ha) y hy

theorem validateGroups_keeps (h : ∀ y ∈ groups, R.typed y) :
    Keeps s I H (validateGroups e scope groups) := by
  have hs := he.anywhere scope
  unfold validateGroups
  grind [he.derive, he.inferUnknown, refuseAggregates_keeps]

end Keys

section Items

variable [Hushed I] [Entering s I]

theorem Outputs.add_keeps (o : Outputs) {expr : Link} (hexpr : ∀ a, I a → Held expr a)
    (name : String) (t : SqlType) : Keeps s I H (o.add expr name t) := by
  refine .bind_read (.bind_read (.of_from fun a ha => ?_))
  refine .bind (growing_keeps fun b hb => .buildAlias _ (hexpr b hb) _) ha fun item b hrun hb _ =>
    .bind_get ?_
  cases hrun
  cases hknown : expr.bind a.typeOf.get? with
  | none =>
    exact .pure hb trivial
  | some known =>
    refine .bind_gives (J := fun _ _ => True)
      (.of_ok (run_setType _ _ known s) ?_ (.of_eq rfl) trivial) ?_
    · exact Entering.entry (s := s) (.item ha hb hknown)
    · intro _ c _ hc _ _
      exact .pure hc trivial

theorem addColumn_gives (scope : ScopeId) (span : Option Span) {row : SqlType}
    (hf : f ∈ row.fields) :
    Gives s (fun a => (I a ∧ StarRow s I scope c row a) ∧ AtNode span a) H
      (addColumn scope span c.aliasName f) fun id => Columns [id] := by
  refine .of_from fun a ha => ?_
  let n : Node := { form := .identifier { names := [c.aliasName, f.1] }, span }
  let i := a.tree.nodes.size
  let b := (((a.grown (Tree.push n)).withType i f.2).withQualified i [c.aliasName, f.1]).withScopeOf
    i scope
  have hrun : addColumn scope span c.aliasName f s a = (.ok i, b) := by
    rw [addColumn, run_bind, run_growing]
    dsimp only
    rw [run_bind, run_setType]
    rfl
  obtain ⟨⟨ha, hrow⟩, hspan⟩ := ha
  have hgrow : Silent a (a.grown (Tree.push n)) := .grow (.leaf hspan rfl)
  have hadv : Advances a b := hgrow.advances.trans (.of_eq rfl)
  have hb : I b := Entering.entry (.column ha (Hushed.silent ha hgrow) rfl rfl rfl hrow hf)
  exact .of_ok hrun ⟨⟨hb, Stable.advances hrow hadv⟩, Stable.advances hspan hadv⟩
    hadv (List.forall_mem_singleton.mpr ⟨_, a.tree.form?_add n⟩)

theorem expandIdentifier_gives {id : Link} : Gives s I H (expandIdentifier scope id) fun out a =>
      out = id ∨ ∃ f, a.tree.form? out = some f := by
  refine .of_from fun a ha => ?_
  refine .bind_get ?_
  split
  · rename_i i name hname
    dsimp only
    split
    · exact .pure ha (.inl rfl)
    · rename_i hlonger
      rw [Nat.not_le] at hlonger
      cases hnames : a.qualified.get? i with
      | none => rw [hnames] at hlonger; cases hlonger
      | some names =>
        simp only [hnames] at hlonger ⊢
        let n : Node := { form := .identifier { name with names }, span := a.tree.span? (some i) }
        let out := a.tree.nodes.size
        have hgrow : Silent a (a.grown (Tree.push n)) := .grow (.leaf ⟨some i, rfl⟩ rfl)
        refine .bind_gives (J := fun _ _ => True) (.of_ok (run_growing _ _ s)
          (Hushed.silent ha hgrow) hgrow.advances trivial) fun _ _ hrun hb _ _ => ?_
        cases hrun
        let b := (((a.grown (Tree.push n)).withType out
          ((a.typeOf.get? i).getD .unknown)).withQualified out names).withScopeOf out scope
        have hb : I b := by
          refine Entering.entry (s := s)
            (.expanded ha hb (Tree.form?_of_identifier? hname) hnames hlonger rfl rfl rfl)
        refine .of_ok (v := some out) ?_ hb (.of_eq rfl) (.inr ⟨_, a.tree.form?_add n⟩)
        rw [run_bind, run_setType]
        rfl
  · exact .pure ha (.inl rfl)

theorem expanded_gives (scope : ScopeId) (x : Link) :
    Gives s (fun a => I a ∧ Held x a) H
      (if s.config.expandIdentifiers then expandIdentifier scope x else pure x) Held := by
  split
  · refine expandIdentifier_gives.weaken fun out a ha => ?_
    rintro (rfl | ⟨f, hf⟩)
    · exact ha.2
    · exact .of_form? hf
  · exact .pure fun a ha => ha.2

theorem addStar_keeps (he : e.Settles s I H R) :
    Keeps s (fun a => I a ∧ Columns cols a) H (addStar e scope o cols) := by
  induction cols generalizing o with
  | nil => exact Keeps.pure _
  | cons col cols ih =>
    have hcheck : Keeps s (fun a => I a ∧ Columns (col :: cols) a) H
        (checkGrouped e scope (some col)) := by
      intro a ha
      obtain ⟨i, hi⟩ := ha.2 col List.mem_cons_self
      obtain ⟨⟨hb, hadv⟩, hr⟩ := he.checkColumn scope col i a ⟨ha.1, hi⟩
      exact ⟨⟨⟨hb.1, Stable.advances ha.2 hadv⟩, hadv⟩, hr⟩
    have hrest (o : Outputs) : Keeps s (fun a => I a ∧ Columns (col :: cols) a)
        H (addStar e scope o cols) :=
      (ih.frame).congr fun a =>
        ⟨fun h => ⟨h.1.1, h.2⟩,
          fun h => ⟨⟨h.1, fun id hid => h.2 id (List.mem_cons_of_mem col hid)⟩, h.2⟩⟩
    rw [addStar]
    refine .seq hcheck fun _ => .bind_get fun a _ =>
      .seq (Outputs.add_keeps _ (fun a ha => ?_) _ _) fun o => hrest o
    obtain ⟨i, hi⟩ := ha.2 col List.mem_cons_self
    exact .of_form? hi

end Items

variable [Hushed I] [Refusing I H]

theorem isMonotonicUpTo_keeps (he : e.Settles s I H R) :
    Keeps s I H (isMonotonicUpTo e scope depth x) := by
  induction depth generalizing x with
  | zero => exact Keeps.pure _
  | succ depth ih =>
    have hresolve := resolve_keeps he.relation
    rw [isMonotonicUpTo]
    refine .bind_get fun a _ => ?_
    dsimp only
    split
    · split
      · exact Keeps.pure _
      · refine .seq (.attempt (hresolve _ _ _)) fun r => ?_
        split <;> grind
    · grind [monotonicCount_keeps]
    · exact Keeps.pure _

variable [Entering s I]

theorem expandStar_gives (hv : ∀ ns, Keeps s I H (e.validate ns .unknown))
    (hcounted : ∃ steps, e = engine steps) (scope : ScopeId) (star : NodeId) (i : Identifier) :
    Gives s I H (expandStar e scope star i) Columns := by
  obtain ⟨steps, rfl⟩ := hcounted
  refine .of_from fun a₁ ha₁ => ?_
  refine .bind (starSources_keeps hv) ha₁ fun sources b₁ hsources hb₁ _ => .bind_get ?_
  have hrow (c : Child) (hc : c ∈ sources) : Gives s (fun a => I a ∧ Advances b₁ a) H (do
      let row ← childRow (engine steps) c
      row.fields.mapM (addColumn scope (b₁.tree.span? (some star)) c.aliasName)) Columns := by
    refine .of_from fun a₂ ha₂ => .bind (childRow_keeps hv).frame ha₂ fun row b₂ hchild hb₂ _ => ?_
    have hstar : StarRow s I scope c row b₂ :=
      ⟨steps, star, i, sources, a₁, b₁, a₂, b₂, ha₁, hb₁, ha₂.1, hb₂.1,
        hsources, hc, ha₂.2, hchild, .refl _⟩
    have hcolumns := Gives.mapM (s := s) (H := H) fun f (hf : f ∈ row.fields) =>
      addColumn_gives (I := I) (c := c) scope (b₁.tree.span? (some star)) hf
    obtain ⟨⟨hkeep, hadv⟩, hend⟩ := hcolumns b₂ ⟨⟨hb₂.1, hstar⟩, hb₂.2.tree.exists_span? _⟩
    refine ⟨⟨⟨hkeep.1.1, hb₂.2.trans hadv⟩, hadv⟩, hend.imp (fun _ => id) ?_⟩
    exact fun ids h id hid => h id hid id List.mem_cons_self
  have hcolumns : Gives s (fun a => I a ∧ Advances b₁ a) H (do
      let columns ← sources.mapM fun c => do
        let row ← childRow (engine steps) c
        row.fields.mapM (addColumn scope (b₁.tree.span? (some star)) c.aliasName)
      return columns.flatten) Columns := by
    refine .bind (Gives.mapM hrow) fun columns => .pure fun a ha => ?_
    intro id hid
    obtain ⟨ids, hids, hid⟩ := List.mem_flatten.mp hid
    exact ha.2 ids hids id hid
  obtain ⟨⟨hkeep, hadv⟩, hend⟩ := hcolumns b₁ ⟨hb₁, .refl _⟩
  exact ⟨⟨hkeep.1, hadv⟩, hend⟩

variable (he : e.Settles s I H R)
include he

theorem addItem_keeps (scope : ScopeId) (target : SqlType) (o : Outputs)
    (hx : ∀ a, I a → R.Item a.tree target item) : Keeps s I H (addItem e scope target o item) := by
  have hs := he.anywhere scope
  refine .of_from fun a ha => ?_
  refine .bind_get ?_
  obtain ⟨hexpr, hoffered, hitem⟩ := hx a ha
  have hsplit := splitAlias_fst a.tree item o.fields.length
  generalize splitAlias a.tree item o.fields.length = p at hsplit ⊢
  obtain ⟨expr, aliasName⟩ := p
  rw [← hsplit] at hexpr hoffered hitem
  have hunknown
      (h : target.isUnknown) : ((target.fieldTypes[o.fields.length]?).getD .unknown).isUnknown := by
    cases target <;> first | rfl | cases h
  refine .bind (he.infer hs (hoffered.imp_right fun h => ⟨hunknown h, hexpr⟩))
    ha fun _ b hrun hb hab => ?_
  have htyped : R.typed item := by
    refine hitem.resolve_right fun h => ?_
    obtain ⟨steps, rfl⟩ := he.counted
    exact infer_open_ne_ok h.1 (hunknown h.2) hrun
  refine GivesFrom.bind (he.derive hs htyped) hb fun t c hderive hc hbc => ?_
  have hheld : Held expr c := by
    obtain ⟨steps, rfl⟩ := he.counted
    obtain ⟨f, hf⟩ := form?_of_derive hderive
    have hexpr : expr = bareItem a.tree item := hsplit
    exact hexpr ▸ Stable.advances (fun ho => has_bareItem hab.tree ho (.of_form? hf)) hbc
  refine Keeps.from_frame (P := Held expr) ?_ hc hheld
  split
  · exact .refuse_bind
  refine .seq (he.check scope hexpr).frame fun _ => .bind_read ?_
  have hexpand : Gives s (fun a => I a ∧ Held expr a) H _ Held := expanded_gives scope expr
  have hadd (out : Link) : Keeps s (fun a => (I a ∧ Held expr a) ∧
      Held out a) H (o.add out aliasName t) :=
    Outputs.add_keeps o (fun _ ha => ha.2) aliasName t
  split
  · rw [if_pos ‹_›] at hexpand
    exact Gives.bind hexpand hadd
  · rw [if_neg ‹_›] at hexpand
    exact Gives.bind hexpand hadd

theorem selectItems_keeps (scope : ScopeId) (target : SqlType)
    (o : Outputs) (h : ∀ a, I a → ∀ x ∈ items, R.Item a.tree target x) :
    Keeps s I H (selectItems e scope target o items) := by
  induction items generalizing o with
  | nil => exact Keeps.pure _
  | cons item items ih =>
    have hrest (o : Outputs) := ih o fun a ha x hx => h a ha x (List.mem_cons_of_mem item hx)
    have hitem := addItem_keeps he scope target o fun a ha => h a ha item List.mem_cons_self
    rw [selectItems]
    refine .bind_get fun a ha => ?_
    split
    · split
      · exact .bind_gives (expandStar_gives he.relation he.counted scope _ _) fun cols =>
          .seq (addStar_keeps he) fun o => (hrest o).frame
      · exact .seq hitem hrest
    · exact .seq hitem hrest

theorem validateSelectList_keeps (hitems : ∀ a b, I a → I b →
    ∀ x ∈ a.tree.elements (a.tree.select (some query)).list, R.Item b.tree target x)
    (hlist : Lists s I target query) (hprogress : ∀ a, I a → InProgress ns a) (scope : ScopeId) :
    Keeps s I H (validateSelectList e ns query scope target) := by
  obtain ⟨steps, hsteps⟩ := he.counted
  refine .of_from fun a ha => ?_
  refine .bind_get
    (.bind (selectItems_keeps he scope target {} (hitems a · ha)) ha fun o b hrun hb _ => ?_)
  have hb' : I (b.withSelectList query o.items) := hlist _ _ _ _ _ ha (hsteps ▸ hrun) hb
  refine .bind_gives (J := fun _ _ => True) (.of_ok rfl hb' (.of_eq rfl) trivial)
    fun _ c _ hc _ _ => ?_
  refine Runs.bind_get (fun d _ => ?_) c hc
  refine .seq (.filterM fun _ _ => isMonotonicUpTo_keeps he) fun sorted => ?_
  exact .seq (modifyNamespace_keeps hprogress (fun _ => rfl) fun _ => rfl) fun _ =>
    building_keeps TypeTable.row_steady

theorem validateSelect_keeps (hx : ∀ a, I a → R.Block a.tree query) (hitems : ∀ a b, I a →
    I b → ∀ x ∈ a.tree.elements (a.tree.operand (some query) 1), R.Item b.tree target x)
    (hlist : Lists s I target query) (hprogress : ∀ a, I a → InProgress ns a) (hpublish : ∀ row,
    Keeps s I H (modifyNamespace ns fun n => { n with status := .inProgress (some row) })) :
    Keeps s I H (validateSelect e ns query target) := by
  refine .bind_get fun a ha => ?_
  have hop := (hx a ha).operand
  have hsource : R.typed (a.tree.select (some query)).source :=
    a.tree.select_source _ ▸ hop 2 (by decide)
  have hcondition : R.typed (a.tree.select (some query)).condition :=
    a.tree.select_condition _ ▸ hop 3 (by decide)
  have hgroups := he.elements ha (a.tree.select_groups (some query) ▸ hop 4 (by decide))
  have hhaving : R.typed (a.tree.select (some query)).having :=
    a.tree.select_having _ ▸ hop 5 (by decide)
  have hwindows := he.elements ha (a.tree.select_windows (some query) ▸ hop 6 (by decide))
  refine .seq (ifPresent_keeps (validateFrom_keeps he hsource)) fun _ => ?_
  refine .seq (ifPresent_keeps ?_) fun _ => ?_
  · exact validateCondition_keeps he hcondition
      (a.tree.select_condition _ ▸ (hx a ha).condition) _ _
  refine .seq (validateGroups_keeps he hgroups) fun _ => .seq (ifPresent_keeps ?_) fun _ => ?_
  · refine .seq (validateCondition_keeps he hhaving ?_ _ _) fun _ => he.check _ hhaving
    exact a.tree.select_having _ ▸ (hx a ha).having
  refine .seq (declareWindows_keeps he.toServes (he.anywhere _) (fun id hid => he.window
    _ (hwindows id hid)) (fun id hid b hb => he.windowReaches hb (hwindows id hid)) []) fun _ => ?_
  refine .seq (validateSelectList_keeps he ?_ hlist hprogress _) fun row => ?_
  · intro b c hb hc
    rw [Tree.select_list]
    exact hitems b c hb hc
  exact .seq (hpublish row) fun _ =>
    .seq (validateOrder_keeps he (fun b hb => (hx b hb).operand 7 (by decide))) fun _ =>
      Keeps.pure row

end Select

section Others

theorem similarObjects_keeps : Keeps s I H (similarObjects names) := by
  unfold similarObjects
  grind

theorem Engine.Settles.bareCell (he : e.Settles s I H R) (ha : I a) (hx : R.typed x) :
    R.typed (bareCell a.tree x) := by
  unfold Analysis.bareCell
  split
  · exact he.operandOf ha hx ‹_› rfl 0
  · exact hx

theorem Engine.Settles.cellsOf (he : e.Settles s I H R) (ha : I a) (hx : R.typed x) :
    ∀ y ∈ cellsOf a.tree x, R.typed y := by
  unfold Analysis.cellsOf
  split
  · rename_i c hc
    split
    · rename_i hk
      exact he.operands ha hx hc (by rw [eq_of_beq hk]; rfl)
    · exact List.forall_mem_singleton.mpr hx
  · exact List.forall_mem_singleton.mpr hx

theorem mem_columns {rows : List Link}
    (hc : cells ∈ (List.range width).map fun k => rows.map fun row => ((cellsOf t row)[k]?).join)
    (hy : y ∈ cells) : y = none ∨ ∃ row ∈ rows, y ∈ cellsOf t row := by
  obtain ⟨k, _, rfl⟩ := List.mem_map.mp hc
  obtain ⟨row, hrow, rfl⟩ := List.mem_map.mp hy
  cases hk : ((cellsOf t row)[k]?).join with
  | none => exact .inl rfl
  | some i => exact .inr ⟨row, hrow, List.mem_of_getElem? (Option.join_eq_some_iff.mp hk)⟩

variable [Refusing I H]

theorem checkRowLengths_keeps : Keeps s I H (checkRowLengths t rows) := by
  unfold checkRowLengths
  grind

theorem branchColumn_keeps : Keeps s I H (branchColumn op width place rows) := by
  induction rows with
  | nil => exact Keeps.pure _
  | cons row rows ih =>
    rw [branchColumn]
    grind

theorem validateSource_keeps (he : e.Settles s I H R) (ht : R.targets target) {id : Link} :
    Keeps s I H (validateSource e id target) := by
  have hrow (ns : NamespaceId) := rowOf_keeps (he.validate ns ht)
  unfold validateSource
  grind

theorem checkAssign_keeps {id : Link} : Keeps s I H (checkAssign id column source) := by
  unfold checkAssign
  grind

variable [Hushed I]

theorem validateTable_keeps (hprogress : ∀ a, I a → InProgress ns a) :
    Keeps s I H (validateTable ns node) := by
  refine .bind_get fun a _ => .bind_read ?_
  refine .seq (modifyGet_keeps fun _ => ⟨.of_eq rfl, rfl, rfl, rfl, rfl, rfl, rfl, rfl⟩)
    fun answer => ?_
  split
  · exact .throw (Refusing.catalog (I := I) _)
  · exact .seq similarObjects_keeps fun _ => .refuse
  · exact .seq (modifyNamespace_keeps hprogress (fun _ => rfl) fun _ => rfl) fun _ =>
      building_keeps (TypeTable.adopt_steady _)

variable (he : e.Settles s I H R)
include he

theorem validateSetOp_keeps (ht : R.targets target) :
    Keeps s I H (validateSetOp e node target) := by
  have hrow (ns : NamespaceId) := rowOf_keeps (he.validate ns ht)
  refine .bind_get fun a _ => .seq (.mapM fun branch _ => ?_) fun rows => ?_
  · grind
  split
  · exact .fault_bind
  · refine .seq (.mapM fun column _ => ?_) fun fields => building_keeps TypeTable.row_steady
    grind [branchColumn_keeps]

theorem columnType_keeps (h : ∀ y ∈ cells, R.typed y) :
    Keeps s I H (columnType e scope node cells) := by
  refine .bind_get fun a ha => .seq (.mapM fun y hy => ?_) fun ts => ?_
  · obtain ⟨x, hx, rfl⟩ := List.mem_map.mp (List.mem_filter.mp hy).1
    exact he.derive (he.anywhere scope) (he.bareCell ha (h x hx))
  · grind

theorem columnField_keeps (h : ∀ y ∈ cells, R.typed y)
    (hexpected : ∀ a, I a → ∀ y ∈ cells, R.expected (bareCell a.tree y)) :
    Keeps s I H (columnField e scope node expected place cells) := by
  have hs := he.anywhere scope
  refine .bind_get fun a ha => .seq (.mapM fun y hy => ?_) fun ts => ?_
  · exact .seq (he.infer hs (.inl (hexpected a ha y hy))) fun _ => he.derive hs (h y hy)
  · grind

variable [Entering s I]

theorem validateValues_keeps {node : NodeId}
    (hx : ∀ a, I a → ∀ c, a.tree.call? (some node) = some c → ∀ y ∈ c.operands, R.typed y)
    (hcells : ∀ a b, I a → I b → ∀ c, a.tree.call? (some node) = some c →
      ∀ y ∈ c.operands, ∀ z ∈ cellsOf a.tree y, R.expected (bareCell b.tree z)) {id : NamespaceId}
    (hn : Relates I id .values node) : Keeps s I H (validateValues e scope node target) := by
  refine .bind_get_after fun a ha => .seq checkRowLengths_keeps fun _ => ?_
  have hrows : ∀ y ∈ (a.tree.call? (some node)).elim [] Call.operands, R.typed y ∧
      (∀ b, I b → ∀ z ∈ cellsOf a.tree y, R.expected (bareCell b.tree z)) ∧
      ∃ c, a.tree.call? (some node) = some c ∧ y ∈ c.operands := by
    cases hc : a.tree.call? (some node) with
    | none => rintro _ ⟨⟩
    | some c =>
      exact fun y hy => ⟨hx a ha c hc y hy, fun b hb => hcells a b ha hb c hc y hy, c, rfl, hy⟩
  generalize (a.tree.call? (some node)).elim [] Call.operands = rows at hrows ⊢
  generalize (rows.head?.elim [] (cellsOf a.tree)).length = width
  have htyped {cells : List Link} (hc : cells ∈ (List.range width).map fun k =>
      rows.map fun row => ((cellsOf a.tree row)[k]?).join) : ∀ y ∈ cells, R.typed y := by
    intro y hy
    obtain rfl | ⟨row, hrow, hy⟩ := mem_columns hc hy
    · exact he.absent
    · exact he.cellsOf ha (hrows row hrow).1 y hy
  have hexpected {cells : List Link} (hc : cells ∈ (List.range width).map fun k =>
      rows.map fun row => ((cellsOf a.tree row)[k]?).join) : ∀ b, I b →
        ∀ y ∈ cells, R.expected (bareCell b.tree y) := by
    intro b hb y hy
    obtain rfl | ⟨row, hrow, hy⟩ := mem_columns hc hy
    · exact he.vacant
    · exact (hrows row hrow).2.1 b hb y hy
  dsimp only
  split
  case' isTrue => refine .seq (Keeps.pure _) fun expected => ?_
  case' isFalse => refine .seq (.mapM fun cells hcells =>
    (columnType_keeps he (htyped hcells)).frame) fun expected => ?_
  all_goals
    refine .seq (.mapM fun p hp => ?_) fun fields =>
      .seq (building_keeps TypeTable.row_steady) fun type => ?_
    · have hcells := (List.of_mem_zip (List.fst_mem_of_mem_zipIdx hp)).1
      exact (columnField_keeps he (htyped hcells) (hexpected hcells)).frame
    · refine .seq (.forM fun row hrow => ?_) fun _ => Keeps.pure _
      cases row with
      | none => exact Keeps.pure _
      | some r =>
        dsimp only
        split
        · refine .of_from fun b hb => .of_ok (run_setType b r type s) ?_ (.of_eq rfl) trivial
          obtain ⟨_, _, c, hc, hr⟩ := hrows (some r) hrow
          have hcall : b.tree.isCall (some r) [.row] := by
            obtain ⟨c', hc', hk⟩ := call?_of_isCall ‹_›
            simp only [Tree.isCall, Tree.call?_of_form? (hb.2.tree.form? (Tree.form?_of_call? hc')),
              hk]
            rfl
          have hnode := Tree.call?_of_form? (hb.2.tree.form? (Tree.form?_of_call? hc))
          exact ⟨Entering.entry (s := s) (.cells hb.1 hn hnode hr hcall), hb.2.trans (.of_eq rfl)⟩
        · exact Keeps.pure _

omit [Entering s I]

theorem validateUnnest_keeps (hx : ∀ a, I a → R.typed (a.tree.operand (some node) 0)) :
    Keeps s I H (validateUnnest e scope node) := by
  have hs := he.anywhere scope
  refine .bind_get fun a ha => ?_
  refine .seq (he.inferUnknown hs (hx a ha)) fun _ => .seq (he.derive hs (hx a ha)) fun t => ?_
  split
  · exact building_keeps TypeTable.row_steady
  · exact building_keeps TypeTable.row_steady
  · exact .refuse

theorem validateCollect_keeps : Keeps s I H (validateCollect e node) := by
  have hrow (ns : NamespaceId) := rowOf_keeps (he.relation ns)
  unfold validateCollect
  grind

theorem validateTarget_keeps (hprogress : ∀ a, I a → InProgress ns a) :
    Keeps s I H (validateTarget e ns node) := by
  refine .bind_get fun a _ => .bind_get fun b _ => ?_
  split
  · exact .refuse
  · refine .seq (he.relation _) fun _ => .seq (namespaceOfId_keeps _) fun target => ?_
    refine .seq (modifyNamespace_keeps hprogress (fun _ => rfl) fun _ => rfl) fun _ =>
      building_keeps ?_
    exact TypeTable.scalar_steady.bind fun t => TypeTable.row_steady

variable [Entering s I]

omit he [Hushed I] in
theorem listedColumns_keeps (ha : I a) (hc : a.tree.call? (some j) = some c)
    (hk : Assigns c columns) (hcols : ∀ x ∈ cols, x ∈ a.tree.elements columns)
    (table : SqlType) (seen : List String) :
    Keeps s (fun b => I b ∧ Advances a b) H (listedColumns table seen cols) := by
  induction cols generalizing seen with
  | nil => exact Keeps.pure _
  | cons col cols ih =>
    have hrest (seen : List String) := ih (fun x hx => hcols x (List.mem_cons_of_mem col hx)) seen
    rw [listedColumns]
    refine .bind_get_after fun b hb => ?_
    split
    · rename_i id i hi
      have hset (t : SqlType) : Keeps s (fun d => (I d ∧ Advances a d) ∧
          Advances b d) H (setType id t) := by
        refine .of_from fun d hd => .of_ok (run_setType d id t s) ?_ (.of_eq rfl) trivial
        have hform := hd.2.tree.form? (Tree.form?_of_identifier? hi)
        have hmem := hcols (some id) List.mem_cons_self
        refine ⟨⟨?_, hd.1.2.trans (.of_eq rfl)⟩, hd.2.trans (.of_eq rfl)⟩
        refine Entering.entry (s := s) (.target ha hc ?_ hd.1.1 hd.1.2 hform)
        obtain ⟨hk, rfl⟩ | ⟨hk, rfl⟩ := hk
        · exact .inl ⟨hk, hmem⟩
        · exact .inr ⟨hk, hmem⟩
      refine .seq (field?_keeps _ _) fun found => ?_
      have hnext (seen : List String) : Keeps s (fun d => (I d ∧ Advances a d) ∧
          Advances b d) H (listedColumns table seen cols) :=
        (hrest seen).frame
      split
      · exact .seq (similar_keeps _ _) fun _ => .refuse
      · split
        · exact .refuse_bind
        · exact .seq (hset _) fun _ => .seq (hnext _) fun _ => Keeps.pure _
    · exact .refuse

omit he in
theorem targetColumns_keeps (hc : ∀ a, I a → a.tree.call? (some j) = some c)
    (hk : Assigns c columns) (table : SqlType) : Keeps s I H (targetColumns table columns) := by
  unfold targetColumns
  split
  · exact Keeps.pure _
  · refine .bind_get_after fun a ha => .seq ?_ fun fields => building_keeps TypeTable.row_steady
    exact listedColumns_keeps ha (hc a ha) hk (fun _ => id) table []

section Changes

variable (hc : ∀ a, I a → a.tree.call? (some j) = some c)
include hc

omit he in
theorem validateInsert_keeps (hk : c.kind = .insert)
    (hsource : ∀ t, Keeps s I H (validateSource e (InsertParts.ofCall c).query t))
    (table : SqlType) : Keeps s I H (validateInsert e c table) := by
  have hcolumns := targetColumns_keeps (s := s) (H := H) hc (.inl ⟨hk, rfl⟩) table
  unfold validateInsert
  grind [checkAssign_keeps]

omit he in
theorem validateUpdate_keeps (hk : c.kind = .update)
    (hsource : ∀ t, Keeps s I H (validateSource e (UpdateParts.ofCall c).query t))
    (table : SqlType) : Keeps s I H (validateUpdate e c table) := by
  have hcolumns := targetColumns_keeps (s := s) (H := H) hc (.inr ⟨hk, rfl⟩) table
  unfold validateUpdate
  grind [checkAssign_keeps]

end Changes

theorem validateChange_keeps (hsource : ∀ x t, Keeps s I H (validateSource e x t)) {id : NodeId} :
    Keeps s I H (validateChange e id) := by
  refine .bind_get_after fun a ha => ?_
  dsimp only
  split
  · rename_i ns n c _ _ hcall
    split
    · exact .refuse_bind
    have hc (b : Analysis) (hb : I b ∧ Advances a b) : b.tree.call? (some id) = some c :=
      Tree.call?_of_form? (hb.2.tree.form? (Tree.form?_of_call? hcall))
    refine .seq (he.relation _).frame fun _ => .bind_get fun b _ => ?_
    split
    · exact validateInsert_keeps hc ‹_› (fun t => (hsource _ t).frame) _
    · exact validateUpdate_keeps hc ‹_› (fun t => (hsource _ t).frame) _
    · exact .seq (hsource _ _).frame fun _ => Keeps.pure _
  · exact .refuse

end Others

end Analysis

end SqlAnalysis

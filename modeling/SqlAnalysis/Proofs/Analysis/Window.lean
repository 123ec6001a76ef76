import SqlAnalysis.Proofs.Analysis.Expression

/-!
Windows. Finding out what window an operand of `OVER` stands for only reads the analysis, and the
keys and bounds of the window that is found are reached from the windowed call.
-/

namespace SqlAnalysis.Analysis

/-- Where the analysis of an expression seen from a scope goes from a node. -/
def Leads (a : Analysis) (s : Setting) (scope : ScopeId) : Link → Link → Prop :=
  a.tree.Leads (windowNamed? a.tree s.matcher (a.store.selectOf scope))

/-- What a window seen from a scope refers to. -/
def Refers (a : Analysis) (s : Setting) (scope : ScopeId) : Link → Link → Prop :=
  a.tree.Refers (windowNamed? a.tree s.matcher (a.store.selectOf scope))

/-- All that the node leads to in the end is in `A`. -/
def Reaches (a : Analysis) (s : Setting) (scope : ScopeId) (A : Link → Prop)
    (x : Link) : Prop :=
  ∀ y, Relation.TransGen (a.Leads s scope) x y → A y

/-- The keys and bounds of a window are in `A`. -/
structure Window.Within (A : Link → Prop) (w : Window) : Prop where
  partition : ∀ y ∈ w.partition, A y
  order : ∀ y ∈ w.order, A y
  lower : A w.lower
  upper : A w.upper

variable {a : Analysis}

namespace Reaches

section

variable (h : a.Reaches s scope A x)
include h

theorem step (hy : a.Leads s scope x y) : A y := h y (.single hy)

theorem tail (hy : a.Leads s scope x y) : a.Reaches s scope A y :=
  fun z hz => h z (.trans (.single hy) hz)

theorem elements (hx : A x) (hy : y ∈ a.tree.elements x) : A y := by
  obtain rfl | ⟨items, hl, hy⟩ := Tree.eq_or_mem_of_mem_elements hy
  · exact hx
  · exact h.step (.of_mem_list hl hy)

theorem operands (hc : a.tree.call? x = some c) (hq : c.kind.isQuery = false) :
    ∀ y ∈ c.operands, A y :=
  fun _ hy => h.step (.of_mem hc hq hy)

end

theorem absent : a.Reaches s scope A none := fun _ hy => absurd hy Tree.not_transGen_none

theorem operand {c : Call} (h : a.Reaches s scope A x) (hc : a.tree.call? x = some c)
    (hq : c.kind.isQuery = false) (k : Nat) : a.Reaches s scope A (c.operand k) := by
  cases hk : c.operand k with
  | none => exact absent
  | some y => exact h.tail (.of_mem hc hq (c.mem_operands_of_operand hk))

theorem operandElements (h : a.Reaches s scope A x) (hc : a.tree.call? x = some c)
    (hq : c.kind.isQuery = false) (k : Nat) : ∀ y ∈ a.tree.elements (c.operand k), A y := by
  intro y hy
  cases hk : c.operand k with
  | none => rw [hk] at hy; cases hy
  | some z =>
    rw [hk] at hy
    have hz := c.mem_operands_of_operand hk
    exact (h.tail (.of_mem hc hq hz)).elements (h.operands hc hq _ hz) hy

end Reaches

/-- What a window name or specification stands for is within `A`. -/
structure WindowReaches (a : Analysis) (s : Setting) (scope : ScopeId) (A : Link → Prop)
    (id : Link) : Prop where
  spec : a.Reaches s scope A id
  refers : ∀ w, Relation.TransGen (a.Refers s scope) id w → a.Reaches s scope A w

theorem Reaches.window {c : Call} (h : a.Reaches s scope A x) (hc : a.tree.call? x = some c)
    (hk : c.kind = .over) : WindowReaches a s scope A (c.operand 1) where
  spec := h.operand hc (by rw [hk]; rfl) 1
  refers _ hw := h.tail (.window hc hk hw)

theorem WindowReaches.next (h : WindowReaches a s scope A x) (hy : a.Refers s scope x y) :
    WindowReaches a s scope A y where
  spec := h.refers y (.single hy)
  refers w hw := h.refers w (.head hy hw)

/-- The window that a specification describes by itself. -/
def specified? (t : Tree) (x : Link) : Option Window :=
  match x, t.call? x with
  | some node, some c =>
    if c.kind ≠ .window then none
    else some
      { node
        partition := t.elements (c.operand 2)
        order := t.elements (c.operand 3)
        rows := t.isTrue (c.operand 4)
        lower := c.operand 5
        upper := c.operand 6 }
  | _, _ => none

theorem call?_of_specified? (h : specified? t x = some w) :
    ∃ c, t.call? x = some c ∧ c.kind = .window ∧ w.partition = t.elements (c.operand 2) ∧
      w.order = t.elements (c.operand 3) ∧ w.lower = c.operand 5 ∧ w.upper = c.operand 6 := by
  unfold specified? at h
  split at h
  · rename_i hc
    split at h <;> cases h
    rename_i hk
    exact ⟨_, hc, Decidable.not_not.mp hk, rfl, rfl, rfl, rfl⟩
  · cases h

theorem WindowReaches.specified (h : WindowReaches a s scope A x) (h0 : A none)
    (hw : specified? a.tree x = some w) : w.Within A := by
  obtain ⟨c, hc, hk, hp, ho, hl, hu⟩ := call?_of_specified? hw
  have hq : c.kind.isQuery = false := by rw [hk]; rfl
  have hoperand := c.operand_of_operands (h.spec.operands hc hq) h0
  exact ⟨hp ▸ h.spec.operandElements hc hq 2, ho ▸ h.spec.operandElements hc hq 3,
    hl ▸ hoperand 5, hu ▸ hoperand 6⟩

/-- What is done about a window, the rest being left to `next`: a name or a specification that
refers to a window is followed, and a specification that does not is the window. -/
inductive WindowStep (a : Analysis) (s : Setting) (scope : ScopeId) (next : Link → AnalysisM Window)
    (depth : Nat) (x : Link) : AnalysisM Window → Prop where
  | name {i y} : a.tree.identifier? x = some i → specified? a.tree x = none → a.Refers s scope x y →
    WindowStep a s scope next depth x
    (if depth > maxReferences then refuse x (.windowCycle i.last) else next y)
  | base {w y} : a.tree.identifier? x = none → specified? a.tree x = some w → a.Refers s scope x y →
    WindowStep a s scope next depth x (next y >>= w.over (a.tree.window x))
  | last {w} : (∀ y, ¬ a.Refers s scope x y) → specified? a.tree x = some w →
    WindowStep a s scope next depth x (pure w)
  | refused {c} : (∀ y, ¬ a.Refers s scope x y) → c.code ≠ .validationCycle →
    WindowStep a s scope next depth x (refuse x c)

theorem windowUpTo_step : ∃ m, windowUpTo scope (fuel + 1) depth x s a = m s a ∧
      WindowStep a s scope (windowUpTo scope fuel (depth + 1)) depth x m := by
  rw [windowUpTo, run_bind_get]
  have hrefers {y : Link} (hy : a.Refers s scope x y) := hy.form
  cases hf : a.tree.form? x with
  | none => exact ⟨_, rfl, .refused (fun y hy => by grind) nofun⟩
  | some f =>
    cases f with
    | identifier i =>
      have hi : a.tree.identifier? x = some i := by simp only [Tree.identifier?, hf]
      have hfind : findWindow scope i.last s a =
        (.ok (windowNamed? a.tree s.matcher (a.store.selectOf scope) i.last), a) := rfl
      dsimp only
      rw [run_bind, hfind]
      cases hw : windowNamed? a.tree s.matcher (a.store.selectOf scope) i.last with
      | none => exact ⟨_, rfl, .refused (fun y hy => by grind) nofun⟩
      | some w =>
        refine ⟨_, ?_, .name hi (by simp only [specified?, Tree.call?, hf]) (.name hi hw)⟩
        dsimp only
        split <;> rfl
    | call c =>
      have hc := Tree.call?_of_form? hf
      cases x with
      | none => cases hf
      | some n =>
        by_cases hk : c.kind = .window
        · cases hb : (WindowParts.ofCall c).base with
          | none =>
            refine ⟨_, ?_, .last (fun y hy => by grind [WindowParts.ofCall])
              (by simp only [specified?, hc, hk]; rfl)⟩
            simp only [hk, hb]
            rfl
          | some j =>
            refine ⟨_, ?_, .base (by simp only [Tree.identifier?, hf])
              (by simp only [specified?, hc, hk]; rfl) (.base hc hk hb)⟩
            simp only [hk, hb, Tree.window, hc]
            rfl
        · simp only [if_pos hk]
          exact ⟨_, rfl, .refused (fun y hy => by grind) nofun⟩
    | _ => exact ⟨_, rfl, .refused (fun y hy => by grind) nofun⟩

theorem Window.over_cases (w base : Window) (p : WindowParts) :
    (∃ x c, w.over p base = refuse x c ∧ c.code ≠ .validationCycle) ∨ w.partition = [] ∧
      (w.order = [] ∨ base.order = []) ∧ base.framed = false ∧ w.over p base =
      pure { w with partition := base.partition, order := w.order ++ base.order } := by
  unfold Window.over
  dsimp only
  split
  · exact .inl ⟨_, _, rfl, nofun⟩
  split
  · exact .inl ⟨_, _, rfl, nofun⟩
  split
  · exact .inl ⟨_, _, rfl, nofun⟩
  rename_i hpartition horder hframed
  simp only [Bool.not_eq_eq_eq_not, Bool.not_true, Bool.and_eq_true, Bool.not_eq_true,
    List.isEmpty_eq_false_iff, ne_eq, not_and, Decidable.not_not] at hpartition horder hframed
  by_cases ho : w.order = []
  · simp [hpartition, hframed, ho]
  · simp [hpartition, hframed, ho, horder ho]

theorem Window.over_within [Refusing I H] {w base : Window}
    (hw : w.Within A) (hb : base.Within A) : Runs s I H (w.over p base) (Window.Within A) := by
  obtain ⟨x, c, h, _⟩ | ⟨_, _, _, h⟩ := w.over_cases base p <;> rw [h]
  · exact .refuse
  · exact .pure ⟨hb.partition, fun y hy => (List.mem_append.mp hy).elim (hw.order y) (hb.order y),
      hw.lower, hw.upper⟩

theorem windowUpTo_within [Refusing (fun b => b = a) H]
    (hH : H .exhausted) (h0 : A none) (h : WindowReaches a s scope A x) :
    Runs s (fun b => b = a) H (windowUpTo scope fuel depth x) (Window.Within A) := by
  induction fuel generalizing depth x with
  | zero => exact .throw hH
  | succ fuel ih =>
    obtain ⟨m, hrun, hm⟩ := windowUpTo_step
    refine .of_run hrun ?_
    cases hm with
    | name _ _ hy =>
      split
      · exact .refuse
      · exact ih (h.next hy)
    | base _ hw hy =>
      exact .bind (ih (h.next hy)) fun base hb => Window.over_within (h.specified h0 hw) hb
    | last _ hw => exact .pure (h.specified h0 hw)
    | refused => exact .refuse

section Rules

variable {e : Engine}

theorem resolveWindow_runs {id : Link} (hw : Keeps s I H (resolveWindow scope id))
    (h0 : A none) (h : ∀ a, I a → WindowReaches a s scope A id) :
    Runs s I H (resolveWindow scope id) (Window.Within A) := by
  refine .giving hw (.of_eq fun a ha => ?_)
  unfold resolveWindow
  exact .bind_get fun _ _ => windowUpTo_within trivial h0 (h a ha)

theorem containsMonotonic_keeps : Keeps s I H (containsMonotonic scope) := by
  unfold containsMonotonic
  grind

variable [Refusing I H]

theorem resolveWindow_keeps (hH : H .exhausted) {id : Link} :
    Keeps s I H (resolveWindow scope id) := by
  have htrivial (a : Analysis) : WindowReaches a s scope (fun _ => True) id :=
    ⟨fun _ _ => trivial, fun _ _ _ _ => trivial⟩
  refine .of_eq fun a ha => ?_
  have : Refusing (fun b => b = a) H :=
    ⟨fun hb => Refusing.refused (hb ▸ ha), Refusing.catalog I, Refusing.faulted I⟩
  unfold resolveWindow
  exact .bind_get fun _ _ => (windowUpTo_within hH trivial (htrivial a)).keeps

theorem checkRange_keeps : Keeps s I H (checkRange value t key) := by
  cases key with
  | none => exact Keeps.pure _
  | some key =>
    unfold checkRange
    grind

theorem checkBounds_keeps : Keeps s I H (checkBounds w lower upper) := by
  unfold checkBounds
  grind

theorem frameBetween_keeps : Keeps s I H (frameBetween w lower upper) := by
  unfold frameBetween
  grind

theorem orderKey_keeps : Keeps s I H (orderKey w monotonic) := by
  unfold orderKey
  grind

variable [Heeding s W I] (he : e.Serves s I H R) (hs : R.scopes scope)
include he hs

theorem boundOffset_keeps {id : Link} (h : R.typed id) (rows : Bool) (key : Option SqlType) :
    Keeps s I H (boundOffset e scope id rows key) := by
  unfold boundOffset
  refine .bind_get fun a _ => ?_
  dsimp only
  split
  · exact .refuse
  · exact .refuse
  · grind [he.derive, checkRange_keeps]

theorem frameBound_keeps {id : Link} (h : R.typed id) (rows : Bool) (key : Option SqlType) :
    Keeps s I H (frameBound e scope id rows key) := by
  have hoffset := boundOffset_keeps he hs h rows key
  unfold frameBound
  refine .bind_get fun a _ => ?_
  dsimp only
  split
  · exact Keeps.pure _
  · split <;> grind

omit [Refusing I H] in
theorem validateKeys_keeps (h : ∀ y ∈ keys, R.typed y) :
    Keeps s I H (validateKeys e scope keys) := by
  unfold validateKeys
  grind [he.derive, he.inferUnknown]

theorem validateWindow_keeps (hw : w.Within R.typed) (op : Option Operator) :
    Keeps s I H (validateWindow e scope w op) := by
  have hlower := frameBound_keeps he hs hw.lower w.rows
  have hupper := frameBound_keeps he hs hw.upper w.rows
  unfold validateWindow
  refine .seq (validateKeys_keeps he hs hw.partition) fun _ => ?_
  refine .seq (validateKeys_keeps he hs hw.order) fun _ => ?_
  refine .seq containsMonotonic_keeps fun monotonic => ?_
  split
  · grind
  · grind [orderKey_keeps, checkBounds_keeps, frameBetween_keeps]

theorem setFrame_runs {id : NodeId} (hx : ∀ a, I a → HasWindow a.tree id x)
    (hw : Runs s I H (resolveWindow scope x) (Window.Within R.typed)) (op : Option Operator)
    (hk : Runs s I H k Q) :
    Runs s I H (do
      let w ← resolveWindow scope x
      let frame ← validateWindow e scope w op
      setFrame id frame
      k) Q := by
  obtain ⟨steps, rfl⟩ := he.counted
  refine .of_from fun a ha => ?_
  refine .bind_gives (J := fun w _ => w.Within R.typed) (hw a ha) fun w b hresolved hb _ hwithin =>
    ?_
  refine .bind (validateWindow_keeps he hs hwithin op) hb fun frame d hrun hd hadv => ?_
  have hnoted := he.framed (.note (hx b hb) hresolved hb hrun hd hadv)
  exact .seq (J := fun _ _ => True) (.of_ok rfl hnoted (.of_eq rfl) trivial) fun _ => hk

theorem deriveOver_keeps [Hushed I] {id : NodeId} (hid : W.typed (some id))
    (hw : ∀ {id}, R.typed id → Keeps s I H (resolveWindow scope id))
    (hc : ∀ a, I a → a.tree.call? (some id) = some c) (hk : c.kind = .over)
    (hx : ∀ a, I a → a.Reaches s scope R.typed (some id)) :
    Keeps s I H (deriveOver e scope id c) := by
  obtain ⟨steps, rfl⟩ := he.counted
  unfold deriveOver
  refine .bind_get_after fun a ha => ?_
  have he' : (engine steps).Serves s (fun b => I b ∧ Advances a b) H R := he.frame
  dsimp only
  split
  · rename_i aggregate inner htarget hinner
    split
    · exact .refuse_bind
    rename_i haggregate
    have haggregate : inner.operator.isAggregate := by simpa using haggregate
    have hq : c.kind.isQuery = false := by rw [hk]; rfl
    have hop : R.typed (c.operand 1) :=
      c.operand_of_operands ((hx a ha).operands (hc a ha) hq) he.absent 1
    have hwindow := resolveWindow_runs ((hw hop).frame (P := Advances a)) he.absent fun b hb =>
      (hx b hb.1).window (hc b hb.1) hk
    have hargs : ∀ y ∈ inner.operands, R.typed y := fun y hy =>
      (hx a ha).step (.operand (hc a ha) hk hinner hy)
    have hinner' (b : Analysis) (hb : I b ∧ Advances a b) : b.tree.call? (some aggregate) =
        some inner :=
      Tree.call?_of_form? (hb.2.tree.form? (Tree.form?_of_call? (htarget ▸ hinner)))
    have hcalled : Called W (fun b => I b ∧ Advances a b) aggregate inner :=
      .inr ⟨id, c, hid, fun b hb => hc b hb.1, hk, htarget, haggregate⟩
    have htyped := deriveOperator_keeps he' hs hargs hinner' hcalled true
    refine setFrame_runs he' hs (fun b hb => .over (hc b hb.1) hk) hwindow _ ?_
    refine .of_from fun b hb => .bind htyped hb fun t d hrun hd hadv => ?_
    refine .of_ok (v := t) (b := (d.withType aggregate t).withScopeOf aggregate scope)
      ?_ ?_ (.of_eq rfl) trivial
    · rw [run_bind, run_setType]
      rfl
    · exact Heeding.mark (s := s) (W := W) (I := fun b => I b ∧ Advances a b)
        (.windowed hid hb (hc b hb.1) hk htarget (hinner' b hb) hrun hd hadv)
  · exact .refuse

theorem declareWindows_keeps (hw : ∀ id ∈ ids, Keeps s I H (resolveWindow scope id))
    (h : ∀ id ∈ ids, ∀ a, I a → WindowReaches a s scope R.typed id)
    (seen : List String) : Keeps s I H (declareWindows e scope seen ids) := by
  induction ids generalizing seen with
  | nil => exact Keeps.pure _
  | cons id ids ih =>
    have hwindow :=
      resolveWindow_runs (hw id List.mem_cons_self) he.absent (h id List.mem_cons_self)
    have hrest := ih (fun id' hid => hw id' (List.mem_cons_of_mem id hid)) fun id' hid =>
      h id' (List.mem_cons_of_mem id hid)
    rw [declareWindows]
    refine .bind_get fun a ha => ?_
    dsimp only
    split
    · refine .bind_read ?_
      split
      · exact .refuse_bind
      exact setFrame_runs he hs (fun _ _ => .declaration) hwindow _ (hrest _)
    · exact .refuse

end Rules

end SqlAnalysis.Analysis

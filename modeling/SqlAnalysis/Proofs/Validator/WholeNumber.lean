import SqlAnalysis.Proofs.Analysis.Frame
import SqlAnalysis.Proofs.Number.Digits
import SqlAnalysis.Proofs.Validator.Begun

/-!
Whole numbers that are taken from constants: the distances of the ends of a frame in rows, and the
places of columns that rows are sorted by. Both are kept in 64 bits, so what is recorded is the
written number only as long as that fits. The frames of an accepted statement are those that its
analysis has noted, each for the window of its node.
-/

namespace SqlAnalysis

theorem Number.wrap_size : wrap 64 (wrap 64 u - wrap 64 l + 1) = wrap 64 (u - l + 1) := by
  rw [wrap, wrap, wrap, wrap, sub_add_eq_add_sub, Int.sub_bmod_bmod, add_sub_assoc,
    Int.bmod_add_bmod, sub_add_eq_add_sub, add_sub_assoc]

/-- The constant that an item of a sort order consists of, in either direction. -/
inductive Tree.SortsBy (t : Tree) : Link → Literal → Prop
  | ascending {x : Link} {l : Literal} (h : t.form? x = some (.literal l)) : t.SortsBy x l
  | descending {x : Link} {c : Call} {l : Literal} (hc : t.form? x = some (.call c))
    (hk : c.kind = .descending)
      (hl : t.form? (c.operand 0) = some (.literal l)) : t.SortsBy x l

theorem Tree.SortsBy.extends {t u : Tree} (h : t.SortsBy x l) (hu : t.Extends u) :
    u.SortsBy x l := by
  cases h with
  | ascending h => exact .ascending (hu.form? h)
  | descending hc hk hl => exact .descending (hu.form? hc) hk (hu.form? hl)

theorem FrameEnd.offset?_count {e : FrameEnd} (h : e.Offset Literal.IsCount) (hb : e.IsBounded) :
    ∃ d, e.bound.offset? = some d ∧ ∃ n : ℤ, d.value = n ∧ e.distance = ((n : ℚ) : WithTop ℚ) := by
  obtain ⟨d, hd, hdistance⟩ := offset?_bound (h.imp Literal.IsCount.isSome_decimal?) hb
  obtain ⟨n, hn⟩ : ∃ n : ℤ, d.value = n := by
    cases e with
    | currentRow =>
      cases hd
      exact ⟨0, Decimal.value_ofInt⟩
    | preceding l =>
      obtain ⟨_, rfl, n, hn⟩ := h
      cases hd
      exact ⟨-n, by rw [Decimal.value_neg, hn, Int.cast_neg, Int.cast_natCast]⟩
    | following l =>
      obtain ⟨_, rfl, n, hn⟩ := h
      cases hd
      exact ⟨n, by rw [hn, Int.cast_natCast]⟩
    | unboundedPreceding | unboundedFollowing => cases hd
  exact ⟨d, hd, n, hn, by rw [hdistance, hn]⟩

namespace Analysis

variable {a b : Analysis} {scope : ScopeId} {x : Link} {row : SqlType} {steps : ℕ}

theorem isOrdinal_iff :
    isOrdinal d n ↔ ∃ z : ℤ, d.value = z ∧ 1 ≤ Number.wrap 64 z ∧ Number.wrap 64 z ≤ n := by
  simp only [isOrdinal, Bool.and_eq_true, decide_eq_true_eq, Decimal.isInteger_iff, and_assoc]
  constructor
  · rintro ⟨⟨z, hz⟩, h⟩
    exact ⟨z, hz, (Decimal.truncate_of_value hz).1 ▸ h⟩
  · rintro ⟨z, hz, h⟩
    exact ⟨⟨z, hz⟩, (Decimal.truncate_of_value hz).1.symm ▸ h⟩

/-- The number is the place of one of so many columns, as far as 64 bits go. -/
def IsPlace (d : Decimal) (n : ℕ) : Prop :=
  ∃ z : ℤ, d.value = z ∧ (1 ≤ Number.wrap 64 z ∧ Number.wrap 64 z ≤ n) ∧
    (Number.Fits 64 z → 1 ≤ z ∧ z ≤ n)

theorem IsPlace.of_isOrdinal (h : isOrdinal d n) : IsPlace d n := by
  obtain ⟨z, hz, hplace⟩ := isOrdinal_iff.mp h
  exact ⟨z, hz, hplace, fun hfits => hfits.wrap_eq ▸ hplace⟩

theorem validateOrderKey_ok (hx : a.tree.SortsBy x (.exact d))
    (h : validateOrderKey e scope row x s a = (.ok (), b)) : isOrdinal d row.fields.length := by
  have hlit : a.tree.literal? (if a.tree.isCall x [.descending] then a.tree.operand x 0 else x) =
      some (.exact d) := by
    cases hx with
    | ascending hl =>
      rw [Tree.literal?, if_neg (by simp [Tree.isCall, Tree.call?, hl]), hl]
    | descending hc hk hl =>
      rw [if_pos (by simp [Tree.isCall, Tree.call?, hc, hk]), Tree.literal?,
        Tree.operand, Tree.call?_of_form? hc, Option.bind_some, hl]
  rw [validateOrderKey, run_bind_get] at h
  dsimp only at h
  rw [hlit] at h
  dsimp only at h
  split at h
  · cases h
  · rename_i hordinal
    simpa using hordinal

/-- The keys before the constant may add nodes, but they leave it where it is. -/
theorem validateOrder_ok (h : validateOrder (engine steps) query row s a = (.ok (), b))
    (hx : x ∈ a.tree.elements (a.tree.select query).order) (hd : a.tree.SortsBy x (.exact d)) :
    isOrdinal d row.fields.length := by
  rw [validateOrder, run_bind_get] at h
  generalize a.clause query .order = scope at h
  generalize a.tree.elements (a.tree.select query).order = keys at h hx
  induction keys generalizing a with
  | nil => cases hx
  | cons key keys ih =>
    obtain ⟨_, c, hkey, h⟩ := run_bind_ok h
    rcases List.mem_cons.mp hx with rfl | hx
    · exact validateOrderKey_ok hd hkey
    · have hext :=
        (validateOrderKey_keeps (engine_settles s steps) trivial scope row).tree_extends hkey
      exact ih (hd.extends hext) h hx

/-- The frame in rows between two ends: between bounded ones it has their distances and their
number, as far as 64 bits go. -/
structure Measures (f : Frame) (lo hi : FrameEnd) : Prop where
  bounded : f.bounded = true ↔ lo.IsBounded ∧ hi.IsBounded
  wraps : lo.IsBounded → hi.IsBounded →
    ∃ l u : ℤ, lo.distance = ((l : ℚ) : WithTop ℚ) ∧ hi.distance = ((u : ℚ) : WithTop ℚ) ∧ l ≤ u ∧
      f = { rows := true, bounded := true, lower := Number.wrap 64 l, upper := Number.wrap 64 u
            size := Number.wrap 64 (u - l + 1) } ∧
      (Number.Fits 64 l → Number.Fits 64 u → f.lower = l ∧ f.upper = u) ∧
        (Number.Fits 64 (u - l + 1) → f.size = u - l + 1)

theorem measures_of_frameBetween (hrows : w.rows = true)
    (hcounts : lo.Offset Literal.IsCount ∧ hi.Offset Literal.IsCount)
    (hl : lo ≠ .unboundedFollowing) (hu : hi ≠ .unboundedPreceding)
    (h : frameBetween w lo.bound hi.bound s a = (.ok f, b)) : Measures f lo hi where
  bounded := (frameBetween_numbers (hcounts.1.imp Literal.IsCount.isSome_decimal?)
    (hcounts.2.imp Literal.IsCount.isSome_decimal?) hl hu).2 f b h
  wraps hlb hhb := by
    obtain ⟨_, hl, l, hlval, hldist⟩ := FrameEnd.offset?_count hcounts.1 hlb
    obtain ⟨_, hu, u, huval, hudist⟩ := FrameEnd.offset?_count hcounts.2 hhb
    obtain ⟨_, hle, rfl⟩ := (frameBetween_ok_iff hl hu).mp h
    rw [hlval, huval, Int.cast_le] at hle
    rw [(Decimal.truncate_of_value hlval).1, (Decimal.truncate_of_value huval).1,
      hrows, if_pos rfl, Number.wrap_size]
    exact ⟨l, u, hldist, hudist, hle, rfl, fun hl hu => ⟨hl.wrap_eq, hu.wrap_eq⟩,
      fun h => h.wrap_eq⟩

/-- The window that a node has, in a state in which the analysis asked for it. -/
def WindowOf (s : Setting) (a : Analysis) (i : NodeId) (w : Window) : Prop :=
  ∃ b scope x, SameDeclared b a ∧ HasWindow b.tree i x ∧ resolveWindow scope x s b = (.ok w, b)

/-- The frame was found for the window of the node. -/
def FrameOf (s : Setting) (a : Analysis) (i : NodeId) (f : Frame) : Prop :=
  ∃ w steps scope op b c, WindowOf s a i w ∧
    validateWindow (engine steps) scope w op s b = (.ok f, c) ∧ SameDeclared c a

theorem FrameOf.same (h : FrameOf s a i f) (hab : SameDeclared a b) : FrameOf s b i f := by
  obtain ⟨w, steps, scope, op, c, d, ⟨c', scope', x, hc, hx⟩, hrun, hd⟩ := h
  exact ⟨w, steps, scope, op, c, d, ⟨c', scope', x, hc.trans hab, hx⟩, hrun, hd.trans hab⟩

theorem FrameOf.exists_measures (h : FrameOf s a i f) : ∃ w, WindowOf s a i w ∧ f.rows = w.rows ∧
    (f.bounded = true → w.framed = true) ∧ (w.rows = true → w.framed = true →
      ∃ lo hi, a.tree.Describes w.lower lo ∧ a.tree.Describes w.upper hi ∧ Measures f lo hi) := by
  obtain ⟨w, steps, scope, op, b, c, hw, hvalid, hc⟩ := h
  refine ⟨w, hw, ?_⟩
  cases hframed : w.framed with
  | false =>
    cases validateWindow_unframed hframed hvalid
    exact ⟨rfl, nofun, fun _ => nofun⟩
  | true =>
    obtain ⟨lo, hi, hlo, hhi, hcounts, ⟨hl, hu, _⟩, h⟩ :=
      exists_describes_of_validateWindow hframed hvalid
    exact ⟨(frameBetween_ok h).2, fun _ => rfl, fun hrows _ => ⟨lo, hi, hlo.extends hc.tree,
      hhi.extends hc.tree, measures_of_frameBetween hrows (hcounts hrows) hl hu h⟩⟩

/-- Every frame that is noted was found for the window of its node. -/
structure FramesFound (s : Setting) (a₀ a : Analysis) : Prop where
  same : SameDeclared a₀ a
  found : ∀ i f, a.frames.get? i = some f → FrameOf s a i f

namespace FramesFound

theorem of_frames (h : FramesFound s a₀ a) (hab : SameDeclared a b)
    (hframes : b.frames = a.frames) : FramesFound s a₀ b :=
  ⟨h.same.trans hab, fun i f hf => (h.found i f (hframes ▸ hf)).same hab⟩

theorem of_notes (h : FramesFound s a₀ a) (hab : Notes a b) (hframes : b.frames = a.frames) :
    FramesFound s a₀ b :=
  h.of_frames hab.toSameDeclared hframes

instance : Hushed (FramesFound s a₀) := ⟨fun h hs => h.of_notes hs.toNotes hs.frames⟩

instance : Listing (FramesFound s a₀) := ⟨fun _ _ h => h.of_notes (.of_eq rfl) rfl⟩

theorem framed (h : Framed s (FramesFound s a₀) b) : FramesFound s a₀ b := by
  obtain @⟨a₁, a, b, steps, scope, i, x, w, op, f, hx, hw, ha, hrun, hb, hadv⟩ := h
  obtain ⟨rfl, _⟩ := windowUpTo_expands hw
  have hnote : Notes b (b.withFrame i f) := .of_eq rfl
  have hnote := hnote.toSameDeclared
  have hab : SameDeclared a b := ha.same.of_common hb.same hadv.tree
  refine ⟨hb.same.trans hnote, fun j f' hf => ?_⟩
  rw [withFrame, Table.get?_insert] at hf
  split at hf
  · cases hf
    subst_vars
    exact ⟨w, steps, scope, op, a, b, ⟨a, scope, x, hab.trans hnote, hx, hw⟩, hrun, hnote⟩
  · exact (hb.found j f' hf).same hnote

instance {W : Requests} : Heeding s W (FramesFound s a₀) where
  mark h := by
    cases h with
    | derived _ _ _ _ _ _ hb => exact hb.of_notes (.of_eq rfl) rfl
    | windowed _ _ _ _ _ _ _ hb => exact hb.of_notes (.of_eq rfl) rfl
    | operator _ _ _ _ hb => exact hb.of_notes (.of_eq rfl) rfl
    | special _ ha => exact ha.of_notes (.of_eq rfl) rfl
    | function _ _ _ _ _ hb => exact hb.of_notes (.of_eq rfl) rfl
    | qualified _ _ _ _ _ hb => exact hb.of_notes (.of_eq rfl) rfl
    | null ha => exact ha.of_notes (.of_eq rfl) rfl
    | parameter _ _ _ _ _ hb => exact hb.of_notes (.of_eq rfl) rfl
    | framed h => exact framed h

instance : Entering s (FramesFound s a₀) where
  entry h := by
    cases h with
    | row _ _ _ hb =>
      unfold withRow
      split <;> exact hb.of_notes (.of_eq rfl) rfl
    | cells ha => exact ha.of_notes (.of_eq rfl) rfl
    | item _ hb => exact hb.of_notes (.of_eq rfl) rfl
    | column _ hb => exact hb.of_notes (.of_eq rfl) rfl
    | expanded _ hb => exact hb.of_notes (.of_eq rfl) rfl
    | target _ _ _ hb => exact hb.of_notes (.of_eq rfl) rfl

end FramesFound

theorem engine_framesFound (s : Setting) (a₀ : Analysis) (steps : Nat) :
    (engine steps).Settles s (FramesFound s a₀) (fun _ => True) .any :=
  engine_settles_any trivial (fun _ _ _ hb => hb.of_frames sameDeclared_withStatus rfl) steps

theorem analyse_frames {types : TypeTable} {lookups : CatalogUse} {root : Link}
    (h : analyse root s (.start t types lookups) = (.ok (), a)) (i : NodeId)
    (f : Frame) (hf : a.frames.get? i = some f) : FrameOf s a i f := by
  obtain ⟨b, hb, _, ⟨_, _, herror⟩ | ⟨hreg, hasked⟩⟩ :=
    analyse_cases (s := s) (H := fun _ => True) (.inl trivial)
      (registered_start t types lookups) root
  · rw [herror] at h
    cases h
  · have hframes : b.frames = {} := congrArg Analysis.frames (registerStatement_blank hreg)
    have he := engine_framesFound s b (stepsFor b)
    have hend :=
      (hasked he he.source trivial ⟨.refl b, fun i f hf => by rw [hframes] at hf; cases hf⟩).1.1
    rw [h] at hend
    exact hend.found i f hf

theorem Attested.isOrdinal {id : NamespaceId} (hreg : Registered t a₀) (ht : t.Ordered)
    (h : Founded s a₀ a) (hn : a.store.namespace? id = some n) (hk : n.kind = .select)
    (hst : n.status = .valid row) (hx : x ∈ t.elements (t.select n.node).order)
    (hd : t.SortsBy x (.exact d)) : isOrdinal d row.fields.length := by
  obtain ⟨steps, target, b, c, hb, hprogress, hrun, _⟩ := h.exists_validateSelect hn hk hst
  obtain ⟨a₁, a₂, a₃, a₄, a₅, a₆, hrun⟩ := validateSelect_ok hrun
  have hclauses := hrun.proceeds_source.trans hrun.proceeds_clauses
  have hlist := hclauses.trans (hrun.proceeds_list (hclauses.inProgress hprogress))
  have hext : t.Extends a₆.tree := hreg.tree ▸ (hb.trans hlist.1).tree
  obtain ⟨n₀, hn₀, hdecl⟩ := h.same.namespace? hn
  obtain ⟨f, hf⟩ := hreg.nodes id n₀ hn₀
  have hquery : t.Has (some n.node) := Namespace.node_of_declared hdecl ▸ .of_form? hf
  have horder : t.Has (t.select (some n.node)).order := t.select_order _ ▸ .operand ht _ 7
  refine validateOrder_ok hrun.order ?_ (hd.extends hext)
  change x ∈ a₆.tree.elements (a₆.tree.select (some n.node)).order
  rw [show a₆.tree.select (some n.node) =
    t.select (some n.node) by simp only [Tree.select, hext.call?_eq hquery]]
  rwa [hext.elements_eq horder]

end Analysis

namespace Validator

open Analysis

/-- In a statement that is accepted the frame that is noted for a window in rows has the distances
of its ends and their number, and a constant in a sort order is the place of a column; all of them
as far as 64 bits go. The same is true of whatever windows and sort orders are accepted in any state
of an analysis. -/
theorem integers_wrap (v : Validator) :
    (∀ st st' r, st.canonical v.setting.operators = .ok st' → (validate st v).1 = .ok r →
      (∀ i f, r.analysis.frames.get? i = some f →
        ∃ w, WindowOf v.setting r.analysis i w ∧ f.rows = w.rows ∧
          (f.bounded = true → w.framed = true) ∧
          (w.rows = true → w.framed = true → ∃ lo hi, r.analysis.tree.Describes w.lower lo ∧
            r.analysis.tree.Describes w.upper hi ∧ Measures f lo hi)) ∧
      ∀ id n row, r.analysis.store.namespace? id = some n → n.kind = .select →
        n.status = .valid row → ∀ x ∈ st'.tree.elements (st'.tree.select n.node).order,
        ∀ d, st'.tree.SortsBy x (.exact d) → IsPlace d row.fields.length) ∧
    ∀ a b steps,
      (∀ scope w op lo hi f, w.rows = true → w.framed = true → a.tree.Describes w.lower lo →
        a.tree.Describes w.upper hi →
        validateWindow (engine steps) scope w op v.setting a = (.ok f, b) → Measures f lo hi) ∧
      ∀ query row, validateOrder (engine steps) query row v.setting a = (.ok (), b) →
        ∀ x ∈ a.tree.elements (a.tree.select query).order, ∀ d, a.tree.SortsBy x (.exact d) →
        IsPlace d row.fields.length := by
  refine ⟨fun st st' r hst hr => ?_, fun a b steps =>
    ⟨fun scope w op lo hi f hrows hframed hlo hhi h => ?_, ?_⟩⟩
  · obtain ⟨ht, _⟩ := Statement.canonical_ordered hst
    obtain ⟨_, a, hst', hrun, rfl⟩ := exists_analyse hr
    cases hst.symm.trans hst'
    refine ⟨fun i f hf => ?_, fun id n row hn hk hrow x hx d hd => ?_⟩
    · exact (analyse_frames hrun i f hf).exists_measures
    · obtain ⟨a₀, hreg, hfounded⟩ :=
        analyse_founded (s := v.setting) (registered_start st'.tree v.types v.lookups) st'.root
      rw [hrun] at hfounded
      exact .of_isOrdinal (hfounded.isOrdinal hreg ht hn hk hrow hx hd)
  · obtain ⟨hcounts, ⟨hl, hu, _⟩, _, h⟩ := validateWindow_ok hlo hhi hframed h
    exact measures_of_frameBetween hrows (hcounts hrows) hl hu h
  · exact fun query row h x hx d hd => .of_isOrdinal (validateOrder_ok h hx hd)

/-- The frame between the most distant rows has more rows than 64 bits can count, and a number just
beyond them is the place of the first column. -/
theorem integers_wrap_beyond : ∃ (st st' : Statement) (r : Result) (f : Frame) (l u z : ℤ),
    Script.parse .standard
      "(SELECT :list [(OVER (SUM 1) (WINDOW :rows true :lower (PRECEDING 9223372036854775807)
      :upper (FOLLOWING 9223372036854775807)))] :order [18446744073709551617])" = .ok st ∧
    st.canonical .standard = .ok st' ∧ (validate st noTables).1 = .ok r ∧
    r.analysis.frames.get? 8 = some f ∧ f.size = -1 ∧ l ≤ u ∧ f.size = Number.wrap 64 (u - l + 1) ∧
    st'.tree.SortsBy (some 10) (.exact (.ofInt 18446744073709551617)) ∧
    (Decimal.ofInt 18446744073709551617).value = z ∧ Number.wrap 64 z = 1 := by
  have hrun : acceptsBlock noTables
      "(SELECT :list [(OVER (SUM 1) (WINDOW :rows true :lower (PRECEDING 9223372036854775807)
      :upper (FOLLOWING 9223372036854775807)))] :order [18446744073709551617])"
      fun st' r n => (r.analysis.frames.get? 8).any
        (fun f => f.rows && f.bounded && f.size == -1) &&
        st'.tree.form? (some 10) == some (.literal (.exact (.ofInt 18446744073709551617))) &&
        (st'.tree.elements (st'.tree.select n.node).order).contains (some 10) &&
        n.row.fields.length == 1 := by
    decide +kernel
  obtain ⟨st, st', r, n, row, hst, hst', hr, hn, hkind, hrow, hrun⟩ := exists_of_acceptsBlock hrun
  simp only [Bool.and_eq_true, beq_iff_eq, List.contains_iff_mem] at hrun
  obtain ⟨⟨⟨hframe, hform⟩, hmem⟩, hlength⟩ := hrun
  obtain ⟨f, hf, hframe⟩ := Option.any_eq_true _ _ |>.mp hframe
  simp only [Bool.and_eq_true, beq_iff_eq] at hframe
  obtain ⟨⟨hrows, hbounded⟩, hsize⟩ := hframe
  rw [Namespace.row, Namespace.row?, hrow, Status.row?, Option.getD_some] at hlength
  obtain ⟨hframes, hplaces⟩ := (integers_wrap noTables).1 st st' r hst' hr
  obtain ⟨w, _, hwrows, hframed, hends⟩ := hframes 8 f hf
  obtain ⟨lo, hi, _, _, hmeasures⟩ := hends (hwrows ▸ hrows) (hframed hbounded)
  obtain ⟨hlb, hhb⟩ := hmeasures.bounded.mp hbounded
  obtain ⟨l, u, _, _, hle, heq, _⟩ := hmeasures.wraps hlb hhb
  obtain ⟨z, hz, hplace, _⟩ := hplaces 0 n row hn hkind hrow _ hmem _ (.ascending hform)
  rw [hlength] at hplace
  exact ⟨st, st', r, f, l, u, z, hst, hst', hr, hf, hsize, hle, by rw [heq], .ascending hform, hz,
    le_antisymm hplace.2 hplace.1⟩

end Validator

end SqlAnalysis

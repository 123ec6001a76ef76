import Mathlib.Data.Prod.Lex
import Mathlib.Order.WithBot
import SqlAnalysis.Proofs.Analysis.Validation
import SqlAnalysis.Proofs.Number.Value

/-!
Frames of windows. An end of a frame lies at a distance from the current row, and of two ends at one
distance the one that is counted backward comes first. A frame in rows is accepted exactly if its
ends are whole numbers of rows away and in that order; of a range only distances that are numbers
are compared.
-/

namespace SqlAnalysis

/-- The number that a constant stands for, an interval of one unit standing for the number of its
units. -/
def Literal.amount : Literal → ℚ
  | .exact d | .approximate d => d.value
  | .interval v => v.sign * v.fields.sum
  | _ => 0

/-- A number of rows: exact, whole and not negative. -/
def Literal.IsCount (l : Literal) : Prop := ∃ d, l = .exact d ∧ ∃ n : ℕ, d.value = n

theorem Literal.IsCount.amount_nonneg (l : Literal) (h : l.IsCount) : 0 ≤ l.amount := by
  obtain ⟨d, rfl, n, hn⟩ := h
  exact n.cast_nonneg.trans_eq hn.symm

theorem Literal.IsCount.isSome_decimal? (l : Literal) (h : l.IsCount) : l.decimal?.isSome := by
  obtain ⟨d, rfl, _⟩ := h
  rfl

/-- An end of a frame as a statement describes it. -/
inductive FrameEnd where
  | currentRow
  | preceding (l : Literal)
  | following (l : Literal)
  | unboundedPreceding
  | unboundedFollowing

/-- The end that is described at a node; without a node it is the current row. -/
inductive Tree.Describes (t : Tree) : Link → FrameEnd → Prop
  | absent : t.Describes none .currentRow
  | currentRow {x : Link} (h : t.form? x = some (.literal (.symbol "CURRENT_ROW"))) : t.Describes
    x .currentRow
  | unboundedPreceding {x : Link}
    (h : t.form? x = some (.literal (.symbol "UNBOUNDED_PRECEDING"))) :
      t.Describes x .unboundedPreceding
  | unboundedFollowing {x : Link}
    (h : t.form? x = some (.literal (.symbol "UNBOUNDED_FOLLOWING"))) :
      t.Describes x .unboundedFollowing
  | preceding {x : Link} {c : Call} {l : Literal} (hc : t.form? x = some (.call c))
    (hk : c.kind = .preceding)
      (hl : t.form? (c.operand 0) = some (.literal l)) : t.Describes x (.preceding l)
  | following {x : Link} {c : Call} {l : Literal} (hc : t.form? x = some (.call c))
    (hk : c.kind = .following)
      (hl : t.form? (c.operand 0) = some (.literal l)) : t.Describes x (.following l)

theorem Tree.Describes.extends {t u : Tree} (h : t.Describes x e) (hu : t.Extends u) :
    u.Describes x e := by
  cases h with
  | absent => exact .absent
  | currentRow h => exact .currentRow (hu.form? h)
  | unboundedPreceding h => exact .unboundedPreceding (hu.form? h)
  | unboundedFollowing h => exact .unboundedFollowing (hu.form? h)
  | preceding hc hk hl => exact .preceding (hu.form? hc) hk (hu.form? hl)
  | following hc hk hl => exact .following (hu.form? hc) hk (hu.form? hl)

namespace FrameEnd

def distance : FrameEnd → WithBot (WithTop ℚ)
  | .currentRow => ((0 : ℚ) : WithTop ℚ)
  | .preceding l => ((-l.amount : ℚ) : WithTop ℚ)
  | .following l => ((l.amount : ℚ) : WithTop ℚ)
  | .unboundedPreceding => ⊥
  | .unboundedFollowing => (⊤ : WithTop ℚ)

/-- Before the current row, the current row and after it. -/
def side : FrameEnd → ℕ
  | .preceding _ | .unboundedPreceding => 0
  | .currentRow => 1
  | .following _ | .unboundedFollowing => 2

/-- Ends are ordered by their distances, at one distance by their sides. -/
def place (e : FrameEnd) : WithBot (WithTop ℚ) ×ₗ ℕ := toLex (e.distance, e.side)

/-- An offset, if there is one, is given by a constant with the property. -/
def Offset (p : Literal → Prop) : FrameEnd → Prop
  | .preceding l | .following l => p l
  | _ => True

def IsBounded (e : FrameEnd) : Prop := e ≠ .unboundedPreceding ∧ e ≠ .unboundedFollowing

/-- What the analysis takes the end for. -/
def bound : FrameEnd → Analysis.Bound
  | .currentRow => .currentRow
  | .preceding l => .preceding l.decimal?
  | .following l => .following l.decimal?
  | .unboundedPreceding => .unboundedPreceding
  | .unboundedFollowing => .unboundedFollowing

variable {lo hi : FrameEnd}

theorem Offset.imp {e : FrameEnd} (h : e.Offset p) (hpq : ∀ l, p l → q l) : e.Offset q := by
  cases e with
  | preceding l | following l => exact hpq l h
  | _ => trivial

theorem offset?_bound {e : FrameEnd} (h : e.Offset fun l => l.decimal?.isSome) (hb : e.IsBounded) :
    ∃ d, e.bound.offset? = some d ∧ e.distance = ((d.value : ℚ) : WithTop ℚ) := by
  cases e with
  | currentRow => exact ⟨_, rfl, by rw [Decimal.value_ofInt, Int.cast_zero]; rfl⟩
  | preceding l =>
    cases l with
    | exact d | approximate d => exact ⟨_, rfl, by rw [Decimal.value_neg]; rfl⟩
    | _ => cases h
  | following l =>
    cases l with
    | exact d | approximate d => exact ⟨_, rfl, rfl⟩
    | _ => cases h
  | unboundedPreceding => exact absurd rfl hb.1
  | unboundedFollowing => exact absurd rfl hb.2

theorem distance_of_side {e : FrameEnd} (h : e.Offset fun l => 0 ≤ l.amount) :
    (e.side ≤ 1 → e.distance ≤ currentRow.distance) ∧
    (1 ≤ e.side → currentRow.distance ≤ e.distance) := by
  cases e with
  | currentRow => exact ⟨fun _ => le_rfl, fun _ => le_rfl⟩
  | preceding l =>
    exact ⟨fun _ => WithBot.coe_le_coe.mpr (WithTop.coe_le_coe.mpr (neg_nonpos.mpr h)),
      fun h => absurd h (by decide : ¬ 1 ≤ 0)⟩
  | following l =>
    exact ⟨fun h => absurd h (by decide : ¬ 2 ≤ 1),
      fun _ => WithBot.coe_le_coe.mpr (WithTop.coe_le_coe.mpr h)⟩
  | unboundedPreceding => exact ⟨fun _ => bot_le, fun h => absurd h (by decide : ¬ 1 ≤ 0)⟩
  | unboundedFollowing => exact ⟨fun h => absurd h (by decide : ¬ 2 ≤ 1), fun _ => le_top⟩

theorem side_le (e : FrameEnd) : e.side ≤ 2 := by
  unfold side
  split <;> decide

theorem place_le_iff (hlo : lo.Offset fun l => 0 ≤ l.amount)
    (hhi : hi.Offset fun l => 0 ≤ l.amount) :
    lo.place ≤ hi.place ↔ lo.side ≤ hi.side ∧ lo.distance ≤ hi.distance := by
  have hback (h : hi.side < lo.side) : hi.distance ≤ lo.distance := by
    have hle := lo.side_le
    exact ((distance_of_side hhi).1 (by omega)).trans ((distance_of_side hlo).2 (by omega))
  rw [place, place, Prod.Lex.toLex_le_toLex]
  constructor
  · rintro (h | ⟨h, hside⟩)
    · exact ⟨not_lt.mp fun hside => absurd (hback hside) (not_le.mpr h), h.le⟩
    · exact ⟨hside, h.le⟩
  · rintro ⟨hside, h⟩
    exact h.lt_or_eq.imp_right fun h => ⟨h, hside⟩

end FrameEnd

namespace Analysis

variable {s : Setting} {a b : Analysis} {scope : ScopeId} {w : Window} {lo hi : FrameEnd}
  {f : Frame} {rows : Bool}

theorem checkBounds_ok_iff : checkBounds w lo.bound hi.bound s a = (.ok (), b) ↔
    b = a ∧ lo ≠ .unboundedFollowing ∧ hi ≠ .unboundedPreceding ∧ lo.side ≤ hi.side := by
  have hrefuse (id : Link) (c : Cause) : ¬ (refuse id c : AnalysisM Unit) s a = (.ok (), b) :=
    refuse_ne_ok b
  have hpure : (pure () : AnalysisM Unit) s a = (.ok (), b) ↔ b = a := by
    constructor
    · rintro ⟨⟩
      rfl
    · rintro rfl
      rfl
  cases lo <;> cases hi <;> simp [checkBounds, FrameEnd.bound, FrameEnd.side, hrefuse, hpure]

theorem frameBetween_ok_iff {lower upper : Bound} (hl : lower.offset? = some l)
    (hu : upper.offset? = some u) :
    frameBetween w lower upper s a = (.ok f, b) ↔ b = a ∧ l.value ≤ u.value ∧
      f = { rows := w.rows, bounded := true
            lower := Number.wrap 64 l.truncate, upper := Number.wrap 64 u.truncate
            size := if w.rows then Number.wrap 64
              (Number.wrap 64 u.truncate - Number.wrap 64 l.truncate + 1) else 0 } := by
  simp only [frameBetween, hl, hu]
  split
  · rename_i hlt
    have hnot : ¬ l.value ≤ u.value := not_le.mpr (Decimal.lt_iff.mp hlt)
    exact ⟨fun h => (nomatch h), fun h => absurd h.2.1 hnot⟩
  · rename_i hlt
    have hle : l.value ≤ u.value := not_lt.mp fun h => hlt (Decimal.lt_iff.mpr h)
    constructor
    · rintro ⟨⟩
      exact ⟨rfl, hle, rfl⟩
    · rintro ⟨rfl, _, rfl⟩
      rfl

theorem frameBetween_unbounded {lower upper : Bound}
    (h : lower.offset? = none ∨ upper.offset? = none) :
    frameBetween w lower upper s a = (.ok { rows := w.rows }, a) := by
  unfold frameBetween
  rcases h with h | h
  · rw [h]
    rfl
  · rw [h]
    cases lower.offset? <;> rfl

theorem frameBetween_ok {lower upper : Bound} (h : frameBetween w lower upper s a = (.ok f, b)) :
    b = a ∧ f.rows = w.rows := by
  cases hl : lower.offset? with
  | none => rw [frameBetween_unbounded (.inl hl)] at h; cases h; exact ⟨rfl, rfl⟩
  | some l =>
    cases hu : upper.offset? with
    | none => rw [frameBetween_unbounded (.inr hu)] at h; cases h; exact ⟨rfl, rfl⟩
    | some u =>
      obtain ⟨rfl, _, rfl⟩ := (frameBetween_ok_iff hl hu).mp h
      exact ⟨rfl, rfl⟩

theorem frameBetween_numbers (hlo : lo.Offset fun l => l.decimal?.isSome)
    (hhi : hi.Offset fun l => l.decimal?.isSome) (hl : lo ≠ .unboundedFollowing)
    (hu : hi ≠ .unboundedPreceding) :
    ((∃ f b, frameBetween w lo.bound hi.bound s a = (.ok f, b)) ↔ lo.distance ≤ hi.distance) ∧
    ∀ f b, frameBetween w lo.bound hi.bound s a = (.ok f, b) →
      (f.bounded ↔ lo.IsBounded ∧ hi.IsBounded) := by
  by_cases hb : lo.IsBounded ∧ hi.IsBounded
  · obtain ⟨l, hl, hldist⟩ := FrameEnd.offset?_bound hlo hb.1
    obtain ⟨u, hu, hudist⟩ := FrameEnd.offset?_bound hhi hb.2
    simp only [frameBetween_ok_iff hl hu, hldist, hudist, WithBot.coe_le_coe, WithTop.coe_le_coe]
    exact ⟨⟨fun ⟨_, _, h⟩ => h.2.1, fun h => ⟨_, _, rfl, h, rfl⟩⟩,
      fun f b h => ⟨fun _ => hb, fun _ => by rw [h.2.2]⟩⟩
  · have hopen : lo = .unboundedPreceding ∨ hi = .unboundedFollowing := by
      by_contra h
      rw [not_or] at h
      exact hb ⟨⟨h.1, hl⟩, hu, h.2⟩
    have hnone : lo.bound.offset? = none ∨ hi.bound.offset? = none :=
      hopen.imp (fun h => by rw [h]; rfl) fun h => by rw [h]; rfl
    rw [frameBetween_unbounded hnone]
    refine ⟨⟨fun _ => ?_, fun _ => ⟨_, _, rfl⟩⟩, fun f b h => ?_⟩
    · rcases hopen with rfl | rfl
      · exact bot_le
      · exact le_top
    · cases h
      exact ⟨fun h => (nomatch h), fun h => absurd h hb⟩

theorem isRowOffset_iff : isRowOffset l ↔ l.IsCount := by
  cases l with
  | exact d =>
    rw [isRowOffset, Bool.and_eq_true, Bool.not_eq_true', ← Bool.not_eq_true,
      Decimal.isInteger_iff, Decimal.isNegative_iff, not_lt]
    constructor
    · rintro ⟨⟨n, hn⟩, hneg⟩
      rw [hn, Int.cast_nonneg_iff] at hneg
      exact ⟨d, rfl, n.toNat, by rw [hn, ← Int.cast_natCast, Int.toNat_of_nonneg hneg]⟩
    · rintro ⟨_, ⟨⟩, n, hn⟩
      exact ⟨⟨n, by rw [hn, Int.cast_natCast]⟩, by rw [hn]; exact Nat.cast_nonneg n⟩
  | _ => exact ⟨fun h => (nomatch h), fun ⟨_, h, _⟩ => (nomatch h)⟩

/-- Which offset is found does not depend on the engine. In rows it is a count. -/
theorem boundOffset_ok (hc : a.tree.form? x = some (.call c))
    (hl : a.tree.form? (c.operand 0) = some (.literal l))
    (h : boundOffset e scope x rows key s a = (.ok v, b)) :
    v = l.decimal? ∧ (rows → l.IsCount) := by
  have hlit : a.tree.literal? (a.tree.operand x 0) = some l := by
    rw [Tree.literal?, Tree.operand, Tree.call?_of_form? hc, Option.bind_some, hl]
  rw [boundOffset, run_bind_get] at h
  rw [hlit] at h
  cases l with
  | null => exact absurd h (refuse_ne_ok _)
  | _ =>
    obtain ⟨t, c, _, h⟩ := run_bind_ok h
    split at h
    · split at h
      · cases h
      · rename_i hcount
        cases h
        exact ⟨rfl, fun _ => isRowOffset_iff.mp (by simpa using hcount)⟩
    · rename_i hrows
      obtain ⟨_, _, _, h⟩ := run_bind_ok h
      cases h
      exact ⟨rfl, fun h => absurd h hrows⟩

def boundAt (offset : AnalysisM (Option Decimal)) : FrameEnd → AnalysisM Bound
  | .preceding _ => return .preceding (← offset)
  | .following _ => return .following (← offset)
  | lo => return lo.bound

theorem frameBound_eq (hd : a.tree.Describes x lo) :
    frameBound e scope x rows key s a = boundAt (boundOffset e scope x rows key) lo s a := by
  rw [frameBound, run_bind_get]
  cases hd with
  | absent => rfl
  | currentRow hx | unboundedPreceding hx | unboundedFollowing hx =>
    cases x with
    | none => cases hx
    | some i =>
      simp only [Tree.symbol, Tree.literal?, hx]
      rfl
  | preceding hc hk hl | following hc hk hl =>
    cases x with
    | none => cases hc
    | some i =>
      simp only [Tree.symbol, Tree.literal?, Tree.kind, Tree.call?, hc, hk]
      rfl

theorem frameBound_ok (hd : a.tree.Describes x lo)
    (h : frameBound e scope x rows key s a = (.ok v, b)) :
    v = lo.bound ∧ (rows → lo.Offset Literal.IsCount) := by
  rw [frameBound_eq hd] at h
  cases hd with
  | absent | currentRow _ | unboundedPreceding _ | unboundedFollowing _ =>
    cases h
    exact ⟨rfl, fun _ => trivial⟩
  | preceding hc _ hl | following hc _ hl =>
    obtain ⟨d, c, hd, h⟩ := run_bind_ok h
    obtain ⟨rfl, hcount⟩ := boundOffset_ok hc hl hd
    cases h
    exact ⟨rfl, hcount⟩

theorem exists_literal_of_boundOffset (hk : a.tree.kind x ≠ .other)
    (h : boundOffset e scope x rows key s a = (.ok v, b)) : ∃ c l, a.tree.form? x = some (.call c) ∧
      c.kind = a.tree.kind x ∧ a.tree.form? (c.operand 0) = some (.literal l) := by
  cases hc : a.tree.call? x with
  | none => exact absurd (by rw [Tree.kind, hc]) hk
  | some c =>
    rw [boundOffset, run_bind_get, Tree.operand, hc, Option.bind_some] at h
    cases hl : a.tree.literal? (c.operand 0) with
    | none => rw [hl] at h; exact absurd h (refuse_ne_ok _)
    | some l =>
      exact ⟨c, l, Tree.form?_of_call? hc, (Tree.kind_of_call? hc).symm, Tree.form?_of_literal? hl⟩

theorem exists_describes (h : frameBound e scope x rows key s a = (.ok v, b)) :
    ∃ lo, a.tree.Describes x lo := by
  cases x with
  | none => exact ⟨_, .absent⟩
  | some i =>
    rw [frameBound, run_bind_get, if_neg (by nofun)] at h
    generalize hsymbol : a.tree.symbol (some i) = name at h
    generalize hk : a.tree.kind (some i) = k at h
    split at h
    · exact ⟨_, .currentRow (Tree.form?_of_symbol hsymbol (by decide))⟩
    · exact ⟨_, .unboundedPreceding (Tree.form?_of_symbol hsymbol (by decide))⟩
    · exact ⟨_, .unboundedFollowing (Tree.form?_of_symbol hsymbol (by decide))⟩
    · split at h
      · obtain ⟨_, _, hoffset, _⟩ := run_bind_ok h
        obtain ⟨c, l, hc, hkind, hl⟩ := exists_literal_of_boundOffset (by rw [hk]; nofun) hoffset
        exact ⟨_, .preceding hc (hkind.trans hk) hl⟩
      · obtain ⟨_, _, hoffset, _⟩ := run_bind_ok h
        obtain ⟨c, l, hc, hkind, hl⟩ := exists_literal_of_boundOffset (by rw [hk]; nofun) hoffset
        exact ⟨_, .following hc (hkind.trans hk) hl⟩
      · exact absurd h (refuse_ne_ok _)

theorem derive_offset (hc : a.tree.form? x = some (.call c)) (hk : c.kind = .preceding ∨
    c.kind = .following) (hl : a.tree.form? (c.operand 0) = some (.literal l)) :
    ∃ t b, (engine (steps + 2)).derive scope x s a = (.ok t, b) := by
  have hderive (e : Engine) {x : Link} {f : Form} (hx : a.tree.form? x = some f)
    (hq : (a.tree.kind x).isQuery = false)
      (h : ∀ i, ∃ t b, deriveForm e scope i f s a = (.ok t, b)) : ∃ t b,
      derive e scope x s a = (.ok t, b) := by
    cases x with
    | none => cases hx
    | some i =>
      rw [derive, run_bind_get]
      simp only [hq, hx, Bool.false_eq_true, if_false]
      cases a.typeOf.get? i with
      | some t => exact ⟨t, a, rfl⟩
      | none =>
        obtain ⟨t, b, h⟩ := h i
        simp only [run_bind, h, run_setType]
        exact ⟨_, _, rfl⟩
  have hkind : a.tree.kind x = c.kind := by rw [Tree.kind, Tree.call?_of_form? hc]
  have hleaf : a.tree.kind (c.operand 0) = .other := by rw [Tree.kind, Tree.call?, hl]
  have hoperand := hderive (engine steps) hl (by rw [hleaf]; rfl) fun i => ⟨_, _, rfl⟩
  refine hderive (engine (steps + 1)) hc ?_ fun i => ?_
  · rcases hk with hk | hk <;> rw [hkind, hk] <;> rfl
  · rcases hk with hk | hk <;> simp only [deriveForm, deriveCall, hk] <;> exact hoperand

theorem frameBound_rows (hd : a.tree.Describes x lo) (h : lo.Offset Literal.IsCount) :
    ∃ b, frameBound (engine (steps + 2)) scope x true key s a = (.ok lo.bound, b) := by
  rw [frameBound_eq hd]
  have hoffset {c : Call} (hc : a.tree.form? x = some (.call c)) (hk : c.kind = .preceding ∨
    c.kind = .following) {l : Literal}
      (hl : a.tree.form? (c.operand 0) = some (.literal l)) (h : l.IsCount) :
      ∃ b, boundOffset (engine (steps + 2)) scope x true key s a = (.ok l.decimal?, b) := by
    obtain ⟨t, b, ht⟩ : ∃ t b, (engine (steps + 2)).derive scope x s a = (.ok t, b) :=
      derive_offset hc hk hl
    have hlit : a.tree.literal? (a.tree.operand x 0) = some l := by
      rw [Tree.literal?, Tree.operand, Tree.call?_of_form? hc, Option.bind_some, hl]
    refine ⟨b, ?_⟩
    rw [boundOffset, run_bind_get]
    rw [hlit]
    cases l with
    | exact d =>
      dsimp only
      rw [run_bind, ht]
      simp only [isRowOffset_iff.mpr h]
      rfl
    | _ =>
      obtain ⟨_, h, _⟩ := h
      cases h
  cases hd with
  | absent | currentRow _ | unboundedPreceding _ | unboundedFollowing _ => exact ⟨_, rfl⟩
  | preceding hc hk hl =>
    obtain ⟨b, hb⟩ := hoffset hc (.inl hk) hl h
    exact ⟨b, by rw [boundAt, run_bind, hb]; rfl⟩
  | following hc hk hl =>
    obtain ⟨b, hb⟩ := hoffset hc (.inr hk) hl h
    exact ⟨b, by rw [boundAt, run_bind, hb]; rfl⟩

/-- Validates the keys of a window with a frame and gives the key that the frame is measured in. -/
def frameKey (e : Engine) (scope : ScopeId) (w : Window) (op : Option Operator) :
    AnalysisM (Option SqlType) := do
  validateKeys e scope w.partition
  validateKeys e scope w.order
  let monotonic ← containsMonotonic scope
  (op.filter fun o => o.kind.isRanking).forM fun o => refuse w.node (.rankFramed o.name)
  orderKey w monotonic

theorem validateWindow_framed (hframed : w.framed) (op : Option Operator) :
    validateWindow e scope w op = (do
    let key ← frameKey e scope w op
    let lower ← frameBound e scope w.lower w.rows key
    let upper ← frameBound e scope w.upper w.rows key
    checkBounds w lower upper
    frameBetween w lower upper) := by
  unfold validateWindow frameKey
  cases op.filter fun o => o.kind.isRanking <;> simp [hframed]

theorem frameKey_rows (hrows : w.rows) (ho : o.kind.isRanking = false)
    (hpartition : validateKeys e scope w.partition s a = (.ok (), a₁))
    (horder : validateKeys e scope w.order s a₁ = (.ok (), a₂)) :
    ∃ key, frameKey e scope w (some o) s a = (.ok key, a₂) := by
  have hkey (monotonic : Bool) : ∃ key, orderKey w monotonic s a₂ = (.ok key, a₂) := by
    unfold orderKey
    cases w.order <;> simp only [hrows, Bool.not_true, Bool.and_false] <;> exact ⟨_, rfl⟩
  rw [frameKey, run_bind, hpartition]
  dsimp only
  rw [run_bind, horder]
  simp only [Option.filter_some, ho]
  exact hkey _

theorem Keeps.tree_extends {x : AnalysisM α} (hx : Keeps s (fun _ => True) (fun _ => True) x)
    (h : x s a = (.ok v, b)) : a.tree.Extends b.tree := by
  have hadv := (hx a trivial).1.2.tree
  rwa [h] at hadv

theorem frameKey_extends {steps : ℕ} {op : Option Operator}
    (h : frameKey (engine steps) scope w op s a = (.ok key, b)) : a.tree.Extends b.tree := by
  have he : (engine steps).Serves s (fun _ => True) (fun _ => True) .any :=
    (engine_settles s steps).toServes
  have hkeys (keys : List Link) : Keeps s (fun _ => True) (fun _ => True)
      (validateKeys (engine steps) scope keys) :=
    validateKeys_keeps he trivial fun _ _ => trivial
  refine Keeps.tree_extends ?_ h
  refine .seq (hkeys _) fun _ => .seq (hkeys _) fun _ => .seq containsMonotonic_keeps fun _ =>
    .seq ?_ fun _ => orderKey_keeps
  cases op.filter fun o => o.kind.isRanking with
  | none => exact Keeps.pure _
  | some o => exact .refuse

theorem frameBound_extends {steps : ℕ} {v : Bound}
    (h : frameBound (engine steps) scope x rows key s a = (.ok v, b)) : a.tree.Extends b.tree :=
  (frameBound_keeps (engine_settles s steps).toServes trivial trivial rows key).tree_extends h

theorem exists_bounds_of_validateWindow (hframed : w.framed)
    (h : validateWindow (engine steps) scope w op s a = (.ok f, b)) : ∃ key c d lower upper,
      a.tree.Extends c.tree ∧ frameBound (engine steps) scope w.lower w.rows key s c = (.ok lower,
      d) ∧ frameBound (engine steps) scope w.upper w.rows key s d = (.ok upper, b) ∧ checkBounds
      w lower upper s b = (.ok (), b) ∧ frameBetween w lower upper s b = (.ok f, b) := by
  rw [validateWindow_framed hframed] at h
  obtain ⟨key, c, hkey, h⟩ := run_bind_ok h
  obtain ⟨lower, d, hlower, h⟩ := run_bind_ok h
  obtain ⟨upper, _, hupper, h⟩ := run_bind_ok h
  obtain ⟨_, _, hbounds, hframe⟩ := run_bind_ok h
  obtain ⟨lo, hlo⟩ := exists_describes hlower
  obtain ⟨hi, hhi⟩ := exists_describes hupper
  obtain ⟨rfl, _⟩ := frameBound_ok hlo hlower
  obtain ⟨rfl, _⟩ := frameBound_ok hhi hupper
  obtain ⟨rfl, _⟩ := checkBounds_ok_iff.mp hbounds
  obtain ⟨rfl, _⟩ := frameBetween_ok hframe
  exact ⟨key, c, d, _, _, frameKey_extends hkey, hlower, hupper, hbounds, hframe⟩

theorem validateWindow_ok (hlo : a.tree.Describes w.lower lo) (hhi : a.tree.Describes w.upper hi)
    (hframed : w.framed) (h : validateWindow (engine steps) scope w op s a = (.ok f, b)) :
    (w.rows → lo.Offset (Literal.IsCount) ∧ hi.Offset Literal.IsCount) ∧
      (lo ≠ .unboundedFollowing ∧ hi ≠ .unboundedPreceding ∧ lo.side ≤ hi.side) ∧
      ∃ c, frameBetween w lo.bound hi.bound s c = (.ok f, b) := by
  obtain ⟨key, c, d, lower, upper, hext, hlower, hupper, hbounds, hframe⟩ :=
    exists_bounds_of_validateWindow hframed h
  obtain ⟨rfl, hlrows⟩ := frameBound_ok (hlo.extends hext) hlower
  obtain ⟨rfl, hurows⟩ :=
    frameBound_ok (hhi.extends (hext.trans (frameBound_extends hlower))) hupper
  exact ⟨fun hrows => ⟨hlrows hrows, hurows hrows⟩, (checkBounds_ok_iff.mp hbounds).2, _, hframe⟩

theorem exists_describes_of_validateWindow (hframed : w.framed)
    (h : validateWindow (engine steps) scope w op s a = (.ok f, b)) :
    ∃ lo hi, b.tree.Describes w.lower lo ∧ b.tree.Describes w.upper hi ∧
      (w.rows → lo.Offset Literal.IsCount ∧ hi.Offset Literal.IsCount) ∧
      (lo ≠ .unboundedFollowing ∧ hi ≠ .unboundedPreceding ∧ lo.side ≤ hi.side) ∧
      frameBetween w lo.bound hi.bound s b = (.ok f, b) := by
  obtain ⟨key, c, d, lower, upper, _, hlower, hupper, hbounds, hframe⟩ :=
    exists_bounds_of_validateWindow hframed h
  obtain ⟨lo, hlo⟩ := exists_describes hlower
  obtain ⟨hi, hhi⟩ := exists_describes hupper
  obtain ⟨rfl, hlrows⟩ := frameBound_ok hlo hlower
  obtain ⟨rfl, hurows⟩ := frameBound_ok hhi hupper
  have hext := frameBound_extends hupper
  exact ⟨lo, hi, hlo.extends ((frameBound_extends hlower).trans hext), hhi.extends hext,
    fun hrows => ⟨hlrows hrows, hurows hrows⟩, (checkBounds_ok_iff.mp hbounds).2, hframe⟩

theorem validateWindow_unframed (hframed : w.framed = false)
    (h : validateWindow e scope w op s a = (.ok f, b)) : f = { rows := w.rows } := by
  unfold validateWindow at h
  obtain ⟨_, _, _, h⟩ := run_bind_ok h
  obtain ⟨_, _, _, h⟩ := run_bind_ok h
  obtain ⟨monotonic, _, _, h⟩ := run_bind_ok h
  generalize (op.filter fun o => o.kind.isRanking) = ranking at h
  rw [hframed, Bool.not_false, if_pos rfl] at h
  cases ranking with
  | none => cases h; rfl
  | some o =>
    by_cases hunordered : (w.order.isEmpty && !monotonic) = true
    · simp only [hunordered] at h
      cases h
    · simp only [hunordered] at h
      cases h
      rfl

/-- A frame in rows is accepted exactly if its offsets are counts and its ends are in order. -/
theorem validateWindow_rows_iff {steps : ℕ} {o : Operator} {b c : Analysis}
    (hrows : w.rows = true) (hframed : w.framed = true) (ho : o.kind.isRanking = false)
    (hpartition : validateKeys (engine (steps + 2)) scope w.partition s a = (.ok (), b))
    (horder : validateKeys (engine (steps + 2)) scope w.order s b = (.ok (), c))
    (hlo : a.tree.Describes w.lower lo) (hhi : a.tree.Describes w.upper hi) :
    ((∃ f d, validateWindow (engine (steps + 2)) scope w (some o) s a = (.ok f, d)) ↔
      (lo.Offset Literal.IsCount ∧ hi.Offset Literal.IsCount) ∧ lo ≠ .unboundedFollowing ∧
      hi ≠ .unboundedPreceding ∧ lo.place ≤ hi.place) ∧
    ∀ f d, validateWindow (engine (steps + 2)) scope w (some o) s a = (.ok f, d) →
      (f.bounded = true ↔ lo.IsBounded ∧ hi.IsBounded) := by
  refine ⟨⟨?_, ?_⟩, ?_⟩
  · rintro ⟨f, d, h⟩
    obtain ⟨hcounts, ⟨hl, hu, hside⟩, c, h⟩ := validateWindow_ok hlo hhi hframed h
    obtain ⟨hlc, huc⟩ := hcounts hrows
    have hdist := (frameBetween_numbers (hlc.imp Literal.IsCount.isSome_decimal?)
      (huc.imp Literal.IsCount.isSome_decimal?) hl hu).1.mp ⟨f, _, h⟩
    exact ⟨⟨hlc, huc⟩, hl, hu, (FrameEnd.place_le_iff (hlc.imp Literal.IsCount.amount_nonneg)
      (huc.imp Literal.IsCount.amount_nonneg)).mpr ⟨hside, hdist⟩⟩
  · rintro ⟨⟨hlc, huc⟩, hl, hu, hplace⟩
    obtain ⟨hside, hdist⟩ := (FrameEnd.place_le_iff (hlc.imp Literal.IsCount.amount_nonneg)
      (huc.imp Literal.IsCount.amount_nonneg)).mp hplace
    obtain ⟨key, hkey⟩ := frameKey_rows hrows ho hpartition horder
    have hext := frameKey_extends hkey
    obtain ⟨d₁, hlower⟩ : ∃ d, frameBound (engine (steps + 2)) scope w.lower true key s c =
      (.ok lo.bound, d) :=
      frameBound_rows (hlo.extends hext) hlc
    obtain ⟨d₂, hupper⟩ : ∃ d, frameBound (engine (steps + 2)) scope w.upper true key s d₁ =
      (.ok hi.bound, d) :=
      frameBound_rows (hhi.extends (hext.trans (frameBound_extends hlower))) huc
    have hbounds : checkBounds w lo.bound hi.bound s d₂ = (.ok (), d₂) :=
      checkBounds_ok_iff.mpr ⟨rfl, hl, hu, hside⟩
    obtain ⟨f, d, hframe⟩ := (frameBetween_numbers (hlc.imp Literal.IsCount.isSome_decimal?)
      (huc.imp Literal.IsCount.isSome_decimal?) hl hu).1.mpr hdist
    refine ⟨f, d, ?_⟩
    rw [validateWindow_framed hframed, hrows]
    simp only [run_bind, hkey, hlower, hupper, hbounds]
    exact hframe
  · intro f d h
    obtain ⟨hcounts, ⟨hl, hu, _⟩, c, h⟩ := validateWindow_ok hlo hhi hframed h
    obtain ⟨hlc, huc⟩ := hcounts hrows
    exact (frameBetween_numbers (hlc.imp Literal.IsCount.isSome_decimal?)
      (huc.imp Literal.IsCount.isSome_decimal?) hl hu).2 f d h

/-- From three rows before the current row to the current row. -/
theorem validateWindow_rows_iff_preceding :
    let s : Setting := { operators := {}, catalog := .empty, config := {} }
    let a : Analysis := { tree.nodes := #[⟨.literal (.exact (.ofInt 3)), none⟩,
      ⟨.call ⟨{ name := "PRECEDING", kind := .preceding }, [some 0]⟩, none⟩] }
    let w : Window :=
      { node := 2, partition := [], order := [], rows := true, lower := some 1, upper := none }
    ∃ f b, validateWindow (engine 2) 0 w (some { name := "SUM", kind := .sum }) s a =
      (.ok f, b) := by
  intro s a w
  have hcount : (FrameEnd.preceding (.exact (.ofInt 3))).Offset Literal.IsCount :=
    ⟨_, rfl, 3, Decimal.value_ofInt⟩
  have hcurrent (p : Literal → Prop) : FrameEnd.currentRow.Offset p := trivial
  have hpos := hcount.imp Literal.IsCount.amount_nonneg
  have hplace := (FrameEnd.place_le_iff hpos (hcurrent _)).mpr
    ⟨by decide, (FrameEnd.distance_of_side hpos).1 (by decide)⟩
  exact (validateWindow_rows_iff rfl rfl rfl rfl rfl (.preceding rfl rfl rfl) .absent).1.mpr
    ⟨⟨hcount, hcurrent _⟩, nofun, nofun, hplace⟩

/-- No accepted frame between ends whose offsets are numbers is reversed, and none between ends on
different sides of the current row. Offsets on one side that are intervals are not compared. -/
theorem distance_le_of_validateWindow {steps : ℕ} {op : Option Operator}
    (hlo : a.tree.Describes w.lower lo) (hhi : a.tree.Describes w.upper hi)
    (hframed : w.framed = true) (h : validateWindow (engine steps) scope w op s a = (.ok f, b)) :
    (lo.Offset (fun l => l.decimal?.isSome = true) → hi.Offset (fun l => l.decimal?.isSome = true) →
      lo.distance ≤ hi.distance) ∧
    (lo.Offset (fun l => 0 ≤ l.amount) → hi.Offset (fun l => 0 ≤ l.amount) → lo.side ≠ hi.side →
      lo.distance ≤ hi.distance) := by
  obtain ⟨_, ⟨hl, hu, hside⟩, c, h⟩ := validateWindow_ok hlo hhi hframed h
  refine ⟨fun hlnum hunum => (frameBetween_numbers hlnum hunum hl hu).1.mp ⟨f, b, h⟩,
    fun hlpos hupos hne => ?_⟩
  have hle := hi.side_le
  exact ((FrameEnd.distance_of_side hlpos).1 (by omega)).trans
    ((FrameEnd.distance_of_side hupos).2 (by omega))

/-- From five before to two and a half after the value of the key. -/
theorem distance_le_of_validateWindow_numbers :
    let s : Setting := { operators := {}, catalog := .empty, config := {} }
    let a : Analysis := { tree.nodes := #[⟨.literal (.exact (.ofInt 5)), none⟩,
      ⟨.call ⟨{ name := "PRECEDING", kind := .preceding }, [some 0]⟩, none⟩,
      ⟨.literal (.exact ⟨25, -1⟩), none⟩,
      ⟨.call ⟨{ name := "FOLLOWING", kind := .following }, [some 2]⟩, none⟩] }
    let w : Window :=
      { node := 4, partition := [], order := [some 0], rows := false, lower := some 1
        upper := some 3 }
    (∃ f b, validateWindow (engine 3) 0 w none s a = (.ok f, b)) ∧
      (FrameEnd.preceding (.exact (.ofInt 5))).distance ≤
      (FrameEnd.following (.exact ⟨25, -1⟩)).distance := by
  refine (and_iff_left_of_imp ?_).mpr (exists_of_isOk (by decide +kernel))
  rintro ⟨f, b, h⟩
  exact (distance_le_of_validateWindow (.preceding rfl rfl rfl) (.following rfl rfl rfl) rfl h).1
    rfl rfl

end Analysis

end SqlAnalysis

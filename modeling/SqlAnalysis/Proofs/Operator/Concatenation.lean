import SqlAnalysis.Operator.Standard
import SqlAnalysis.Proofs.SqlType.CommonCollation

/-!
Types of concatenated strings. How strings of one character set are put together does not matter to
the type of the whole: either way it is a string of the lengths of all, with one collation, or two
of their collations are refused. Lengths are not negative here; a sum of lengths that is `-1` would
be taken for no length at all.
-/

namespace SqlAnalysis

namespace Collation

variable {set : String} {a b c : Collation}

/-- The collation of a concatenation: strings without a common one give a string without one. -/
def combine (set : String) (l r : Collation) : Except MergeError Collation :=
  match merge l r with
  | .error .noCommon => .ok { charset := set }
  | m => m

/-- Two collations that a statement names and that are not the same. -/
def Clash (l r : Collation) : Prop :=
  l.coercibility = .explicit ∧ r.coercibility = .explicit ∧ l.name ≠ r.name

instance (l r : Collation) : Decidable (l.Clash r) := inferInstanceAs (Decidable (_ ∧ _))

/-- What two collations that do not clash combine to: the first that the statement names, else the
firmer one, and none if there is none or if columns have different ones. -/
def joined (set : String) (l r : Collation) : Collation :=
  if l.coercibility = .explicit then l
  else if r.coercibility = .explicit then r
  else if l.coercibility = .none ∨ r.coercibility = .none then { charset := set }
  else if l.coercibility = .implicit ∧ r.coercibility = .implicit ∧ l.name ≠ r.name then
    { charset := set }
  else if l.coercibility = .implicit then l
  else if r.coercibility = .implicit then r
  else l

theorem combine_eq (ha : a.coercibility.isListed) (hb : b.coercibility.isListed) : combine set a b =
      if a.Clash b then .error (.incompatible a.name b.name) else .ok (joined set a b) := by
  unfold combine merge
  cases hx : a.coercibility with
  | unlisted => rw [hx] at ha; cases ha
  | _ =>
    cases hy : b.coercibility with
    | unlisted => rw [hy] at hb; cases hb
    | _ => grind [Clash, joined]

theorem isListed_joined (ha : a.coercibility.isListed) :
    (joined set a b).coercibility.isListed := by
  unfold joined
  grind [Coercibility.isListed]

theorem charset_joined (ha : a.charset = set) (hb : b.charset = set) :
    (joined set a b).charset = set := by
  unfold joined
  grind

theorem joined_assoc :
    joined set (joined set a b) c = joined set a (joined set b c) := by
  cases hx : a.coercibility <;> cases hy : b.coercibility <;>
    cases hz : c.coercibility <;> grind [joined]

theorem clash_assoc : a.Clash b ∨ (joined set a b).Clash c ↔ b.Clash c ∨
      a.Clash (joined set b c) := by
  cases hx : a.coercibility <;> cases hy : b.coercibility <;> cases hz : c.coercibility <;>
    grind [Clash, joined]

end Collation

/-- A string of a character set, with a length and a collation for the character set. -/
structure SqlType.IsText (set : String) (t : SqlType) : Prop where
  isChar : t.isChar = true
  charset : t.charset = set
  collation : t.collation.charset = set
  listed : t.collation.coercibility.isListed = true
  precision : 0 ≤ t.precision

/-- The step gives the value in every table whose types are told by their texts. -/
def TypeM.Yields {α : Type} (x : TypeM α) (v : α) : Prop :=
  ∀ T : TypeTable, T.Tells → (x T).1 = v ∧ (x T).2.Tells

namespace TypeM.Yields

variable {x : TypeM α}

theorem pure (v : α) : Yields (pure v) v := fun _ hT => ⟨rfl, hT⟩

theorem bind (hx : Yields x v) (hf : Yields (f v) w) : Yields (x >>= f) w := by
  intro T hT
  obtain ⟨rfl, hU⟩ := hx T hT
  exact hf _ hU

end TypeM.Yields

namespace ReturnRule

open SqlType TypeTable TypeM

variable {set op : String} {name : ScalarName} {p : Int} {m : Collation} {a b c : SqlType}

def string (name : ScalarName) (set : String) (precision : Int) (collation : Collation)
    (nullable : Bool) : SqlType :=
  .scalar { name, precision, charset := set, collation } nullable

theorem told_string (hname : name.isChar) (hm : m.charset = set) (n : Bool) :
    (string name set p m n).Told :=
  ⟨legible_of_isChar hname hm.symm, TypeRequest.formed_of_isChar hname _ _ _⟩

theorem char_yields (hset : set ≠ "") (hname : name.isChar) (hp : 0 ≤ p) (hm : m.charset = set) :
    Yields (char name p m) (string name set p m false) := by
  intro T hT
  have hnone : p ≠ ScalarName.noPrecision := by
    rintro rfl
    exact absurd hp (by decide)
  obtain ⟨heq, htells, _⟩ := intern_told hT (told_string (p := p) hname hm false)
  rw [char, if_neg hnone, hm, if_neg hset]
  exact ⟨heq, htells⟩

theorem withNullable_yields (hname : name.isChar) (hm : m.charset = set) (n k : Bool) :
    Yields (withNullable k (string name set p m n)) (string name set p m k) := by
  intro T hT
  obtain ⟨heq, htells, _⟩ :=
    withNullable_told (string name set p m n) hT (told_string (p := p) hname hm k)
  exact ⟨heq, htells⟩

theorem adjust_yields (hset : set ≠ "") (hname : name.isChar)
    (hp : 0 ≤ p) (hm : m.charset = set) (ts : List SqlType) :
    Yields (adjust ts nullableConcatenation.adjustments (string name set p m false))
      (string .varchar set p m (anyNullable ts)) := by
  refine .bind (withNullable_yields hname hm false _) (.bind ?_ (.pure _))
  cases name with
  | char => exact .bind (char_yields hset rfl hp hm) (withNullable_yields rfl hm false _)
  | varchar => exact .pure _
  | _ => cases hname

theorem concatenationOf_eq (hl : (SqlType.scalar s n).IsText set) (hr : r.IsText set)
    (hfits : s.precision + r.precision < 2 ^ 63) :
    ReturnBase.concatenationOf op (.scalar s n) r = (do
      match s.collation.combine set r.collation with
      | .ok m => return .ok (some (← char s.name (s.precision + r.precision) m))
      | .error e => return .error (.collations e)) := by
  have hsum : digitSum (SqlType.scalar s n).precision r.precision = s.precision + r.precision := by
    have hlp : 0 ≤ s.precision := hl.precision
    have hrp := hr.precision
    exact Number.Fits.wrap_eq ⟨by change (_ : Int) ≤ s.precision + _; omega, hfits⟩
  have hcharset : sameCharset (.scalar s n) r = true := by
    rw [sameCharset, hl.charset, hr.charset]
    exact beq_self_eq_true set
  have hname : s.name.isChar = true := hl.isChar
  have hmerge : (SqlType.scalar s n).mergeCollations r = s.collation.merge r.collation := rfl
  rw [ReturnBase.concatenationOf, hsum, hcharset, hl.charset, hmerge,
    Collation.combine, if_pos hname]
  rcases s.collation.merge r.collation with (_ | _ | _) | m <;> rfl

variable (op) in
theorem concatenationOf_yields (hset : set ≠ "")
    (hl : (SqlType.scalar s n).IsText set) (hr : r.IsText set)
    (hfits : s.precision + r.precision < 2 ^ 63) :
    Yields (ReturnBase.concatenationOf op (.scalar s n) r)
      (if s.collation.Clash r.collation then
        .error (.collations (.incompatible s.collation.name r.collation.name))
      else .ok (some (string s.name set (s.precision + r.precision)
        (s.collation.joined set r.collation) false))) := by
  have hlisted : s.collation.coercibility.isListed := hl.listed
  rw [concatenationOf_eq hl hr hfits, Collation.combine_eq hlisted hr.listed]
  by_cases hclash : s.collation.Clash r.collation
  · rw [if_pos hclash, if_pos hclash]
    exact .pure _
  · have hp : 0 ≤ s.precision + r.precision := Int.add_nonneg hl.precision hr.precision
    rw [if_neg hclash, if_neg hclash]
    refine .bind
      (char_yields hset hl.isChar hp (Collation.charset_joined hl.collation hr.collation)) ?_
    exact .pure _

def pair (set : String) (l r : SqlType) : SqlType :=
  string .varchar set (l.precision + r.precision) (l.collation.joined set r.collation)
    (l.nullable || r.nullable)

theorem isText_pair (hl : l.IsText set) (hr : r.IsText set) : (pair set l r).IsText set where
  isChar := rfl
  charset := rfl
  collation := Collation.charset_joined hl.collation hr.collation
  listed := Collation.isListed_joined hl.listed
  precision := Int.add_nonneg hl.precision hr.precision

theorem pair_assoc : pair set (pair set a b) c = pair set a (pair set b c) := by
  change string _ _ (a.precision + b.precision + c.precision) _
    (a.nullable || b.nullable || c.nullable) = _
  rw [Int.add_assoc, Bool.or_assoc]
  exact congrArg (string _ _ _ · _) Collation.joined_assoc

variable (op) in
theorem nullableConcatenation_yields (hset : set ≠ "") (hl : l.IsText set) (hr : r.IsText set)
    (hfits : l.precision + r.precision < 2 ^ 63) :
    Yields (nullableConcatenation.typeOf op [l, r])
      (if l.collation.Clash r.collation then
        .error (.collations (.incompatible l.collation.name r.collation.name))
      else .ok (some (pair set l r))) := by
  have hnull {t : SqlType} (ht : t.IsText set) : t.isNull = false := by
    cases t with
    | scalar => rfl
    | _ => cases ht.isChar
  cases l with
  | scalar s n =>
    have htype : nullableConcatenation.base.typeOf op [.scalar s n, r] =
        ReturnBase.concatenationOf op (.scalar s n) r := by
      simp only [nullableConcatenation, ReturnBase.typeOf, ReturnBase.concatenationType,
        hnull hl, hnull hr]
      rfl
    have hany : anyNullable [.scalar s n, r] = (n || r.nullable) := by
      rw [anyNullable, List.any_cons, List.any_cons, List.any_nil, Bool.or_false]
      rfl
    have hp : 0 ≤ s.precision + r.precision := Int.add_nonneg hl.precision hr.precision
    have hbase := concatenationOf_yields op hset hl hr hfits
    rw [← htype] at hbase
    refine .bind hbase ?_
    by_cases hclash : (SqlType.scalar s n).collation.Clash r.collation
    · rw [if_pos hclash, if_pos (show s.collation.Clash r.collation from hclash)]
      exact .pure _
    · have hadjust := adjust_yields hset hl.isChar hp
        (Collation.charset_joined hl.collation hr.collation) [.scalar s n, r]
      rw [hany] at hadjust
      rw [if_neg hclash, if_neg (show ¬ s.collation.Clash r.collation from hclash)]
      refine .bind hadjust ?_
      exact .pure _
  | _ => cases hl.isChar

def andThen (x : TypeM (Except ReturnError (Option SqlType)))
    (f : SqlType → TypeM (Except ReturnError (Option SqlType))) :
    TypeM (Except ReturnError (Option SqlType)) := do
  match ← x with
  | .ok (some t) => f t
  | other => return other

theorem andThen_yields [Decidable P] [Decidable Q]
    (hx : Yields x (if P then .error e else .ok (some t)))
    (hf : Yields (f t) (if Q then .error e' else .ok (some u))) :
    Yields (andThen x f) (if P then .error e else if Q then .error e' else .ok (some u)) := by
  refine .bind hx ?_
  by_cases hP : P
  · rw [if_pos hP, if_pos hP]
    exact .pure _
  · rw [if_neg hP, if_neg hP]
    exact hf

/-- The type of `(a || b) || c`. -/
def leftType (op : String) (a b c : SqlType) : TypeM (Except ReturnError (Option SqlType)) :=
  andThen (nullableConcatenation.typeOf op [a, b]) fun t => nullableConcatenation.typeOf op [t, c]

/-- The type of `a || (b || c)`. -/
def rightType (op : String) (a b c : SqlType) : TypeM (Except ReturnError (Option SqlType)) :=
  andThen (nullableConcatenation.typeOf op [b, c]) fun t => nullableConcatenation.typeOf op [a, t]

/-- The two ways to concatenate three strings of one character set give the same type, or both are
refused for collations that the statement names. -/
theorem nullableConcatenation_assoc {T : TypeTable} (hT : T.Tells)
    (hset : set ≠ "") (ha : a.IsText set) (hb : b.IsText set) (hc : c.IsText set)
    (hfits : a.precision + b.precision + c.precision < 2 ^ 63) (op : String) :
    (∃ x y x' y', (leftType op a b c T).1 = .error (.collations (.incompatible x y)) ∧
      (rightType op a b c T).1 = .error (.collations (.incompatible x' y'))) ∨
    ∃ m, (leftType op a b c T).1 = .ok (some (string .varchar set
        (a.precision + b.precision + c.precision) m (a.nullable || b.nullable || c.nullable))) ∧
      (rightType op a b c T).1 = (leftType op a b c T).1 := by
  have hap := ha.precision
  have hcp := hc.precision
  have hab := nullableConcatenation_yields op hset ha hb (by omega)
  have hbc := nullableConcatenation_yields op hset hb hc (by omega)
  have hleft := nullableConcatenation_yields op hset (isText_pair ha hb) hc hfits
  have hright := nullableConcatenation_yields op hset ha (isText_pair hb hc)
    (Int.add_assoc a.precision _ _ ▸ hfits)
  rw [leftType, rightType, (andThen_yields hab hleft T hT).1, (andThen_yields hbc hright T hT).1]
  have hrefused {P Q : Prop} [Decidable P] [Decidable Q] (h : P ∨ Q) (x y z w : String)
      (t : SqlType) : ∃ u v, (if P then .error (.collations (.incompatible x y))
      else if Q then .error (.collations (.incompatible z w))
        else .ok (some t) : Except ReturnError (Option SqlType)) =
        .error (.collations (.incompatible u v)) := by
    by_cases hP : P
    · exact ⟨x, y, if_pos hP⟩
    · exact ⟨z, w, by rw [if_neg hP, if_pos (h.resolve_left hP)]⟩
  have hassoc : a.collation.Clash b.collation ∨ (pair set a b).collation.Clash c.collation ↔
      b.collation.Clash c.collation ∨ a.collation.Clash (pair set b c).collation :=
      Collation.clash_assoc
  by_cases hclash : a.collation.Clash b.collation ∨ (pair set a b).collation.Clash c.collation
  · obtain ⟨x, y, hl⟩ := hrefused hclash _ _ _ _ _
    obtain ⟨x', y', hr⟩ := hrefused (hassoc.mp hclash) _ _ _ _ _
    exact .inl ⟨x, y, x', y', hl, hr⟩
  · have hclash' := mt hassoc.mpr hclash
    rw [not_or] at hclash hclash'
    rw [if_neg hclash.1, if_neg hclash.2, if_neg hclash'.1, if_neg hclash'.2, ← pair_assoc]
    exact .inr ⟨_, rfl, rfl⟩

/-- A literal between two columns, one of which admits the null value. -/
theorem nullableConcatenation_assoc_columns :
    let text (p : Int) (c : Coercibility) (n : Bool) : SqlType :=
      string .char Collation.defaultCharset p (.default c) n
    let T : TypeTable := (char .char 4 (.default .implicit) {}).2
    T.Tells ∧ (leftType "||" (text 4 .implicit false) (text 2 .coercible false)
      (text 3 .implicit true) T).1 =
        .ok (some (string .varchar Collation.defaultCharset 9 (.default .implicit) true)) ∧
      (rightType "||" (text 4 .implicit false) (text 2 .coercible false)
        (text 3 .implicit true) T).1 =
        .ok (some (string .varchar Collation.defaultCharset 9 (.default .implicit) true)) := by
  intro text T
  have hT : T.Tells :=
    (char_yields (p := 4) (m := .default .implicit) (by decide) rfl (by decide) rfl {} nofun).2
  have htext (p : Int) (hp : 0 ≤ p) (c : Coercibility) (hc : c.isListed)
      (n : Bool) : (text p c n).IsText Collation.defaultCharset :=
    ⟨rfl, rfl, rfl, hc, hp⟩
  have hset : Collation.defaultCharset ≠ "" := by decide
  have ha := htext 4 (by decide) .implicit rfl false
  have hb := htext 2 (by decide) .coercible rfl false
  have hc := htext 3 (by decide) .implicit rfl true
  have hab := nullableConcatenation_yields "||" hset ha hb (by decide)
  have habc := nullableConcatenation_yields "||" hset (isText_pair ha hb) hc (by decide)
  have hleft : (leftType "||" _ _ _ T).1 = _ := (andThen_yields hab habc T hT).1
  rw [if_neg (by decide), if_neg (by decide)] at hleft
  refine ⟨hT, hleft, ?_⟩
  obtain ⟨x, y, _, _, hrefused, _⟩ | ⟨m, _, hsame⟩ :=
    nullableConcatenation_assoc hT hset ha hb hc (by decide) "||"
  · cases hleft.symm.trans hrefused
  · exact hsame.trans hleft

end ReturnRule

end SqlAnalysis

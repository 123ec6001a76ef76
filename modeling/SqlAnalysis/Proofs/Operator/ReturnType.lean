import SqlAnalysis.Operator.Standard
import SqlAnalysis.Proofs.SqlType.Comparable

/-!
Types of calls whose operands were accepted. The check of an operator and the rule for the type of
its calls are written apart from each other, so that a rule may lack a type for operands that the
check lets through. `isCovered` says of an operator that this happens only where an interval is
added to a datetime or taken from it.
-/

namespace SqlAnalysis

open TypeTable

/-- The step gives a type, whatever has been built before. -/
def TypeM.Finds (x : TypeM (Option SqlType)) : Prop := ∀ T, ((x T).1).isSome

theorem TypeM.Finds.map_some (x : TypeM SqlType) : TypeM.Finds (some <$> x) := fun _ => rfl

namespace SqlType

variable {t : SqlType} {ts : List SqlType}

/-- A type that is neither unknown nor `ANY`. -/
def isGiven (t : SqlType) : Bool := !t.isUnknown && !t.isAny

/-- Numbers, or intervals of one kind, or datetimes of one name; null types aside. -/
inductive Alike (ts : List SqlType) : Prop where
  | numeric : (∀ t ∈ ts, t.isNull ∨ t.isNumeric) → Alike ts
  | interval (name : TypeName) : (∀ t ∈ ts, t.isNull ∨ t.isInterval ∧ t.name = name) → Alike ts
  | datetime (name : TypeName) : (∀ t ∈ ts, t.isNull ∨ t.isDatetime ∧ t.name = name) → Alike ts

theorem isAny_eq_false (h : t.isGiven) : t.isAny = false := by
  simp only [isGiven, Bool.and_eq_true, Bool.not_eq_true'] at h
  exact h.2

theorem holds_of_contains {f : Family} (h : t.isGiven) (hf : f.contains t) :
    t.isNull ∨ f.holds t := by
  simp only [Family.contains, isAny_eq_false h, Bool.or_false, Bool.or_eq_true] at hf
  exact hf

theorem isNumeric_of_isExactNumeric (h : t.isExactNumeric) : t.isNumeric := by
  cases t with
  | scalar s n =>
    simp only [isExactNumeric, isNumeric, isScalar, ScalarName.isExactNumeric,
      ScalarName.isNumeric] at h ⊢
    cases hr : s.name.numericRank? with
    | none => rw [hr] at h; cases h
    | some r => rfl
  | _ => cases h

theorem Alike.comparable (h : Alike ts) : Comparable ts := by
  intro a ha b hb
  cases h with
  | numeric h =>
    have ha := h a ha
    have hb := h b hb
    cases a <;> cases b <;> simp_all [canCompare, canComparePlain, isNull, isNumeric, isScalar]
  | interval name h =>
    have ha := h a ha
    have hb := h b hb
    cases a <;> cases b <;> simp_all [canCompare, canComparePlain, isNull,
      isNumeric, isChar, isBinary, isInterval, isScalar]
  | datetime name h =>
    have ha := h a ha
    have hb := h b hb
    have hdatetime (n : ScalarName) : n.isDatetime → n.isNumeric = false ∧
        n.isChar = false ∧ n.isBinary = false := by
      cases n <;> decide
    cases a <;> cases b <;> simp_all [canCompare, canComparePlain, isNull,
      isNumeric, isChar, isBinary, isDatetime, isScalar]

theorem Alike.settled (h : Alike ts) (hts : ∀ t ∈ ts, t.isGiven) (d : Nat) :
    ∀ t ∈ ts, t.Settled (d + 1) := by
  intro t ht
  have hplain : t.isNull ∨ t.isNumeric ∨ t.isInterval ∨ t.isDatetime := by
    cases h with
    | numeric h => exact (h t ht).imp_right .inl
    | interval name h => exact (h t ht).imp_right fun h => .inr (.inl h.1)
    | datetime name h => exact (h t ht).imp_right fun h => .inr (.inr h.1)
  cases t with
  | scalar s n =>
    refine ⟨rfl, isAny_eq_false (hts _ ht),
      by simp only [kin]; grind, fun hbinary => ?_, List.forall_mem_nil _⟩
    obtain ⟨name, _⟩ := s
    cases name <;> simp [isBinary, isNull, isNumeric, isInterval, isDatetime,
      isScalar] at hbinary hplain <;> contradiction
  | interval | null => exact ⟨rfl, rfl, by rintro ⟨⟩, by rintro ⟨⟩, List.forall_mem_nil _⟩
  | _ => simp [isNull, isNumeric, isInterval, isDatetime, isScalar] at hplain

end SqlType

namespace TypeTable

open SqlType

variable {ts : List SqlType}

theorem Alike.leastRestrictive_finds (h : Alike ts) (hne : ts ≠ []) (hts : ∀ t ∈ ts, t.isGiven) :
    (leastRestrictive ts).Finds :=
  fun T => (leastRestrictiveUpTo_findsIff hne (h.settled hts _) T).mpr h.comparable

theorem leastRestrictive_datetime_interval (hl : l.isDatetime) (hr : r.isInterval) :
    (leastRestrictive [l, r] T).1 = none ∧ (leastRestrictive [r, l] T).1 = none := by
  cases l with
  | scalar s n =>
    cases r with
    | interval q m =>
      obtain ⟨name, precision, scale, charset, collation⟩ := s
      cases name <;> first | exact ⟨rfl, rfl⟩ | cases hl
    | _ => cases hr
  | _ => cases hl

end TypeTable

/-- What the rule for calls of `op` may answer for operands that were accepted: a type, or an error
about character strings of two character sets, of two collations that the statement names, or of a
coercibility that has no rules. -/
inductive ReturnAnswer (op : String) (ts : List SqlType) :
    Except ReturnError (Option SqlType) → Prop where
  | type (t : SqlType) : ReturnAnswer op ts (.ok (some t))
  | charsets {l r : SqlType} : l ∈ ts → r ∈ ts → l.charset ≠ r.charset →
    ReturnAnswer op ts (.error (.charsets op l.charset r.charset))
  | incompatible {l r : SqlType} : l ∈ ts → r ∈ ts → l.collation.coercibility = .explicit →
    r.collation.coercibility = .explicit → l.collation.name ≠ r.collation.name →
    ReturnAnswer op ts (.error (.collations (.incompatible l.collation.name r.collation.name)))
  | unlisted {t : SqlType} {k : Int} : t ∈ ts → t.collation.coercibility = .unlisted k →
    ReturnAnswer op ts (.error (.collations (.unknownCoercibility (.unlisted k))))

theorem ReturnAnswer.of_finds (h : x.Finds) (T : TypeTable) :
    ReturnAnswer op ts ((Except.ok <$> x : TypeM (Except ReturnError (Option SqlType))) T).1 := by
  obtain ⟨t, ht⟩ := Option.isSome_iff_exists.mp (h T)
  change ReturnAnswer op ts (.ok (x T).1)
  rw [ht]
  exact .type t

namespace ReturnBase

open SqlType

variable {r : SqlType} {ts : List SqlType} {T : TypeTable}

theorem pair_finds (hl : l.isGiven) (hr : r.isGiven) (h : Alike [l, r]) :
    (TypeTable.leastRestrictive [l, r]).Finds :=
  Alike.leastRestrictive_finds h (List.cons_ne_nil _ _) (by simp [hl, hr])

theorem alike_datetime_interval (hl : l.isNull ∨ l.isDatetime)
    (hr : r.isNull ∨ r.isInterval) (h : (l.isDatetime && r.isInterval) = false) :
    Alike [l, r] ∧ Alike [r, l] := by
  obtain hl | hl := hl
  · obtain hr | hr := hr
    · exact ⟨.numeric (by simp [hl, hr]), .numeric (by simp [hl, hr])⟩
    · exact ⟨.interval r.name (by simp [hl, hr]), .interval r.name (by simp [hl, hr])⟩
  · obtain hr | hr := hr
    · exact ⟨.datetime l.name (by simp [hl, hr]), .datetime l.name (by simp [hl, hr])⟩
    · simp [hl, hr] at h

theorem alike_of_sameInterval (hts : ∀ t ∈ ts, t.isGiven)
    (h : OperandPattern.sameInterval.accepts ts) : ∃ l r, ts = [l, r] ∧ Alike [l, r] := by
  simp only [OperandPattern.accepts] at h
  split at h
  case h_2 => cases h
  case h_1 l r =>
    refine ⟨l, r, rfl, ?_⟩
    rw [List.forall_mem_cons, List.forall_mem_singleton] at hts
    simp only [isAny_eq_false hts.1, isAny_eq_false hts.2, Bool.or_false,
      Bool.and_eq_true, Bool.or_eq_true, beq_iff_eq] at h
    obtain ⟨⟨hl, hr⟩, hname⟩ := h
    have hl : l.isNull ∨ l.isInterval := holds_of_contains hts.1 hl
    have hr : r.isNull ∨ r.isInterval := holds_of_contains hts.2 hr
    obtain (hnull | hnull) | hname := hname
    · exact .interval r.name (by simp [hnull, hr])
    · exact .interval l.name (by simp [hnull, hl])
    · exact .interval r.name (by simp [hname, hl, hr])

theorem productType_finds (hl : l.isGiven) (hr : r.isGiven)
    (h : (l.isNull ∨ l.isNumeric) ∧ (r.isNull ∨ r.isNumeric ∨ r.isInterval) ∨
      (l.isNull ∨ l.isInterval) ∧ (r.isNull ∨ r.isNumeric)) : (productType [l, r]).Finds := by
  dsimp only [productType]
  split
  · exact .map_some _
  split
  · exact fun _ => rfl
  split
  · exact fun _ => rfl
  -- What is left is an interval beside a null, or numbers and nulls.
  refine pair_finds hl hr ?_
  obtain ⟨hleft, hnull | hnumeric | hinterval⟩ | ⟨hnull | hinterval, hright⟩ := h
  · exact .numeric (by simp [hleft, hnull])
  · exact .numeric (by simp [hleft, hnumeric])
  · exact .interval r.name (by simp_all)
  · exact .numeric (by simp [hright, hnull])
  · exact .interval l.name (by simp_all)

theorem quotientType_finds (hl : l.isGiven) (hr : r.isGiven)
    (h : l.isNull ∨ l.isNumeric ∨ l.isInterval) (h' : r.isNull ∨ r.isNumeric) :
    (quotientType [l, r]).Finds := by
  dsimp only [quotientType]
  split
  · exact .map_some _
  split
  · exact fun _ => rfl
  refine pair_finds hl hr ?_
  obtain hnull | hnumeric | hinterval := h
  · exact .numeric (by simp [hnull, h'])
  · exact .numeric (by simp [hnumeric, h'])
  · exact .interval l.name (by simp_all)

theorem merge_error {c d : Collation} (h : c.merge d = .error e) :
    (c.coercibility = .explicit ∧ d.coercibility = .explicit ∧ c.name ≠ d.name ∧
      e = .incompatible c.name d.name) ∨ e = .noCommon ∨ ∃ k, c.coercibility = .unlisted k ∧
      e = .unknownCoercibility (.unlisted k) := by
  unfold Collation.merge at h
  split at h <;> (try split at h) <;> simp_all [eq_comm]

theorem concatenationOf_answers (hl : l ∈ ts) (hr : r ∈ ts) :
    ReturnAnswer op ts (concatenationOf op l r T).1 := by
  unfold concatenationOf
  cases l with
  | scalar s n =>
    dsimp only
    split
    · split
      · next hcharset => exact .charsets hl hr (by simpa [sameCharset] using hcharset)
      · cases hmerge : (SqlType.scalar s n).mergeCollations r with
        | ok c => exact .type _
        | error e =>
          obtain ⟨hleft, hright, hne, rfl⟩ | rfl | ⟨k, hk, rfl⟩ := merge_error hmerge
          · exact .incompatible hl hr hleft hright hne
          · exact .type _
          · exact .unlisted hl hk
    · exact .type _
  | _ => exact .type _

theorem concatenationType_answers : ReturnAnswer op [l, r] (concatenationType op [l, r] T).1 := by
  have hleft : l ∈ [l, r] := List.mem_cons_self
  have hright : r ∈ [l, r] := List.mem_cons_of_mem _ List.mem_cons_self
  unfold concatenationType
  cases hl : l.isNull <;> cases hr : r.isNull <;>
    simp only [hl, hr, if_true, if_false, Bool.false_eq_true]
  · exact concatenationOf_answers hleft hright
  · exact concatenationOf_answers hleft hleft
  · exact concatenationOf_answers hright hright
  · exact .type _

def datetimeBesideInterval : List SqlType → Bool
  | [l, r] => l.isDatetime && r.isInterval || l.isInterval && r.isDatetime
  | _ => false

/-- Whether the rule has a type for operands of the pattern, those of `datetimeBesideInterval` left
out. -/
def suits (base : ReturnBase) (adds : Bool) (arity : Arity) (p : OperandPattern) : Bool :=
  match base, p with
  | .named _, _ | .varchar _, _ => true
  | .firstArg, _ => !arity.allows 0
  | .thirdArg, _ => !arity.allows 0 && !arity.allows 1 && !arity.allows 2
  | .leastRestrictive, .families [.numeric, .numeric] => arity == .exactly 2
  | .leastRestrictive, .families [.exactNumeric, .exactNumeric] => arity == .exactly 2
  | .leastRestrictive, .families [.datetime, .interval] => adds && arity == .exactly 2
  | .leastRestrictive, .families [.interval, .datetime] => adds && arity == .exactly 2
  | .leastRestrictive, .sameInterval => true
  | .product, .families [.numeric, .numeric] => arity == .exactly 2
  | .product, .families [.interval, .numeric] => arity == .exactly 2
  | .product, .families [.numeric, .interval] => arity == .exactly 2
  | .quotient, .families [.numeric, .numeric] => arity == .exactly 2
  | .quotient, .families [.interval, .numeric] => arity == .exactly 2
  | .concatenation, .sameString n => n == 2
  | _, _ => false

theorem pair_of_families {arity : Arity} (harity : (arity == .exactly 2))
    (hcount : arity.allows ts.length) (h : (OperandPattern.families [f, g]).accepts ts) :
    ∃ l r, ts = [l, r] ∧ f.contains l ∧ g.contains r := by
  rw [beq_iff_eq] at harity
  subst harity
  simp only [Arity.allows, Arity.exactly, Bool.and_eq_true, decide_eq_true_eq] at hcount
  have hlength : ts.length = 2 := by omega
  obtain ⟨l, r, rfl⟩ : ∃ l r, ts = [l, r] := by
    match ts, hlength with
    | [l, r], _ => exact ⟨l, r, rfl⟩
  simp only [OperandPattern.accepts, OperandPattern.inFamilies, Bool.and_true,
    Bool.and_eq_true] at h
  exact ⟨l, r, rfl, h.1, h.2⟩

/-- The rule answers for every accepted list of operand types, a datetime beside an interval
aside. -/
theorem typeOf_answers {base : ReturnBase} {arity : Arity}
    (hsuits : base.suits adds arity p) (hgiven : ∀ t ∈ ts, t.isGiven)
    (hcount : arity.allows ts.length) (h : p.accepts ts)
    (hdatetime : (adds && datetimeBesideInterval ts) = false) (op : String) (T : TypeTable) :
    ReturnAnswer op ts (base.typeOf op ts T).1 := by
  -- The families of a pair say of each operand what it is unless it is null.
  have hpair {f g : Family} (harity : (arity == .exactly 2))
      (h : (OperandPattern.families [f, g]).accepts ts) :
      ∃ l r, ts = [l, r] ∧ (l.isGiven ∧ r.isGiven) ∧ (l.isNull ∨ f.holds l) ∧
        (r.isNull ∨ g.holds r) := by
    obtain ⟨l, r, rfl, hl, hr⟩ := pair_of_families harity hcount h
    rw [List.forall_mem_cons, List.forall_mem_singleton] at hgiven
    exact ⟨l, r, rfl, hgiven, holds_of_contains hgiven.1 hl, holds_of_contains hgiven.2 hr⟩
  unfold suits at hsuits
  split at hsuits
  · exact .type _
  · exact .type _
  · cases ts with
    | nil =>
      have hnone : arity.allows 0 := hcount
      rw [hnone] at hsuits
      cases hsuits
    | cons t ts => exact .type t
  · rcases ts with _ | ⟨_, _ | ⟨_, _ | ⟨t, _⟩⟩⟩
    iterate 3 simp_all
    exact .type t
  · obtain ⟨l, r, rfl, hg, hl, hr⟩ := hpair hsuits h
    exact .of_finds (pair_finds hg.1 hg.2 (.numeric (by simp_all [Family.holds]))) T
  · obtain ⟨l, r, rfl, hg, hl, hr⟩ := hpair hsuits h
    refine .of_finds (pair_finds hg.1 hg.2 (.numeric ?_)) T
    rw [List.forall_mem_cons, List.forall_mem_singleton]
    exact ⟨hl.imp_right isNumeric_of_isExactNumeric, hr.imp_right isNumeric_of_isExactNumeric⟩
  · rw [Bool.and_eq_true] at hsuits
    obtain ⟨l, r, rfl, hg, hl, hr⟩ := hpair hsuits.2 h
    rw [hsuits.1, Bool.true_and] at hdatetime
    simp only [datetimeBesideInterval, Bool.or_eq_false_iff] at hdatetime
    exact .of_finds (pair_finds hg.1 hg.2 (alike_datetime_interval hl hr hdatetime.1).1) T
  · rw [Bool.and_eq_true] at hsuits
    obtain ⟨l, r, rfl, hg, hl, hr⟩ := hpair hsuits.2 h
    rw [hsuits.1, Bool.true_and] at hdatetime
    simp only [datetimeBesideInterval, Bool.or_eq_false_iff,
      Bool.and_comm l.isInterval] at hdatetime
    exact .of_finds (pair_finds hg.1 hg.2 (alike_datetime_interval hr hl hdatetime.2).2) T
  · obtain ⟨l, r, rfl, halike⟩ := alike_of_sameInterval hgiven h
    rw [List.forall_mem_cons, List.forall_mem_singleton] at hgiven
    exact .of_finds (pair_finds hgiven.1 hgiven.2 halike) T
  · obtain ⟨l, r, rfl, hg, hl, hr⟩ := hpair hsuits h
    exact .of_finds (productType_finds hg.1 hg.2 (.inl ⟨hl, hr.imp_right .inl⟩)) T
  · obtain ⟨l, r, rfl, hg, hl, hr⟩ := hpair hsuits h
    exact .of_finds (productType_finds hg.1 hg.2 (.inr ⟨hl, hr⟩)) T
  · obtain ⟨l, r, rfl, hg, hl, hr⟩ := hpair hsuits h
    exact .of_finds (productType_finds hg.1 hg.2 (.inl ⟨hl, hr.imp_right .inr⟩)) T
  · obtain ⟨l, r, rfl, hg, hl, hr⟩ := hpair hsuits h
    exact .of_finds (quotientType_finds hg.1 hg.2 (hl.imp_right .inl) hr) T
  · obtain ⟨l, r, rfl, hg, hl, hr⟩ := hpair hsuits h
    exact .of_finds (quotientType_finds hg.1 hg.2 (hl.imp_right .inr) hr) T
  · rw [beq_iff_eq] at hsuits
    subst hsuits
    simp only [OperandPattern.accepts, Bool.and_eq_true, beq_iff_eq] at h
    obtain ⟨l, r, rfl⟩ := List.length_eq_two.mp h.1
    exact concatenationType_answers
  · cases hsuits

end ReturnBase

theorem ReturnRule.run_bind (x : TypeM α) (f : α → TypeM β) (T : TypeTable) :
    (x >>= f) T = f (x T).1 (x T).2 := rfl

theorem ReturnRule.typeOf_answers {r : ReturnRule}
    (h : ReturnAnswer op ts (r.base.typeOf op ts T).1) :
    ReturnAnswer op ts (r.typeOf op ts T).1 := by
  rw [ReturnRule.typeOf, run_bind]
  cases hbase : (r.base.typeOf op ts T).1 with
  | error e => rw [hbase] at h; exact h
  | ok t =>
    rw [hbase] at h
    cases h with
    | type t => exact .type _

theorem ReturnRule.typeOf_datetimeBesideInterval {r : ReturnRule} (hr : r.base = .leastRestrictive)
    (h : ReturnBase.datetimeBesideInterval ts) : (r.typeOf op ts T).1 = .ok none := by
  have hnone : (TypeTable.leastRestrictive ts T).1 = none := by
    unfold ReturnBase.datetimeBesideInterval at h
    split at h
    · rw [Bool.or_eq_true, Bool.and_eq_true, Bool.and_eq_true] at h
      obtain ⟨hl, hr⟩ | ⟨hl, hr⟩ := h
      · exact (leastRestrictive_datetime_interval hl hr).1
      · exact (leastRestrictive_datetime_interval hr hl).2
    · cases h
  have hbase : (r.base.typeOf op ts T).1 = .ok none := by
    rw [hr]
    exact congrArg Except.ok hnone
  rw [ReturnRule.typeOf, run_bind, hbase]
  rfl

namespace Operator

def adds (o : Operator) : Bool := o.kind == .plus || o.kind == .minus

/-- Whether a call adds an interval to a datetime, or subtracts one from the other. -/
def movesDatetime (o : Operator) (ts : List SqlType) : Bool :=
  o.adds && ReturnBase.datetimeBesideInterval ts

/-- Whether the rule for the type of a call suits every pattern of the check. -/
def isCovered (o : Operator) : Bool :=
  match o.checks, o.returns with
  | some c, some r =>
    (!o.adds || r.base == .leastRestrictive) && c.all (r.base.suits o.adds o.arity)
  | _, _ => true

theorem isCovered_of_mem_standard : ∀ o ∈ Registry.standard.operators, o.isCovered := by
  decide +kernel

/-- Operands of the standard operators that the check accepts give the call a type, and the rule may
refuse them only for their character sets or collations; an interval added to a datetime or taken
from it has no type. -/
theorem typeOf_of_accepts {o : Operator} {c : OperandCheck} {r : ReturnRule} (ts : List SqlType)
    (ho : o ∈ Registry.standard.operators) (hc : o.checks = some c) (hr : o.returns = some r)
    (hgiven : ∀ t ∈ ts, t.isGiven = true) (hcount : o.arity.allows ts.length = true)
    (haccepts : c.accepts ts = true) (T : TypeTable) :
    if o.movesDatetime ts then (r.typeOf o.name ts T).1 = .ok none
    else ReturnAnswer o.name ts (r.typeOf o.name ts T).1 := by
  have hcovered := isCovered_of_mem_standard o ho
  simp only [isCovered, hc, hr, Bool.and_eq_true, Bool.or_eq_true, Bool.not_eq_true',
    beq_iff_eq] at hcovered
  obtain ⟨hbase, hsuits⟩ := hcovered
  cases hmoves : o.movesDatetime ts with
  | true =>
    rw [movesDatetime, Bool.and_eq_true] at hmoves
    have hleast := hbase.resolve_left (by rw [hmoves.1]; nofun)
    exact ReturnRule.typeOf_datetimeBesideInterval hleast hmoves.2
  | false =>
    obtain ⟨p, hp, hpattern⟩ := List.any_eq_true.mp haccepts
    exact ReturnRule.typeOf_answers
      (ReturnBase.typeOf_answers (List.all_eq_true.mp hsuits p hp) hgiven
      hcount hpattern hmoves o.name T)

/-- `DATE + INTERVAL DAY` is accepted and has no type; `INTERVAL DAY * NULL` has one. -/
theorem typeOf_of_accepts_interval :
    (ReturnRule.nullableLeastRestrictive.typeOf "+"
      [.scalar { name := .date } false, .interval { first := .day, last := .day } false] {}).1 =
      .ok none ∧
    ReturnAnswer "*" [.interval { first := .day, last := .day } false, .null]
      (ReturnRule.nullableProduct.typeOf "*"
      [.interval { first := .day, last := .day } false, .null] {}).1 :=
  ⟨typeOf_of_accepts
    (o := Standard.monotonic (Standard.binary "+" .plus 20 ReturnRule.nullableLeastRestrictive
      (some .firstKnown) OperandCheck.plus))
      [.scalar { name := .date } false, .interval { first := .day, last := .day } false]
      (by decide +kernel) rfl rfl (by decide) (by decide) (by decide) {},
    typeOf_of_accepts
      (o := Standard.monotonic (Standard.binary "*" .times 30 ReturnRule.nullableProduct
      (some .firstKnown) OperandCheck.times))
        [.interval { first := .day, last := .day } false, .null]
      (by decide +kernel) rfl rfl (by decide) (by decide) (by decide) {}⟩

end Operator

end SqlAnalysis

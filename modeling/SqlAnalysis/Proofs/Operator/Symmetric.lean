import Mathlib.Data.Bool.Basic
import SqlAnalysis.Proofs.SqlType.Comparable

/-!
Operand patterns that do not look at the order of the operands. Operands are compared in the order
in which they stand, and strings are held against the first of them; neither shows in the answer.
-/

namespace SqlAnalysis

namespace SqlType

theorem canComparePlain_comm (a b : SqlType) : a.canComparePlain b = b.canComparePlain a := by
  have hfamily := ScalarName.family_cases
  cases a <;> cases b <;>
    simp only [canComparePlain, isNumeric, isChar, isBinary, isScalar, charset, name] <;> grind

/-- Only two rows, or two multisets, are compared by their parts. -/
theorem canCompare_comm_of_plain {a b : SqlType} (hrow : a.isRow = false ∨ b.isRow = false)
    (hmultiset : a.isMultiset = false ∨ b.isMultiset = false) :
    a.canCompare b = b.canCompare a := by
  have hplain := canComparePlain_comm a b
  have hany := Bool.or_comm a.isAny b.isAny
  cases a <;> cases b <;> simp_all [canCompare, isRow, isMultiset] <;>
    simp [canComparePlain, isAny, isNamed, isNumeric, isChar, isBinary, isScalar, name] <;> grind

mutual
theorem canCompare_comm (a b : SqlType) : a.canCompare b = b.canCompare a := by
  cases a with
  | row fs _ =>
    cases b with
    | row gs _ => simp only [canCompare, canCompareFields_comm fs gs, isAny, isNamed, isScalar]
    | _ => exact canCompare_comm_of_plain (.inr rfl) (.inl rfl)
  | multiset e _ =>
    cases b with
    | multiset f _ => simp only [canCompare, canCompare_comm e f, isAny, isNamed, isScalar]
    | _ => exact canCompare_comm_of_plain (.inl rfl) (.inr rfl)
  | _ => exact canCompare_comm_of_plain (.inl rfl) (.inl rfl)

theorem canCompareFields_comm (fs gs : List Field) :
    canCompareFields fs gs = canCompareFields gs fs := by
  match fs, gs with
  | [], [] | [], _ :: _ | _ :: _, [] => rfl
  | (_, a) :: fs, (_, b) :: gs =>
    rw [canCompareFields, canCompareFields, canCompare_comm a b, canCompareFields_comm fs gs]
end

end SqlType

namespace OperandPattern

open SqlType

variable {ts us : List SqlType}

theorem allComparable_iff : allComparable ts ↔ ts.Pairwise fun a b => a.canCompare b := by
  induction ts with
  | nil => simp [allComparable]
  | cons t ts ih => rw [allComparable, Bool.and_eq_true, List.all_eq_true, ih, List.pairwise_cons]

theorem allOneString_iff : allOneString ts ↔
    ∃ f, ∀ t ∈ ts, (t.isNull || t.isAny) = false → stringFamily? t = some f := by
  have hmem (f : Family) (us : List SqlType) :
      (∃ fs, us.mapM stringFamily? = some fs ∧ fs.all (· == f)) ↔
      ∀ t ∈ us, stringFamily? t = some f := by
    induction us with
    | nil => simp
    | cons u us ih =>
      rw [List.forall_mem_cons, ← ih, List.mapM_cons]
      cases stringFamily? u <;> cases us.mapM stringFamily? <;> simp
  have hfilter (f : Family) : (∀ t ∈ ts.filter fun t => !(t.isNull || t.isAny),
      stringFamily? t = some f) ↔
      ∀ t ∈ ts, (t.isNull || t.isAny) = false → stringFamily? t = some f := by
    simp only [List.mem_filter, Bool.not_eq_true', and_imp]
  simp only [← hfilter, ← hmem, allOneString]
  split
  next h => simp only [h, reduceCtorEq, false_and, exists_false]
  next h => exact ⟨fun _ => ⟨.any, [], h, rfl⟩, fun _ => rfl⟩
  next f fs h =>
    simp only [h, Option.some.injEq, exists_eq_left', List.all_cons, Bool.and_eq_true, beq_iff_eq]

theorem sameInterval_iff : sameInterval.accepts ts ↔ ts.length = 2 ∧
      (∀ t ∈ ts, Family.interval.contains t) ∧ ts.Pairwise fun a b => a.isNull ∨
      b.isNull ∨ a.name = b.name ∨ a.isAny ∨ b.isAny := by
  match ts with
  | [] | [_] | _ :: _ :: _ :: _ => simp [accepts]
  | [a, b] => simp [accepts, or_assoc, and_assoc]

/-- Neither the patterns that relate the operands to one another nor the comparison of two types
looks at the order. -/
theorem accepts_perm (h : ts.Perm us) (n : Nat) (ordered : Bool) :
    (comparable n ordered).accepts ts = (comparable n ordered).accepts us ∧
    (sameString n).accepts ts = (sameString n).accepts us ∧
    sameInterval.accepts ts = sameInterval.accepts us ∧
    ∀ a b : SqlType, a.canCompare b = b.canCompare a := by
  have hcomparable : allComparable ts = allComparable us := by
    rw [Bool.eq_iff_iff, allComparable_iff, allComparable_iff]
    exact h.pairwise_iff fun {a b} hab => canCompare_comm a b ▸ hab
  have hstring : allOneString ts = allOneString us := by
    rw [Bool.eq_iff_iff, allOneString_iff, allOneString_iff]
    simp only [h.mem_iff]
  refine ⟨?_, ?_, ?_, canCompare_comm⟩
  · rw [accepts, accepts, h.length_eq, h.any_eq, hcomparable]
  · rw [accepts, accepts, h.length_eq, hstring]
  · rw [Bool.eq_iff_iff, sameInterval_iff, sameInterval_iff, h.length_eq, h.pairwise_iff]
    · simp only [h.mem_iff]
    · rintro a b (h | h | h | h | h) <;> simp [h]

/-- Any order of a row, null and a row of like fields is accepted. -/
theorem accepts_perm_rows :
    let row (name : ScalarName) : SqlType := .row [("C", .scalar { name } false)] false
    (comparable 3 true).accepts [row .integer, .null, row .double] = true ∧
      (comparable 3 true).accepts [row .double, row .integer, .null] = true := by
  intro row
  have h : (comparable 3 true).accepts [row .integer, .null, row .double] = true := by decide
  have hperm : [row .integer, .null, row .double].Perm [row .double, row .integer, .null] :=
    (List.perm_append_comm : ([row .integer, .null] ++ [_]).Perm _)
  exact ⟨h, (accepts_perm hperm 3 true).1 ▸ h⟩

end OperandPattern

end SqlAnalysis

import SqlAnalysis.Proofs.Analysis.Attested
import SqlAnalysis.Proofs.Analysis.Resolution

/-!
Names that are functions. A simple name is a function if the catalog has one that is called without
parentheses and gives a type without operands; whether it does is decided by the name alone. So an
analysis writes an operator down for such names only, and a qualified form for the others only.
-/

namespace SqlAnalysis

/-- The rule gives a type whatever the operands are. -/
def ReturnBase.isConstant : ReturnBase → Bool
  | .named _ | .varchar _ => true
  | _ => false

theorem ReturnRule.typeOf_nil (r : ReturnRule) (op : String) (T : TypeTable) :
    (∃ t, (r.typeOf op [] T).1 = .ok (some t)) ↔ r.base.isConstant := by
  obtain ⟨base, adjustments⟩ := r
  cases base with
  | named | varchar => exact ⟨fun _ => rfl, fun _ => ⟨_, rfl⟩⟩
  | firstArg | thirdArg | firstKnownArg | leastRestrictive | product | quotient | concatenation =>
    refine ⟨?_, nofun⟩
    rintro ⟨t, ht⟩
    cases ht

/-- The operator is called without parentheses, and has a type. -/
def Operator.isNullary (o : Operator) : Bool :=
  o.form == .functionId && o.returns.any fun r => r.base.isConstant

namespace Analysis

/-- Whether a name has an answer does not depend on the types that are known. -/
theorem nullaryFrom_ok (h : nullaryFrom ops s a = (.ok r, b)) :
    r.isSome = ops.any Operator.isNullary := by
  induction ops generalizing a with
  | nil => cases h; rfl
  | cons o ops ih =>
    rw [List.any_cons]
    rw [nullaryFrom] at h
    cases hrule : o.returns with
    | none =>
      have hfalse : o.isNullary = false := by rw [Operator.isNullary, hrule]; exact Bool.and_false _
      rw [hfalse, Bool.false_or]
      rw [hrule] at h
      generalize o.form = form at h
      cases form <;> exact ih h
    | some rule =>
      rw [hrule] at h
      by_cases hform : o.form = .functionId
      · have hnullary : o.isNullary = rule.base.isConstant := by
          rw [Operator.isNullary, hform, hrule]; rfl
        have hconstant := rule.typeOf_nil o.name a.types
        rw [hform] at h
        obtain ⟨answer, c, hanswer, h⟩ := run_bind_ok h
        have hrun : (rule.typeOf o.name [] a.types).1 = answer := by cases hanswer; rfl
        rw [hrun, ← hnullary] at hconstant
        rcases answer with _ | _ | t
        iterate 2
          have hfalse : o.isNullary = false := Bool.eq_false_iff.mpr fun htrue => by
            obtain ⟨_, ⟨⟩⟩ := hconstant.mpr htrue
          rw [hfalse, Bool.false_or]
          exact ih h
        · cases h
          rw [hconstant.mp ⟨t, rfl⟩]
          rfl
      · have hfalse : o.isNullary = false := by
          rw [Operator.isNullary, beq_false_of_ne hform, Bool.false_and]
        rw [hfalse, Bool.false_or]
        generalize o.form = form at h hform
        cases form <;> first | exact absurd rfl hform | exact ih h

def NamesFunction (s : Setting) (name : Identifier) : Prop :=
  name.isSimple ∧ (s.operators.lookup name.last .functionId).any Operator.isNullary

def HasQualified (s : Setting) (name : Identifier) (names : List String) : Prop :=
  ¬ NamesFunction s name ∧ (name.names = [] → 1 < names.length)

theorem HasQualified.of_length (h : 1 < name.names.length) : HasQualified s name names := by
  refine ⟨?_, fun hnil => by rw [hnil] at h; cases h⟩
  rintro ⟨hsimple, _⟩
  have hlength : name.names.length = 1 := eq_of_beq hsimple
  omega

/-- Names with an operator are functions, and names with a qualified form are none. -/
structure FunctionsApart (s : Setting) (a : Analysis) : Prop where
  overloads : ∀ i o, a.overloads.get? i = some o →
    ∃ f, a.tree.form? (some i) = some f ∧ ∀ name, f = .identifier name → NamesFunction s name
  qualified : ∀ i names, a.qualified.get? i = some names →
    ∃ f, a.tree.form? (some i) = some f ∧ ∀ name, f = .identifier name → HasQualified s name names

namespace FunctionsApart

section

variable (h : FunctionsApart s a)
include h

theorem of_eq (htree : a.tree.Extends b.tree) (hover : b.overloads = a.overloads)
    (hqual : b.qualified = a.qualified) : FunctionsApart s b where
  overloads j o hj := (h.overloads j o (hover ▸ hj)).imp fun _ hf => ⟨htree.form? hf.1, hf.2⟩
  qualified j names hj := (h.qualified j names (hqual ▸ hj)).imp fun _ hf =>
    ⟨htree.form? hf.1, hf.2⟩

theorem withOverload (hf : a.tree.form? (some i) = some f) (o : Operator)
    (hname : ∀ name, f = .identifier name → NamesFunction s name) :
    FunctionsApart s (a.withOverload i o) := by
  refine ⟨fun j o' hj => ?_, h.qualified⟩
  rw [Analysis.withOverload, Table.get?_insert] at hj
  split at hj
  · rename_i hij
    exact ⟨f, hij ▸ hf, hname⟩
  · exact h.overloads j o' hj

theorem withQualified (hf : a.tree.form? (some i) = some f)
    (hname : ∀ name, f = .identifier name → HasQualified s name names) :
    FunctionsApart s (a.withQualified i names) := by
  refine ⟨h.overloads, fun j names' hj => ?_⟩
  rw [Analysis.withQualified, Table.get?_insert] at hj
  split at hj
  · rename_i hij
    cases hj
    exact ⟨f, hij ▸ hf, hname⟩
  · exact h.qualified j names' hj

theorem not_overload (h' : FunctionsApart s b)
    (hf : a.tree.form? (some i) = some (.identifier name))
    (hf' : b.tree.form? (some i) = some (.identifier name))
    (hqual : b.qualified.get? i = some names) : a.overloads.get? i = none := by
  by_contra hne
  obtain ⟨o, ho⟩ := Option.ne_none_iff_exists'.mp hne
  obtain ⟨f, hform, hfunction⟩ := h.overloads i o ho
  obtain ⟨f', hform', hplain⟩ := h'.qualified i names hqual
  cases hf.symm.trans hform
  cases hf'.symm.trans hform'
  exact (hplain name rfl).1 (hfunction name rfl)

end

end FunctionsApart

instance : Hushed (FunctionsApart s) where
  silent h hs := h.of_eq hs.tree hs.overloads hs.qualified

instance : Listing (FunctionsApart s) where
  list _ _ h := h.of_eq (.refl _) rfl rfl

instance {W : Requests} : Heeding s W (FunctionsApart s) where
  mark h := by
    cases h with
    | derived _ _ _ _ _ _ hb => exact hb.of_eq (.refl _) rfl rfl
    | windowed _ _ _ _ _ _ _ hb => exact hb.of_eq (.refl _) rfl rfl
    | operator _ _ hc _ hb hadv =>
      exact hb.withOverload (hadv.tree.form? (Tree.form?_of_call? hc)) _ nofun
    | special _ ha hc => exact ha.withOverload (Tree.form?_of_call? hc) _ nofun
    | function _ _ hf hsimple hrun hb =>
      have hadv := ((nullaryFrom_keeps (I := fun _ => True) (H := fun _ => True)).ok trivial hrun).2
      refine hb.withOverload (hadv.tree.form? hf) _ fun name' hname => ?_
      cases hname
      exact ⟨hsimple, (nullaryFrom_ok hrun).symm⟩
    | qualified _ _ hf hplain hrun hb hadv =>
      refine hb.withQualified (hadv.tree.form? hf) fun name' hname => ?_
      cases hname
      refine ⟨fun hfunction => ?_, (resolve_ok hrun).lt_length⟩
      obtain ⟨c, hrun⟩ := hplain hfunction.1
      have hnone := nullaryFrom_ok hrun
      rw [hfunction.2] at hnone
      cases hnone
    | null ha => exact ha.of_eq (.refl _) rfl rfl
    | parameter _ _ _ _ _ hb => exact hb.of_eq (.refl _) rfl rfl
    | framed h =>
      obtain ⟨_, _, _, _, hb, _⟩ := h
      exact hb.of_eq (.refl _) rfl rfl

instance : Entering s (FunctionsApart s) where
  entry h := by
    cases h with
    | row _ _ _ hb =>
      unfold withRow
      split <;> exact hb.of_eq (.refl _) rfl rfl
    | cells ha => exact ha.of_eq (.refl _) rfl rfl
    | item _ hb => exact hb.of_eq (.refl _) rfl rfl
    | @column a b scope c row f n i _ hb hnode hab hi =>
      have hf : b.tree.form? (some i) = some n.form := by rw [hab, hi]; exact a.tree.form?_add n
      refine ((hb.of_eq (.refl _) rfl rfl).withQualified hf fun name hname => ?_).of_eq
        (.refl _) rfl rfl
      cases hnode.symm.trans hname
      exact .of_length (Nat.lt_succ_self 1)
    | @expanded a b scope i out name names n ha hb hform hnames hlonger hnode hab hout =>
      have hf : b.tree.form? (some out) = some n.form := by rw [hab, hout]; exact a.tree.form?_add n
      refine ((hb.of_eq (.refl _) rfl rfl).withQualified hf fun name' hname => ?_).of_eq
        (.refl _) rfl rfl
      cases hnode.symm.trans hname
      obtain ⟨f', hform', hqual⟩ := ha.qualified i names hnames
      cases hform.symm.trans hform'
      refine .of_length ?_
      by_cases hnil : name.names = []
      · exact (hqual name rfl).2 hnil
      · exact Nat.lt_of_le_of_lt (List.length_pos_iff.mpr hnil) hlonger
    | target _ _ _ hb => exact hb.of_eq (.refl _) rfl rfl

theorem functionsApart_withStatus {id : NamespaceId} (h : FunctionsApart s a) :
    FunctionsApart s (a.withStatus id st) :=
  h.of_eq (.refl _) rfl rfl

theorem engine_functionsApart (s : Setting) (steps : Nat) :
    (engine steps).Settles s (FunctionsApart s) (fun _ => True) .any :=
  engine_settles_any trivial (fun _ _ _ h => functionsApart_withStatus h) steps

end Analysis

end SqlAnalysis

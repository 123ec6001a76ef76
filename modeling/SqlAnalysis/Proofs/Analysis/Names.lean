import SqlAnalysis.Analysis.Select
import SqlAnalysis.Proofs.Analysis.Step

/-!
Looking up names, catalog types and the columns behind a star. None of these rules derives the type
of an expression, so of the engine they ask only that validating a relation keeps what they are to
keep.
-/

namespace SqlAnalysis.Analysis

section Constants

variable [Hushed I]

theorem nullaryFrom_keeps : Keeps s I H (nullaryFrom ops) := by
  induction ops with
  | nil => exact Keeps.pure _
  | cons o ops ih =>
    rw [nullaryFrom]
    split
    · refine .seq (building_keeps (ReturnRule.typeOf_steady _ _ _)) fun answer => ?_
      split
      · exact Keeps.pure _
      · exact ih
    · exact ih

variable [Refusing I H]

theorem charSpec_keeps {id : Link} : Keeps s I H (charSpec id name precision charset) := by
  unfold charSpec
  split
  · exact building_keeps TypeTable.char_steady
  · split
    · exact .refuse
    · exact building_keeps TypeTable.char_steady

theorem builtinSpec_keeps {id : Link} : Keeps s I H (builtinSpec id spec name) := by
  unfold builtinSpec
  dsimp only
  split
  · exact building_keeps TypeTable.decimal_steady
  · exact charSpec_keeps
  · exact charSpec_keeps
  · exact .fault
  · exact building_keeps (TypeTable.ofNamePrecision_steady _ _)

theorem catalogSpec_keeps {id : Link} : Keeps s I H (catalogSpec id names) := by
  unfold catalogSpec
  refine .bind_read (.seq (modifyGet_keeps fun _ => ⟨.of_eq rfl, rfl, rfl, rfl, rfl, rfl, rfl, rfl⟩)
    fun answer => ?_)
  split
  · exact .throw (Refusing.catalog (I := I) _)
  · exact .refuse
  · exact building_keeps (TypeTable.adopt_steady _)

theorem namedType_keeps (id : Link) (spec : TypeSpec) : Keeps s I H (namedType id spec) := by
  unfold namedType
  split
  · split
    · exact builtinSpec_keeps
    · exact catalogSpec_keeps
  · exact catalogSpec_keeps

end Constants

section Lookup

theorem visibleFrom_keeps : Keeps s I H (visibleFrom scope) := by
  exact .bind_get fun a _ => Keeps.pure _

theorem findChild_keeps : Keeps s I H (findChild scope aliasName) := by
  exact .bind_read (.seq visibleFrom_keeps fun _ => Keeps.pure _)

theorem visibleNames_keeps : Keeps s I H (visibleNames scope) := by
  exact .bind_get fun a _ => Keeps.pure _

theorem resolveOutput_keeps [Refusing I H] {id : Link} :
    Keeps s I H (resolveOutput scope id name) := by
  unfold resolveOutput
  refine .bind_get fun a ha => ?_
  split
  · refine .bind_read ?_
    dsimp only
    split
    · exact Keeps.pure _
    · exact Keeps.pure _
    · exact .refuse
  · exact Keeps.pure _

theorem descend_keeps [Hushed I] [Refusing I H] {id : Link} :
    Keeps s I H (descend id owner names r) := by
  induction names generalizing owner r with
  | nil => exact Keeps.pure _
  | cons name names ih =>
    rw [descend]
    split
    · exact .refuse_bind
    refine .seq (field?_keeps r.type name) fun found => ?_
    split
    · exact .seq (similar_keeps name _) fun _ => .refuse
    · dsimp only
      split
      · exact .seq (building_keeps (TypeTable.withNullable_steady true _)) fun _ => ih
      · exact .seq (Keeps.pure _) fun _ => ih

end Lookup

section Relations

variable {e : Engine} {id : Link}

theorem rowOf_keeps (hv : Keeps s I H (e.validate ns target)) :
    Keeps s I H (e.rowOf ns target) := by
  exact .seq hv fun _ => .seq (namespaceOfId_keeps ns) fun _ => Keeps.pure _

variable (hv : ∀ ns, Keeps s I H (e.validate ns .unknown))
include hv

theorem findQualified_keeps : Keeps s I H (findQualified e names vs) := by
  induction vs with
  | nil => exact Keeps.pure _
  | cons v vs ih =>
    rw [findQualified]
    refine .bind_read (.seq (namespaceOfId_keeps _) fun n => ?_)
    split
    · refine .seq (.attempt (hv _)) fun validated => ?_
      split
      · refine .seq (namespaceOfId_keeps _) fun n => ?_
        dsimp only
        split
        · exact Keeps.pure _
        · exact ih
      · exact ih
    · exact ih

theorem findTable_keeps : Keeps s I H (findTable e scope names) := by
  unfold findTable
  split
  · exact findChild_keeps
  · exact .seq visibleFrom_keeps fun vs => findQualified_keeps hv

theorem starSources_keeps [Refusing I H] {star : NodeId} :
    Keeps s I H (starSources e scope star i) := by
  unfold starSources
  refine .bind_get fun a _ => ?_
  dsimp only
  split
  · split
    · exact .refuse
    · exact Keeps.pure _
  split
  case' h_1 => refine .seq (findTable_keeps hv) fun found => ?_
  case' h_2 => refine .seq (Keeps.pure _) fun found => ?_
  all_goals
    split
    · exact Keeps.pure _
    · exact .refuse

variable [Hushed I]

theorem childRow_keeps : Keeps s I H (childRow e c) := by
  refine .seq (rowOf_keeps (hv c.source)) fun row => ?_
  split
  · exact building_keeps (TypeTable.withNullable_steady true row)
  · exact Keeps.pure _

variable [Refusing I H]

theorem columnAmong_keeps : Keeps s I H (columnAmong e id name found vs) := by
  induction vs generalizing found with
  | nil => exact Keeps.pure _
  | cons v vs ih =>
    rw [columnAmong]
    refine .seq (namespaceOfId_keeps _) fun n => ?_
    split
    · exact ih
    refine .seq (childRow_keeps hv) fun row => .seq (field?_keeps row name) fun column => ?_
    split
    · exact ih
    · dsimp only
      split
      · exact .refuse_bind
      · exact ih

theorem columnAlong_keeps : Keeps s I H (columnAlong e id name chain) := by
  induction chain with
  | nil => exact Keeps.pure _
  | cons p chain ih =>
    rw [columnAlong]
    split
    · refine .seq (columnAmong_keeps hv) fun column => ?_
      split
      · exact Keeps.pure _
      · exact ih
    · exact ih

theorem resolveColumn_keeps : Keeps s I H (resolveColumn e scope id name) := by
  exact .bind_get fun a _ => columnAlong_keeps hv

theorem resolveSimple_keeps : Keeps s I H (resolveSimple e scope id name) := by
  unfold resolveSimple
  refine .seq resolveOutput_keeps fun output => ?_
  split
  · exact Keeps.pure _
  refine .seq (resolveColumn_keeps hv) fun column => ?_
  split
  · exact Keeps.pure _
  refine .seq findChild_keeps fun child => ?_
  split
  · exact .seq (childRow_keeps hv) fun _ => Keeps.pure _
  · exact .seq visibleNames_keeps fun _ => .seq (similar_keeps name _) fun _ => .refuse

theorem resolveBelowTable_keeps : Keeps s I H (resolveBelowTable e scope id names k) := by
  induction k with
  | zero => exact Keeps.pure _
  | succ k ih =>
    rw [resolveBelowTable]
    refine .seq (findTable_keeps hv) fun found => ?_
    split
    · exact ih
    · exact .seq (childRow_keeps hv) fun _ => .seq descend_keeps fun _ => Keeps.pure _

theorem resolveCompound_keeps : Keeps s I H (resolveCompound e scope id names) := by
  unfold resolveCompound
  refine .seq (resolveBelowTable_keeps hv) fun found => ?_
  split
  · exact Keeps.pure _
  refine .seq (resolveColumn_keeps hv) fun column => ?_
  split
  · exact descend_keeps
  · exact .seq visibleFrom_keeps fun _ => .seq (similar_keeps _ _) fun _ => .refuse

theorem resolve_keeps (scope : ScopeId) (id : Link) (i : Identifier) :
    Keeps s I H (resolve e scope id i) := by
  unfold resolve
  split
  · exact .refuse
  split
  · exact resolveSimple_keeps hv
  · exact resolveCompound_keeps hv

theorem qualifiedNames?_keeps : Keeps s I H (qualifiedNames? e g names) := by
  unfold qualifiedNames?
  dsimp only
  split
  · exact Keeps.pure _
  split
  · exact Keeps.pure _
  · exact .seq (.attempt (resolve_keeps hv _ none _)) fun _ => Keeps.pure _

theorem sameColumn_keeps (g : Grouping) (x y : List String) : Keeps s I H (sameColumn e g x y) := by
  unfold sameColumn
  refine .bind_read ?_
  dsimp only
  split
  · exact Keeps.pure _
  refine .seq (qualifiedNames?_keeps hv) fun qx => .seq (qualifiedNames?_keeps hv) fun qy => ?_
  split
  · exact Keeps.pure _
  · exact Keeps.pure _

theorem isGroupExpr_keeps : Keeps s I H (isGroupExpr e g id groups) := by
  induction groups with
  | nil => exact Keeps.pure _
  | cons group groups ih =>
    rw [isGroupExpr]
    refine .bind_get fun a _ => .seq (equalUpTo_keeps (sameColumn_keeps hv g) _ _ _) fun same => ?_
    split
    · exact Keeps.pure _
    · exact ih

theorem checkGroupedName_keeps {id : NodeId} : Keeps s I H (checkGroupedName e g id i) := by
  unfold checkGroupedName
  refine .bind_get fun a _ => ?_
  split
  · exact Keeps.pure _
  have hname := Runs.attempt (resolve_keeps hv g.scope id i)
  dsimp only
  split
  · refine .seq (.attempt resolveOutput_keeps) fun output => ?_
    split
    · exact Keeps.pure _
    · refine .seq hname fun r => ?_
      repeat' split
      all_goals first | exact .refuse | exact Keeps.pure _
  · refine .seq hname fun r => ?_
    repeat' split
    all_goals first | exact .refuse | exact Keeps.pure _

end Relations

end SqlAnalysis.Analysis

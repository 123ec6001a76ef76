import SqlAnalysis.Proofs.SqlType.Row
import SqlAnalysis.Proofs.Tree.JoinTree

/-!
The columns of a tree of joins. A join has the columns of its two sides, those of a side that may
lack a match made nullable. Put together from left to right, the columns of the relations at the
leaves, each made nullable if some join around it may lack a match for it, are the columns of the
whole tree.
-/

namespace SqlAnalysis

namespace TypeTable

open TypeM SqlType

variable {T : TypeTable} {nullable : Bool}

/-- The columns `gs` are the columns `fs`, made nullable or not. -/
def Showing (T : TypeTable) (nullable : Bool) (fs gs : List Field) : Prop :=
  if nullable then List.Forall₂ T.NullableColumn fs gs else gs = fs

/-- The row `u` is the row `t`, made nullable or not. -/
def Side (T : TypeTable) (nullable : Bool) (t u : SqlType) : Prop :=
  if nullable then (withNullable true t).Built T u else u = t

theorem Side.later (h : T.Side nullable t u) (hU : T.Extends U) : U.Side nullable t u := by
  unfold Side at *
  split at h
  · rename_i hnull
    rw [if_pos hnull]
    exact h.later (withNullable_steady _ _) hU
  · rename_i hnull
    rwa [if_neg hnull]

theorem Showing.of_append (h : T.Showing nullable (fs ++ fs') gs) :
    ∃ gs₁ gs₂, gs = gs₁ ++ gs₂ ∧ T.Showing nullable fs gs₁ ∧ T.Showing nullable fs' gs₂ := by
  unfold Showing at *
  split at h
  · rename_i hnull
    simp only [if_pos hnull]
    refine ⟨gs.take fs.length, gs.drop fs.length, (List.take_append_drop _ _).symm, ?_, ?_⟩
    · have htake := List.forall₂_take fs.length h
      rwa [List.take_left] at htake
    · have hdrop := List.forall₂_drop fs.length h
      rwa [List.drop_left] at hdrop
  · rename_i hnull
    simp only [if_neg hnull]
    exact ⟨fs, fs', h, rfl, rfl⟩

theorem NullableColumn.unique (h : T.NullableColumn f g) (h' : T.NullableColumn f g') : g = g' :=
  Prod.ext (h.1.trans h'.1.symm) (h.2.unique h'.2)

section Apart

variable (hkeyed : T.Keyed) (hapart : T.TellsRowsApart)
include hkeyed hapart

theorem Side.fields (ht : T.KeepsRow t) (h : T.Side nullable t u) :
    T.Showing nullable t.fields u.fields ∧ T.KeepsRow u := by
  unfold Side at h
  unfold Showing
  split at h
  · rename_i hnull
    rw [if_pos hnull]
    by_cases hrow : t.isRow
    · cases t with
      | row fs n =>
        obtain ⟨gs, hall, rfl, hget⟩ :=
          withNullable_row_built hkeyed hapart (fun f hf => ht.column hf) h
        exact ⟨hall, fun _ => hget⟩
      | _ => cases hrow
    · -- what is no row has no columns, whether it is nullable or not
      have hrow := Bool.eq_false_iff.mpr hrow
      have hu : u.isRow = false := by
        by_cases hn : t.nullable
        · exact Built.unique (withNullable_self hrow hn) h ▸ hrow
        · obtain ⟨s, hs, hn, heq⟩ := withNullable_eq_intern hrow (Bool.eq_false_iff.mpr hn)
          rw [heq] at h
          exact (isRow_of_get? hkeyed hs hn (get?_of_intern_built h)).1
      rw [fields_eq_nil hrow, fields_eq_nil hu]
      exact ⟨.nil, fun h => by rw [hu] at h; cases h⟩
  · rename_i hnull
    rw [if_neg hnull, h]
    exact ⟨rfl, ht⟩

/-- Columns that are shown once more are made nullable if they were so either time. -/
theorem Showing.trans (hfs : ∀ f ∈ fs, T.Column f) (h : T.Showing nullable fs gs)
    (h' : T.Showing again gs hs) : T.Showing (again || nullable) fs hs := by
  cases again with
  | false => exact (show hs = gs from h') ▸ h
  | true =>
    cases nullable with
    | false => exact (show gs = fs from h) ▸ h'
    | true =>
      have hunique : Relator.RightUnique T.NullableColumn := fun _ _ _ h h' => h.unique h'
      have hsame : hs = gs :=
        List.right_unique_forall₂' hunique h' (columns_again hkeyed hapart fs hfs h)
      exact hsame ▸ h

/-- A later table in which all rows are over columns of the table. -/
structure Fits (T U : TypeTable) : Prop where
  later : T.Extends U
  rows : ∀ k fs n, U.get? k = some (.row fs n) → ∀ f ∈ fs, T.Column f

omit hkeyed hapart in
theorem Fits.refl (T : TypeTable) : T.Fits T := ⟨.refl T, fun _ _ _ h _ hf => .kept h hf⟩

omit hkeyed hapart in
theorem Fits.intern {U : TypeTable} (h : T.Fits U) (ht : ∀ f ∈ t.fields, T.Column f) :
    T.Fits (intern t U).2 := by
  refine ⟨h.later.trans (intern_steady U).1, fun k fs n hk f hf => ?_⟩
  unfold TypeTable.intern at hk
  cases hget : U.get? t.key with
  | some kept =>
    rw [hget] at hk
    exact h.rows k fs n hk f hf
  | none =>
    rw [hget] at hk
    have hk := (U.get?_insert _ _ _).symm.trans hk
    split at hk
    · cases hk
      exact ht f hf
    · exact h.rows k fs n hk f hf

theorem Fits.side (h : T.Fits U) (ht : T.KeepsRow t) (hgs : T.Showing nullable t.fields gs) :
    ∃ u V, (if nullable then withNullable true t else pure t : TypeM SqlType) U = (u, V) ∧
      u.fields = gs ∧ T.Fits V := by
  cases nullable with
  | false => exact ⟨t, U, rfl, (show gs = t.fields from hgs).symm, h⟩
  | true =>
    have hgs : List.Forall₂ T.NullableColumn t.fields gs := hgs
    by_cases hrow : t.isRow
    · cases t with
      | row fs n =>
        have hcols := column_of_forall₂ (fun f hf => ht.column hf) hgs
        have hrun : withNullable true (.row fs n) U = TypeTable.intern (.row gs true) U := by
          have hbuilt :=
            (fieldsWithNullable_of_forall₂ hgs).later (fieldsWithNullable_steady _ _) h.later
          rw [withNullable]
          change TypeTable.intern (.row (fieldsWithNullable true fs U).1 true)
            (fieldsWithNullable true fs U).2 = _
          rw [show fieldsWithNullable true fs U = (gs, U) from hbuilt]
        refine ⟨_, _, hrun, ?_, h.intern hcols⟩
        cases hget : U.get? (SqlType.row gs true).key with
        | none => rfl
        | some kept =>
          have hkey := h.later.keyed hkeyed _ _ hget
          obtain ⟨hs, rfl⟩ := eq_row_of_key hkey
          exact hapart hs gs true (fun f hf => h.rows _ _ _ hget f hf) hcols hkey
      | _ => cases hrow
    · have hrow := Bool.eq_false_iff.mpr hrow
      rw [fields_eq_nil hrow] at hgs
      cases hgs
      by_cases hn : t.nullable
      · exact ⟨t, U, withNullable_self hrow hn, fields_eq_nil hrow, h⟩
      · obtain ⟨s, hs, hn, heq⟩ := withNullable_eq_intern hrow (Bool.eq_false_iff.mpr hn)
        refine ⟨_, _, congrFun heq U, fields_eq_nil ?_,
          h.intern fun f hf => by rw [fields_eq_nil hs] at hf; cases hf⟩
        exact (isRow_of_get? (h.later.keyed hkeyed |> (intern_steady U).1.keyed)
          hs hn get?_intern).1

end Apart

end TypeTable

namespace JoinTree

open TypeM

variable {T : TypeTable} {src : JoinTree}

/-- The tree of joins has the row type `R`, built in the table `T`; `row` says what row types the
relations and joins have been found to have. -/
inductive Typed (T : TypeTable) (row : NodeId → SqlType → Prop) : JoinTree → SqlType → Prop where
  | relation {i : NodeId} {R : SqlType} : row i R → T.KeepsRow R → Typed T row (.relation i) R
  | join {j : NodeId} {type : JoinType} {l r : JoinTree} {L M L' M' R : SqlType} : row j R →
    Typed T row l L → Typed T row r M → T.Side type.leftNullable L L' → T.Side type.rightNullable
    M M' → (TypeTable.row (L'.fields ++ M'.fields)).Built T R → Typed T row (.join j type l r) R

def LeafShows (T : TypeTable) (row : NodeId → SqlType → Prop) (p : NodeId × Bool)
    (fs : List Field) : Prop :=
  ∃ R, row p.1 R ∧ T.KeepsRow R ∧ T.Showing p.2 R.fields fs

variable (hkeyed : T.Keyed) (hapart : T.TellsRowsApart)
include hkeyed hapart

theorem Typed.keepsRow (h : src.Typed T row R) : T.KeepsRow R := by
  induction h with
  | relation _ hkeep => exact hkeep
  | join _ _ _ hl hr hrow ihl ihr =>
    have hcols : ∀ f ∈ _ ++ _, T.Column f := fun f hf => (List.mem_append.mp hf).elim
      (fun hf => (hl.fields hkeyed hapart ihl).2.column hf) fun hf =>
      (hr.fields hkeyed hapart ihr).2.column hf
    have hget := TypeTable.get?_of_intern_built hrow
    have heq := TypeTable.eq_row_of_get? hkeyed hapart hcols hget
    exact fun _ => heq ▸ hget

theorem Typed.leaves_show (h : src.Typed T row R) (hfs : T.Showing nullable R.fields fs) :
    ∃ fss, List.Forall₂ (LeafShows T row) (src.leavesUnder nullable) fss ∧ fss.flatten = fs := by
  induction h generalizing nullable fs with
  | relation hrow hkeep =>
    rw [leavesUnder_relation]
    exact ⟨[fs], .cons ⟨_, hrow, hkeep, hfs⟩ .nil, by simp⟩
  | @join j type l r L M L' M' R _ htl htr hl hr hrow ihl ihr =>
    obtain ⟨hL, hL'⟩ := hl.fields hkeyed hapart (htl.keepsRow hkeyed hapart)
    obtain ⟨hM, hM'⟩ := hr.fields hkeyed hapart (htr.keepsRow hkeyed hapart)
    have hcols : ∀ f ∈ L'.fields ++ M'.fields, T.Column f := fun f hf =>
      (List.mem_append.mp hf).elim (fun hf => hL'.column hf) fun hf => hM'.column hf
    rw [TypeTable.eq_row_of_get? hkeyed hapart hcols (TypeTable.get?_of_intern_built hrow),
      SqlType.fields] at hfs
    obtain ⟨fs₁, fs₂, rfl, h₁, h₂⟩ := hfs.of_append
    have hleft := TypeTable.Showing.trans hkeyed hapart (fun f hf =>
      (htl.keepsRow hkeyed hapart).column hf) hL h₁
    have hright := TypeTable.Showing.trans hkeyed hapart (fun f hf =>
      (htr.keepsRow hkeyed hapart).column hf) hM h₂
    obtain ⟨ls, hls, rfl⟩ := ihl hleft
    obtain ⟨rs, hrs, rfl⟩ := ihr hright
    rw [leavesUnder_join]
    exact ⟨ls ++ rs, List.rel_append hls hrs, List.flatten_append⟩

end JoinTree

end SqlAnalysis

import Mathlib.Data.List.Forall2
import SqlAnalysis.Proofs.SqlType.Table
import SqlAnalysis.Proofs.Text.Joined

/-!
Row types in a type table. A table keeps one type for each text, so a row that is built is the row
that was meant only if no other row has its text. `TellsRowsApart` says so of all rows over the
columns of a table; then building a row gives a row with just these fields, and making its columns
nullable twice is making them nullable once.
-/

namespace SqlAnalysis

namespace SqlType

theorem toList_scalar : ∃ rest, (scalar s n).fullText.toList = s.name.toText.toList ++ rest := by
  have hmore {text more : String} (h : ∃ rest, text.toList = s.name.toText.toList ++ rest) :
      ∃ rest, (text ++ more).toList = s.name.toText.toList ++ rest := by
    obtain ⟨rest, hrest⟩ := h
    exact ⟨rest ++ more.toList, by rw [String.toList_append, hrest, List.append_assoc]⟩
  have hhead : ∃ rest, (if s.name = .decimal then
      "DECIMAL(" ++ Number.intText s.precision ++ ", " ++ Number.intText s.scale ++ ")"
      else s.name.toText ++ s.precisionText).toList = s.name.toText.toList ++ rest := by
    split
    · rename_i hname
      exact hmore (hmore (hmore (hmore ⟨['('], by rw [hname]; rfl⟩)))
    · exact ⟨_, String.toList_append⟩
  have htext : ∃ rest, (s.toText true).toList = s.name.toText.toList ++ rest := by
    unfold Scalar.toText
    dsimp only
    split
    · exact hmore (hmore (hmore (hmore (hmore (hmore hhead)))))
    · exact hhead
  rw [fullText, render, notNull]
  split
  · exact htext
  · exact hmore htext

theorem toList_row :
    ∃ text, (row fs n).fullText.toList = 'R' :: 'e' :: (text ++ [')']) := by
  refine ⟨"cordType(".toList ++ (Text.join ", " (renderFields true fs)).toList, ?_⟩
  rw [fullText, render, String.toList_append, String.toList_append]
  rfl

theorem getLast?_multiset (e : SqlType) (n : Bool) :
    (multiset e n).fullText.toList.getLast? = some (if n then 'T' else 'L') := by
  rw [fullText, render, notNull]
  split
  · rw [String.toList_append, show " MULTISET".toList = " MULTISE".toList ++ ['T'] from rfl,
      ← List.append_assoc]
    exact List.getLast?_concat
  · rw [String.toList_append, show " NOT NULL".toList = " NOT NUL".toList ++ ['L'] from rfl,
      ← List.append_assoc]
    exact List.getLast?_concat

theorem isRow_of_fullText {t : SqlType} (h : t.fullText = (row fs n).fullText) : t.isRow := by
  obtain ⟨text, htext⟩ := toList_row
  rw [← h] at htext
  cases t with
  | row => rfl
  | scalar s m =>
    obtain ⟨rest, hrest⟩ := toList_scalar
    rw [hrest] at htext
    have hname : ∀ name : ScalarName, ∀ rest text : List Char,
        name.toText.toList ++ rest ≠ 'R' :: 'e' :: text := by
      intro name rest text
      cases name <;> simp [ScalarName.toText]
    exact absurd htext (hname _ _ _)
  | interval q m =>
    rw [fullText, render, notNull] at htext
    split at htext <;> simp [String.toList_append] at htext
  | multiset e m =>
    -- a row ends in a parenthesis, a multiset in one of its words
    have hlast : (multiset e m).fullText.toList.getLast? = some ')' := by
      rw [htext, ← List.cons_append, ← List.cons_append]
      exact List.getLast?_concat
    rw [getLast?_multiset] at hlast
    split at hlast <;> cases hlast
  | null => simp [fullText, render] at htext
  | unknown => simp [fullText, render] at htext

theorem fields_eq_nil {t : SqlType} (h : t.isRow = false) : t.fields = [] := by
  cases t with
  | row => cases h
  | _ => rfl

end SqlType

/-- The step has been taken before: it gives `v` and adds nothing. -/
def TypeM.Built {α : Type} (x : TypeM α) (T : TypeTable) (v : α) : Prop := x T = (v, T)

namespace TypeM.Built

variable {x : TypeM α} {f : α → TypeM β} {T : TypeTable}

theorem of_run (hx : x.Steady) (h : x T = (v, U)) (hU : U.Extends V) : x.Built V v := by
  have hagain := (hx T).2 V (by rw [h]; exact hU)
  rwa [h] at hagain

theorem later (hx : x.Steady) (h : x.Built T v) (hU : T.Extends U) : x.Built U v := of_run hx h hU

theorem unique (h : x.Built T v) (h' : x.Built T w) : v = w := congrArg Prod.fst (h.symm.trans h')

theorem bind {w : β} (hx : x.Built T v) (hf : (f v).Built T w) : (x >>= f).Built T w := by
  have hrun : (x >>= f) T = f (x T).1 (x T).2 := rfl
  rw [Built, hrun, hx]
  exact hf

theorem of_bind (hx : x.Steady) (hf : ∀ v, (f v).Steady) {w : β} (h : (x >>= f).Built T w) :
    ∃ v, x.Built T v ∧ (f v).Built T w := by
  have hrun : f (x T).1 (x T).2 = (w, T) := h
  have hlater : (x T).2.Extends T := by
    have hext := (hf (x T).1 (x T).2).1
    rwa [hrun] at hext
  have hx' : x T = ((x T).1, T) := (hx T).2 T hlater
  refine ⟨(x T).1, hx', ?_⟩
  rw [hx'] at hrun
  exact hrun

end TypeM.Built

namespace TypeTable

open TypeM SqlType

variable {T : TypeTable} {t u : SqlType}

theorem get?_of_intern_built (h : (intern t).Built T u) : T.get? t.key = some u := by
  unfold Built intern at h
  cases hk : T.get? t.key with
  | some kept =>
    rw [hk] at h
    exact congrArg some (congrArg Prod.fst h)
  | none =>
    rw [hk] at h
    have hT : T.insert t.key t = T := congrArg Prod.snd h
    have hget : (T.insert t.key t).get? t.key = some t := by rw [Table.get?_insert, if_pos rfl]
    rw [hT, hk] at hget
    cases hget

theorem intern_built (h : T.get? t.key = some u) : (intern t).Built T u := by
  unfold Built intern
  rw [h]

theorem get?_intern : (intern t T).2.get? t.key = some (intern t T).1 := by
  unfold intern
  cases hk : T.get? t.key with
  | some kept => exact hk
  | none => exact (T.get?_insert _ _ _).trans (if_pos rfl)

theorem get?_adopt (h : (adopt t T).1.isRow) : ∃ k, (adopt t T).2.get? k = some (adopt t T).1 := by
  cases t with
  | unknown => cases h
  | row fs n =>
    rw [adopt]
    exact ⟨_, get?_intern⟩
  | multiset e n =>
    rw [adopt]
    exact ⟨_, get?_intern⟩
  | scalar | interval | null => exact ⟨_, get?_intern⟩

theorem eq_row_of_key (h : t.key = (SqlType.row fs n).key) : ∃ gs, t = .row gs n := by
  have hrow := isRow_of_fullText (n := n) (congrArg TypeKey.text h)
  have hnull : t.nullable = n := congrArg TypeKey.nullable h
  cases t with
  | row gs m => exact ⟨gs, by rw [show m = n from hnull]⟩
  | _ => cases hrow

/-- The columns that can come up in the rows of a table: those of the rows it keeps, those of
columns that are rows themselves, and these columns made nullable. -/
inductive Column (T : TypeTable) : Field → Prop where
  | kept {k : TypeKey} {fs : List Field} {n : Bool} {f : Field} : T.get? k = some (.row fs n) →
    f ∈ fs → Column T f
  | part {name : String} {fs : List Field} {n : Bool} {f : Field} : Column T (name, .row fs n) →
    f ∈ fs → Column T f
  | nullable {f : Field} : Column T f → Column T (f.1, (withNullable true f.2 T).1)

/-- Rows over the columns of the table have different texts if they are different. -/
def TellsRowsApart (T : TypeTable) : Prop :=
  ∀ fs gs n, (∀ f ∈ fs, T.Column f) → (∀ f ∈ gs, T.Column f) →
    (SqlType.row fs n).key = (SqlType.row gs n).key → fs = gs

/-- The type, if it is a row, is one that the table keeps. -/
def KeepsRow (T : TypeTable) (t : SqlType) : Prop := t.isRow → T.get? t.key = some t

/-- The column `g` is the column `f` made nullable, which has been done before. -/
def NullableColumn (T : TypeTable) (f g : Field) : Prop :=
  g.1 = f.1 ∧ (withNullable true f.2).Built T g.2

theorem KeepsRow.of_get? (hkeyed : T.Keyed) (h : t.isRow → ∃ k, T.get? k = some t) :
    T.KeepsRow t := by
  intro hrow
  obtain ⟨k, hk⟩ := h hrow
  rwa [hkeyed k t hk]

theorem KeepsRow.column (h : T.KeepsRow t) (hf : f ∈ t.fields) : T.Column f := by
  cases t with
  | row fs n => exact .kept (h rfl) hf
  | _ => cases hf

theorem NullableColumn.column (hf : T.Column f) (h : T.NullableColumn f g) : T.Column g := by
  obtain ⟨name, t⟩ := f
  obtain ⟨name', u⟩ := g
  obtain ⟨rfl, h⟩ := h
  have hu : (withNullable true t T).1 = u := congrArg Prod.fst h
  exact hu ▸ hf.nullable

theorem column_of_forall₂ (hfs : ∀ f ∈ fs, T.Column f) (h : List.Forall₂ T.NullableColumn fs gs) :
    ∀ g ∈ gs, T.Column g := by
  induction h with
  | nil => nofun
  | cons hfg _ ih =>
    rw [List.forall_mem_cons] at hfs ⊢
    exact ⟨hfg.column hfs.1, ih hfs.2⟩

theorem forall₂_of_fieldsWithNullable (h : (fieldsWithNullable true fs).Built T gs) :
    List.Forall₂ T.NullableColumn fs gs := by
  induction fs generalizing gs with
  | nil =>
    have hgs : [] = gs := congrArg Prod.fst h
    exact hgs ▸ .nil
  | cons f fs ih =>
    obtain ⟨name, t⟩ := f
    rw [fieldsWithNullable] at h
    obtain ⟨u, hu, h⟩ := Built.of_bind (withNullable_steady _ _)
      (fun _ => (fieldsWithNullable_steady _ _).bind fun _ => .pure _) h
    obtain ⟨us, hus, h⟩ := Built.of_bind (fieldsWithNullable_steady _ _) (fun _ => .pure _) h
    have hgs : (name, u) :: us = gs := congrArg Prod.fst h
    exact hgs ▸ .cons ⟨rfl, hu⟩ (ih hus)

theorem fieldsWithNullable_of_forall₂ (h : List.Forall₂ T.NullableColumn fs gs) :
    (fieldsWithNullable true fs).Built T gs := by
  induction h with
  | nil => rfl
  | @cons f g fs gs hfg _ ih =>
    obtain ⟨name, t⟩ := f
    obtain ⟨name', u⟩ := g
    obtain ⟨rfl, hu⟩ := hfg
    unfold Built at hu ih ⊢
    have hrun : fieldsWithNullable true ((name', t) :: fs) T =
        (((name', (withNullable true t T).1) ::
        (fieldsWithNullable true fs (withNullable true t T).2).1),
          (fieldsWithNullable true fs (withNullable true t T).2).2) := by
      rw [fieldsWithNullable]
      rfl
    rw [hrun, hu, ih]

theorem withNullable_self (hrow : t.isRow = false) (hn : t.nullable) :
    (withNullable true t).Built T t := by
  cases t with
  | row => cases hrow
  | unknown | null => rfl
  | scalar | interval | multiset =>
    cases hn
    rw [withNullable, if_pos rfl]
    rfl

theorem withNullable_eq_intern (hrow : t.isRow = false) (hn : t.nullable = false) :
    ∃ s : SqlType, s.isRow = false ∧ s.nullable ∧ withNullable true t = intern s := by
  cases t with
  | row => cases hrow
  | unknown | null => cases hn
  | scalar s n =>
    cases hn
    exact ⟨.scalar s true, rfl, rfl, by rw [withNullable, if_neg nofun]⟩
  | interval q n =>
    cases hn
    exact ⟨.interval q true, rfl, rfl, by rw [withNullable, if_neg nofun]⟩
  | multiset e n =>
    cases hn
    exact ⟨.multiset e true, rfl, rfl, by rw [withNullable, if_neg nofun]⟩

theorem isRow_of_get? (hkeyed : T.Keyed) (hrow : u.isRow = false) (hn : u.nullable)
    (h : T.get? u.key = some t) : t.isRow = false ∧ t.nullable := by
  have hkey := hkeyed _ _ h
  refine ⟨?_, (congrArg TypeKey.nullable hkey).trans hn⟩
  cases t with
  | row gs m =>
    rw [isRow_of_fullText (n := m) (congrArg TypeKey.text hkey.symm)] at hrow
    cases hrow
  | _ => rfl

section Apart

variable (hkeyed : T.Keyed) (hapart : T.TellsRowsApart)
include hkeyed hapart

theorem eq_row_of_get? (hfs : ∀ f ∈ fs, T.Column f) (h : T.get? (SqlType.row fs n).key = some t) :
    t = .row fs n := by
  have hkey := hkeyed _ _ h
  obtain ⟨gs, rfl⟩ := eq_row_of_key hkey
  rw [hapart gs fs n (fun f hf => .kept h hf) hfs hkey]

theorem withNullable_row_built (hfs : ∀ f ∈ fs, T.Column f)
    (h : (withNullable true (.row fs n)).Built T t) :
    ∃ gs, List.Forall₂ T.NullableColumn fs gs ∧ t = .row gs true ∧ T.get? t.key = some t := by
  rw [withNullable] at h
  obtain ⟨gs, hgs, h⟩ := Built.of_bind (fieldsWithNullable_steady _ _) (fun _ => intern_steady) h
  have hall := forall₂_of_fieldsWithNullable hgs
  have hget := get?_of_intern_built h
  have ht := eq_row_of_get? hkeyed hapart (column_of_forall₂ hfs hall) hget
  exact ⟨gs, hall, ht, ht ▸ hget⟩

end Apart

mutual
theorem withNullable_again {name : String} (hkeyed : T.Keyed) (hapart : T.TellsRowsApart)
    (t : SqlType) (ht : T.Column (name, t)) {u : SqlType} (h : (withNullable true t).Built T u) :
    (withNullable true u).Built T u := by
  by_cases hrow : t.isRow
  · cases t with
    | row fs n =>
      obtain ⟨gs, hall, rfl, hget⟩ :=
        withNullable_row_built hkeyed hapart (fun f hf => .part ht hf) h
      rw [withNullable]
      have hagain := columns_again hkeyed hapart fs (fun f hf => .part ht hf) hall
      exact .bind (fieldsWithNullable_of_forall₂ hagain) (intern_built hget)
    | _ => cases hrow
  · have hrow := Bool.eq_false_iff.mpr hrow
    by_cases hn : t.nullable
    · cases Built.unique (withNullable_self hrow hn) h
      exact h
    · obtain ⟨s, hs, hnull, heq⟩ := withNullable_eq_intern hrow (Bool.eq_false_iff.mpr hn)
      rw [heq] at h
      obtain ⟨hu, hun⟩ := isRow_of_get? hkeyed hs hnull (get?_of_intern_built h)
      exact withNullable_self hu hun

theorem columns_again (hkeyed : T.Keyed) (hapart : T.TellsRowsApart) (fs : List Field)
    (hfs : ∀ f ∈ fs, T.Column f) {gs : List Field} (h : List.Forall₂ T.NullableColumn fs gs) :
    List.Forall₂ T.NullableColumn gs gs := by
  cases fs with
  | nil => cases h; exact .nil
  | cons f fs =>
    cases h with
    | cons hfg hrest =>
      have hf : T.Column (f.1, f.2) := hfs f List.mem_cons_self
      exact .cons ⟨rfl, withNullable_again hkeyed hapart f.2 hf hfg.2⟩
        (columns_again hkeyed hapart fs (fun g hg => hfs g (List.mem_cons_of_mem f hg)) hrest)
end

end TypeTable

/-! ### Tables of scalar columns -/

namespace SqlType

def columnText (f : Field) : String := f.2.fullText ++ " " ++ f.1

theorem renderFields_eq_map : renderFields true fs = fs.map columnText := by
  induction fs with
  | nil => rfl
  | cons f fs ih =>
    obtain ⟨name, t⟩ := f
    rw [renderFields, ih]
    rfl

end SqlType

theorem Table.mem_entries_of_get? [DecidableEq κ] {t : Table κ α} (h : t.get? k = some v) :
    (k, v) ∈ t.entries := by
  unfold get? at h
  generalize t.entries = es at h
  induction es with
  | nil => cases h
  | cons e es ih =>
    obtain ⟨k', v'⟩ := e
    rw [find] at h
    split at h
    · cases h
      rename_i hk
      exact hk ▸ List.mem_cons_self
    · exact List.mem_cons_of_mem _ (ih h)

namespace TypeTable

open TypeM SqlType

variable {T : TypeTable}

def sameScalar (f g : Field) : Bool :=
  match f.2, g.2 with
  | .scalar s n, .scalar s' n' => f.1 == g.1 && s == s' && n == n'
  | _, _ => false

theorem eq_of_sameScalar (h : sameScalar f g) : f = g := by
  obtain ⟨name, t⟩ := f
  obtain ⟨name', u⟩ := g
  unfold sameScalar at h
  split at h
  · rename_i s n s' n' ht hu
    simp only [Bool.and_eq_true, beq_iff_eq] at h
    obtain ⟨⟨rfl, rfl⟩, rfl⟩ := h
    cases ht
    cases hu
    rfl
  · cases h

/-- The columns of the table are among these scalars, whose texts hold no comma and are all
different. -/
def hasColumns (T : TypeTable) (cols : List Field) : Bool :=
  T.entries.all (fun p => p.2.fields.all fun f => cols.any (sameScalar f)) &&
    cols.all (fun f => cols.any (sameScalar (f.1, (withNullable true f.2 T).1)) &&
    !(columnText f).toList.contains ',' &&
      cols.all fun g => columnText f != columnText g || sameScalar f g)

theorem tellsRowsApart_of_hasColumns {cols : List Field} (h : T.hasColumns cols) :
    T.TellsRowsApart := by
  simp only [hasColumns, Bool.and_eq_true, List.all_eq_true, List.any_eq_true, Bool.or_eq_true] at h
  obtain ⟨hkept, hcols⟩ := h
  have hmem {f : Field} (hf : ∃ g ∈ cols, sameScalar f g) : f ∈ cols := by
    obtain ⟨g, hg, hfg⟩ := hf
    exact eq_of_sameScalar hfg ▸ hg
  have hcolumn {f : Field} (hf : T.Column f) : f ∈ cols := by
    induction hf with
    | kept hk hf => exact hmem (hkept _ (Table.mem_entries_of_get? hk) _ hf)
    | part _ _ ih => exact ((hcols _ ih).2 _ ih).elim (fun h => absurd rfl (bne_iff_ne.mp h)) nofun
    | nullable _ ih => exact hmem (hcols _ ih).1.1
  have hplain {fs : List Field} (hfs : ∀ f ∈ fs, T.Column f) : ∀ u ∈ (fs.map columnText).map
      String.toList, ',' ∉ u ∧ u ≠ [] := by
    intro u hu
    obtain ⟨_, htext, rfl⟩ := List.mem_map.mp hu
    obtain ⟨f, hf, rfl⟩ := List.mem_map.mp htext
    refine ⟨by simpa using (hcols f (hcolumn (hfs f hf))).1.2, ?_⟩
    rw [columnText, String.toList_append, String.toList_append]
    simp
  intro fs gs n hfs hgs hkey
  have htext : (SqlType.row fs n).fullText = (SqlType.row gs n).fullText :=
    congrArg TypeKey.text hkey
  rw [fullText, fullText, render, render, String.append_left_inj, String.append_right_inj] at htext
  have hjoined : ", ".toList.intercalate ((fs.map columnText).map String.toList) =
      ", ".toList.intercalate ((gs.map columnText).map String.toList) := by
    rw [← String.toList_intercalate, ← String.toList_intercalate, ← renderFields_eq_map,
      ← renderFields_eq_map]
    exact congrArg String.toList htext
  have hnil {fs gs : List Field} (hgs : ∀ g ∈ gs, T.Column g)
      (h : ", ".toList.intercalate ((fs.map columnText).map String.toList) = ", ".toList.intercalate
      ((gs.map columnText).map String.toList)) (hfs : (fs.map columnText).map
      String.toList = []) : (gs.map columnText).map String.toList = [] :=
    Text.eq_nil_of_intercalate_eq_nil (fun v hv => (hplain hgs v hv).2)
      (h.symm.trans (by rw [hfs]; rfl))
  have htexts : (fs.map columnText).map String.toList = (gs.map columnText).map String.toList :=
    Text.intercalate_injective Text.eq_of_append_eq (fun u hu => (hplain hfs u hu).1)
      (fun u hu => (hplain hgs u hu).1) ⟨hnil hgs hjoined, hnil hfs hjoined.symm⟩ hjoined
  replace htexts := List.map_injective_iff.mpr (fun _ _ => String.toList_inj.mp) htexts
  have hsame {f g : Field} (hf : T.Column f) (hg : T.Column g)
      (h : columnText f = columnText g) : f = g :=
    ((hcols f (hcolumn hf)).2 g (hcolumn hg)).elim (fun hne => absurd h (bne_iff_ne.mp hne))
      eq_of_sameScalar
  clear hkey htext hjoined
  induction fs generalizing gs with
  | nil => exact (List.map_eq_nil_iff.mp htexts.symm).symm
  | cons f fs ih =>
    cases gs with
    | nil => cases htexts
    | cons g gs =>
      rw [List.map_cons, List.map_cons, List.cons.injEq] at htexts
      rw [List.forall_mem_cons] at hfs hgs
      rw [hsame hfs.1 hgs.1 htexts.1, ih gs hfs.2 hgs.2 htexts.2]

end TypeTable
end SqlAnalysis

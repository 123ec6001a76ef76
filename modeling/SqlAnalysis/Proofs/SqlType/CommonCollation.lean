import SqlAnalysis.Proofs.SqlType.Interning

/-!
Collations of common strings. The common type of character types takes the firmest of their
collations without combining them. Where they do combine, one after the other, the firmest is also
what they combine to. The text of a type does not show the character set of its collation, so this
holds in tables whose character types have the character set of their collation: `Collated`.
-/

namespace SqlAnalysis

/-- One of the ways in which a collation is attached to a value. -/
def Coercibility.isListed : Coercibility → Bool
  | .unlisted _ => false
  | _ => true

theorem Collation.merge_eq (hr : r.coercibility.isListed) (h : merge l r = .ok m) :
    m = if r.coercibility.rank > l.coercibility.rank then r else l := by
  unfold merge at h
  cases hl : l.coercibility with
  | unlisted => rw [hl] at h; cases h
  | _ =>
    cases hr' : r.coercibility with
    | unlisted => rw [hr'] at hr; cases hr
    | _ =>
      rw [hl, hr'] at h
      simp only [Coercibility.rank]
      grind

namespace TypeTable

open SqlType TypeM

variable {T : TypeTable} {t : SqlType} {ts : List SqlType} {s : Scalar} {ss : List Scalar}
  {m : Collation} {set : String}

theorem foldl_extend_collation (hb : b.collation.charset = set)
    (hss : ∀ s ∈ ss, s.collation.coercibility.isListed ∧ s.collation.charset = set)
    (h : (ss.map Scalar.collation).foldlM Collation.merge b.collation = .ok m) :
    (ss.foldl (StringBound.extend varying) b).collation = m ∧ m.charset = set := by
  induction ss generalizing b with
  | nil => exact Except.ok.inj h ▸ ⟨rfl, hb⟩
  | cons s ss ih =>
    rw [List.forall_mem_cons] at hss
    rw [List.map_cons, List.foldlM_cons] at h
    cases hm : Collation.merge b.collation s.collation with
    | error e =>
      rw [hm] at h
      cases h
    | ok c =>
      rw [hm] at h
      have hc : (b.extend varying s).collation = c := (Collation.merge_eq hss.1.1 hm).symm
      refine ih (b := b.extend varying s) ?_ hss.2 (hc ▸ h)
      rw [StringBound.extend]
      dsimp only
      split
      · exact hss.1.2
      · exact hb

theorem exists_scalars (hchar : ∀ t ∈ ts, t.isChar) :
    ∃ ss, ts.mapM scalar? = some ss ∧ ts.map SqlType.collation = ss.map Scalar.collation ∧
      ∀ s ∈ ss, s.name.isChar ∧ ∃ n, .scalar s n ∈ ts := by
  induction ts with
  | nil => exact ⟨[], rfl, rfl, by simp⟩
  | cons t ts ih =>
    rw [List.forall_mem_cons] at hchar
    obtain ⟨ss, hmap, hcollations, hss⟩ := ih hchar.2
    cases t with
    | scalar s n =>
      have hscalars : (SqlType.scalar s n :: ts).mapM scalar? = some (s :: ss) := by
        rw [List.mapM_cons, hmap]
        rfl
      refine ⟨s :: ss, hscalars, congrArg (s.collation :: ·) hcollations, ?_⟩
      refine List.forall_mem_cons.mpr ⟨⟨hchar.1, n, List.mem_cons_self⟩,
        fun s' hs' => (hss s' hs').imp_right ?_⟩
      exact fun ⟨n', hn'⟩ => ⟨n', List.mem_cons_of_mem _ hn'⟩
    | _ => cases hchar.1

theorem leastRestrictive_eq_leastString (hchar : ∀ t ∈ SqlType.scalar s n :: ts, t.isChar) :
    leastRestrictive (.scalar s n :: ts) = (do
      match ← leastString ScalarName.isChar .char .varchar s ts with
      | none => pure none
      | some t => some <$> withNullable (anyNullable (.scalar s n :: ts) || t.nullable) t) := by
  have hname {a : ScalarName} (h : a.isChar) : a ≠ .any ∧ a.isNumeric = false := by
    cases a with
    | char | varchar => exact ⟨nofun, rfl⟩
    | _ => cases h
  have hknown : ∀ t ∈ SqlType.scalar s n :: ts, t.isUnknown = false ∧ t.isNull = false ∧
      t.isAny = false := by
    intro t ht
    have hchar := hchar t ht
    cases t with
    | scalar a k => exact ⟨rfl, rfl, beq_eq_false_iff_ne.mpr (hname hchar).1⟩
    | _ => cases hchar
  have hself : s.name.isChar := hchar _ List.mem_cons_self
  have hunknown : (SqlType.scalar s n :: ts).any isUnknown = false :=
    List.any_eq_false.mpr fun t ht => by simp [hknown t ht]
  have hany : (SqlType.scalar s n :: ts).any isAny = false := List.any_eq_false.mpr fun t ht => by
    simp [hknown t ht]
  have hfilter : (SqlType.scalar s n :: ts).filter (fun t => !t.isNull) = .scalar s n :: ts :=
    List.filter_eq_self.mpr fun t ht => by simp [hknown t ht]
  have hknown (least : List SqlType → TypeM (Option SqlType)) :
      leastKnown least (.scalar s n) ts = leastString ScalarName.isChar .char .varchar s ts := by
    simp only [leastKnown, hany, hself, (hname hself).2, Bool.false_eq_true, if_false, if_true]
  rw [leastRestrictive, leastRestrictiveUpTo, hunknown, hfilter]
  exact congrArg (· >>= _) (hknown _)

theorem leastString_eq_char (hmap : ts.mapM scalar? = some ss)
    (hss : ∀ a ∈ ss, a.name.isChar ∧ a.charset = s.charset) : ∃ name precision, name.isChar ∧
      leastString ScalarName.isChar .char .varchar s ts = some <$> char name precision
      ((s :: ss).foldl (StringBound.extend .varchar) ⟨false, 0, s.collation⟩).collation := by
  have hall : ss.all (fun a => a.name.isChar && a.charset == s.charset) :=
    List.all_eq_true.mpr fun a ha => by simp [hss a ha]
  simp only [leastString, hmap, hall, if_true]
  split
  · exact ⟨.varchar, _, rfl, rfl⟩
  · exact ⟨.char, _, rfl, rfl⟩

/-- Types are kept under their keys, and character types have the character sets of their
collations. -/
structure Collated (T : TypeTable) : Prop where
  keyed : T.Keyed
  charset : ∀ k s n, T.get? k = some (.scalar s n) → s.name.isChar → s.charset = s.collation.charset

theorem legible_of_isChar (hchar : s.name.isChar) (hset : s.charset = s.collation.charset) :
    s.Legible := by
  refine ⟨fun h => ?_, fun _ => hset⟩
  rcases h with h | h <;> rw [h] at hchar <;> cases hchar

theorem eq_scalar_of_key (hchar : s.name.isChar)
    (hset : s.charset = s.collation.charset) (hk : t.key = (SqlType.scalar s n).key)
    (ht : ∀ a k, t = .scalar a k → a.name.isChar → a.charset = a.collation.charset) :
    ∃ a, t = .scalar a n ∧ a.name.isChar ∧ a.charset = a.collation.charset ∧
      a.collation = s.collation := by
  have hs := legible_of_isChar hchar hset
  have hnull : t.nullable = n := congrArg TypeKey.nullable hk
  have htext : t.fullText = (SqlType.scalar s n).fullText := congrArg TypeKey.text hk
  have hrow : t.isRow = false := by
    cases t with
    | row fs k => cases isRow_of_fullText htext.symm
    | _ => rfl
  -- but for a row, the nullability says what stands at the end of the text
  have hbare : t.bare = (SqlType.scalar s n).bare := by
    have hends : t.excludesNull = (SqlType.scalar s n).excludesNull := by
      cases t with
      | row => cases hrow
      | _ => subst hnull; rfl
    rw [fullText_eq, fullText_eq, hends] at htext
    exact String.append_left_inj _ |>.mp htext
  have hmultiset : t.isMultiset = false := by
    cases t with
    | multiset e k =>
      have hsuffix : (SqlType.scalar s n).bare.toList =
          e.fullText.toList ++ ([] ++ ' ' :: "MULTISET".toList) := by
        rw [← hbare, bare, String.toList_append]
        rfl
      exact (not_suffix_bare (t := .scalar s n) hs (by decide) nofun [] ⟨_, hsuffix.symm⟩).elim
    | _ => rfl
  have hword : t.leading = (SqlType.scalar s n).leading := by
    rw [← String.toList_inj, ← firstWord_bare hmultiset, ← firstWord_bare rfl, hbare]
  have hform := sameForm_of_leading hmultiset hword
  cases t with
  | scalar a k =>
    have hname : a.name = s.name := ScalarName.toText_injective hword
    have hachar : a.name.isChar := hname ▸ hchar
    have haset := ht a k rfl hachar
    rw [bare, bare, ← String.toList_inj, Scalar.toList_toText, Scalar.toList_toText] at hbare
    obtain ⟨_, hcollation⟩ :=
      Scalar.texts_eq hname (fun h => by rw [h] at hachar; cases hachar) hbare
    refine ⟨a, by rw [show k = n from hnull], hachar, haset, ?_⟩
    exact (Scalar.collation_eq (legible_of_isChar hachar haset) hs hachar hchar hcollation).2
  | _ => cases hform

theorem intern_collated (hT : T.Collated)
    (hchar : s.name.isChar) (hset : s.charset = s.collation.charset) :
    (intern (.scalar s n) T).2.Collated ∧ ∃ a, (intern (.scalar s n) T).1 = .scalar a n ∧
      a.name.isChar ∧ a.charset = a.collation.charset ∧ a.collation = s.collation := by
  have hkeyed := (intern_steady (t := .scalar s n) T).1.keyed hT.keyed
  unfold intern at *
  cases hk : T.get? (SqlType.scalar s n).key with
  | some u =>
    exact ⟨hT, eq_scalar_of_key hchar hset (hT.keyed _ _ hk) fun a k (ha : u = _) =>
      hT.charset _ a k (ha ▸ hk)⟩
  | none =>
    rw [hk] at hkeyed
    refine ⟨⟨hkeyed, fun k a m hu => ?_⟩, s, rfl, hchar, hset, rfl⟩
    rw [Table.get?_insert] at hu
    split at hu
    · cases hu
      exact fun _ => hset
    · exact hT.charset k a m hu

theorem withNullable_collated (hT : T.Collated) (hchar : s.name.isChar)
    (hset : s.charset = s.collation.charset) : ∃ a, (withNullable k (.scalar s n) T).1 =
      .scalar a k ∧ a.name.isChar ∧ a.collation = s.collation := by
  rw [withNullable]
  split
  · rename_i hn
    exact ⟨s, by rw [hn]; rfl, hchar, rfl⟩
  · obtain ⟨_, a, ha, hachar, _, hcollation⟩ := intern_collated (n := k) hT hchar hset
    exact ⟨a, ha, hachar, hcollation⟩

/-- In a table whose character types have the character sets of their collations, the common type of
character types of one character set has the collation to which theirs combine, if they do. -/
theorem leastRestrictive_collation {first : SqlType} (hT : T.Collated) (hset : set ≠ "")
    (hstrings : ∀ t ∈ first :: ts, t.isChar = true ∧ t.charset = set ∧ t.collation.charset = set ∧
      t.collation.coercibility.isListed = true)
    (hmerge : (ts.map SqlType.collation).foldlM Collation.merge first.collation = .ok m) :
    ∃ t, (leastRestrictive (first :: ts) T).1 = some t ∧ t.isChar = true ∧ t.collation = m := by
  cases first with
  | scalar s n =>
    obtain ⟨_, hself, hselfset, _⟩ := hstrings _ List.mem_cons_self
    obtain ⟨ss, hmap, hcollations, hss⟩ :=
      exists_scalars fun t ht => (hstrings t (List.mem_cons_of_mem _ ht)).1
    have hstring (a : Scalar) (ha : a ∈ ss) :=
      hstrings _ (List.mem_cons_of_mem _ (hss a ha).2.choose_spec)
    obtain ⟨name, precision, hname, hleast⟩ := leastString_eq_char (s := s) hmap fun a ha =>
      ⟨(hss a ha).1, (hstring a ha).2.1.trans hself.symm⟩
    have hfirst : (StringBound.extend .varchar ⟨false, 0, s.collation⟩ s).collation = s.collation :=
      if_neg (Int.lt_irrefl _)
    obtain ⟨hbound, hm⟩ := foldl_extend_collation ((congrArg Collation.charset hfirst).trans
      hselfset) (fun a ha => (hstring a ha).2.2.symm) (by rw [hfirst, ← hcollations]; exact hmerge)
    rw [List.foldl_cons, hbound] at hleast
    -- the common type is built without the null value, and gets it if one of the types has it
    let common : Scalar :=
      { name, charset := set, collation := m
        precision :=
          if precision = ScalarName.noPrecision then name.defaultPrecision else precision }
    obtain ⟨hU, a, ha, hchar, haset, hcollation⟩ :=
      intern_collated (s := common) (n := false) hT hname hm.symm
    have hrun : (leastRestrictive (.scalar s n :: ts) T).1 = some (withNullable
        (anyNullable (.scalar s n :: ts) || (intern (.scalar common false) T).1.nullable)
        (intern (.scalar common false) T).1 (intern (.scalar common false) T).2).1 := by
      have hcommon : char name precision m = intern (.scalar common false) := by
        rw [char, hm, if_neg hset]
      rw [leastRestrictive_eq_leastString fun t ht => (hstrings t ht).1, hleast, hcommon]
      rfl
    rw [ha] at hrun
    obtain ⟨b, hb, hbchar, hbcollation⟩ := withNullable_collated hU hchar haset
    exact ⟨_, hrun, by rw [hb]; exact hbchar, by rw [hb]; exact hbcollation.trans hcollation⟩
  | _ => cases (hstrings _ List.mem_cons_self).1

/-- The collation of a column is firmer than that of a literal. -/
theorem leastRestrictive_collation_column :
    let text (c : Coercibility) : SqlType :=
      .scalar { name := .varchar, precision := 5, charset := Collation.defaultCharset,
                collation := .default c } false
    let T : TypeTable :=
      (char .varchar 5 (.default .implicit) (char .varchar 5 (.default .coercible) {}).2).2
    T.Collated ∧ ∃ t, (leastRestrictive [text .coercible, text .implicit] T).1 = some t ∧
      t.collation = .default .implicit := by
  intro text T
  have hbuilt {U : TypeTable} (hU : U.Collated)
      (c : Coercibility) : (char .varchar 5 (.default c) U).2.Collated :=
    (intern_collated hU rfl rfl).1
  have hT : T.Collated := hbuilt (hbuilt ⟨keyed_empty, nofun⟩ .coercible) .implicit
  have hstrings : ∀ t ∈ [text .coercible, text .implicit], t.isChar = true ∧
      t.charset = Collation.defaultCharset ∧ t.collation.charset = Collation.defaultCharset ∧
      t.collation.coercibility.isListed = true :=
    List.forall_mem_cons.mpr ⟨⟨rfl, rfl, rfl, rfl⟩,
      List.forall_mem_singleton.mpr ⟨rfl, rfl, rfl, rfl⟩⟩
  obtain ⟨t, ht, -, hm⟩ := leastRestrictive_collation hT (by decide) hstrings rfl
  exact ⟨hT, t, ht, hm⟩

/-- A table that has a string whose collation names no character set gives this string as the common
type of strings that combine to a collation with a character set. -/
theorem leastRestrictive_collation_unnamed :
    let named (set : String) : Collation :=
      { name := "X", charset := set, coercibility := .implicit }
    let text (precision : Int) : SqlType :=
      .scalar { name := .char, precision, charset := Collation.defaultCharset,
                collation := named Collation.defaultCharset } false
    let T : TypeTable := (char .varchar 4 (named "") {}).2
    Collation.merge (text 4).collation (text 3).collation = .ok (named Collation.defaultCharset) ∧
      ∃ t, (leastRestrictive [text 4, text 3] T).1 = some t ∧ t.collation = named "" ∧
        named "" ≠ named Collation.defaultCharset := by
  exact ⟨rfl, _, rfl, rfl, by decide⟩

end TypeTable

end SqlAnalysis

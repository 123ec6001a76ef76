import SqlAnalysis.Proofs.SqlType.Interning

/-!
Comparability and common types. Whether several types have a type in common is decided by the types
alone, not by what has been built before; they have one exactly if any two of them can be compared.
Both say that the types are of one kin and that their parts, place by place, are alike in the same
way.
-/

namespace SqlAnalysis

/-- What two types have to agree in to be compared, their parts aside. -/
inductive Kin where
  | numeric
  | character (charset : String)
  | binary
  | named (n : ScalarName)
  | interval (isYearMonth : Bool)
  | row (width : Nat)
  | multiset
  | none

theorem ScalarName.family_cases (n : ScalarName) :
    (n.isNumeric → n.isChar = false ∧ n.isBinary = false) ∧ (n.isChar → n.isBinary = false) := by
  cases n <;> decide

namespace SqlType

def kin : SqlType → Kin
  | .scalar s _ =>
    if s.name.isNumeric then .numeric
    else if s.name.isChar then .character s.charset
    else if s.name.isBinary then .binary
    else .named s.name
  | .interval q _ => .interval q.isYearMonth
  | .row fs _ => .row fs.length
  | .multiset _ _ => .multiset
  | .null | .unknown => .none

def parts : SqlType → List SqlType
  | .row fs _ => fs.map Prod.snd
  | .multiset e _ => [e]
  | _ => []

/-- Nothing in the type is unknown, of type `ANY` or a row without fields. -/
inductive Definite : SqlType → Prop
  | mk {t : SqlType} (isUnknown : t.isUnknown = false) (isAny : t.isAny = false)
    (isEmpty : t.kin ≠ .row 0)
      (parts : ∀ u ∈ t.parts, Definite u) : Definite t

/-- A definite type as tables build them, with fewer than `d` types above its deepest part. -/
inductive Settled : Nat → SqlType → Prop
  | mk {d : Nat} {t : SqlType} (isUnknown : t.isUnknown = false) (isAny : t.isAny = false)
    (isEmpty : t.kin ≠ .row 0)
      (charset : t.isBinary → t.charset = "") (parts : ∀ u ∈ t.parts,
      Settled d u) : Settled (d + 1) t

def Comparable (ts : List SqlType) : Prop := ∀ a ∈ ts, ∀ b ∈ ts, a.canCompare b

variable {a b t : SqlType} {ts : List SqlType}

theorem scalars_and_depth_of_part (hu : u ∈ t.parts) :
    (t.Scalars P → u.Scalars P) ∧ u.depth < t.depth := by
  cases t with
  | row fs n =>
    induction fs with
    | nil => cases hu
    | cons f fs ih =>
      have hdepth : (SqlType.row (f :: fs) n).depth = max f.2.depth (fieldsDepth fs) + 1 := rfl
      rcases List.mem_cons.mp hu with rfl | hu
      · exact ⟨And.left, by omega⟩
      · obtain ⟨hscalars, hless⟩ := ih hu
        have hrest : (SqlType.row fs n).depth = fieldsDepth fs + 1 := rfl
        exact ⟨fun h => hscalars h.2, by omega⟩
  | multiset e n =>
    obtain rfl := List.mem_singleton.mp hu
    exact ⟨id, Nat.lt_succ_self _⟩
  | _ => cases hu

theorem Definite.settled (h : t.Definite) (hformed : t.Scalars Scalar.Formed) (hd : t.depth < d) :
    t.Settled d := by
  induction h generalizing d with
  | @mk t hunknown hany hempty _ ih =>
    cases d with
    | zero => cases hd
    | succ d =>
      refine ⟨hunknown, hany, hempty, fun hbinary => ?_, fun u hu => ?_⟩
      · cases t with
        | scalar s n =>
          have hbinary : s.name.isBinary := hbinary
          have hfamily := s.name.family_cases
          exact (Scalar.Formed.collation hformed (by grind)).1
        | _ => rfl
      · obtain ⟨hscalars, hless⟩ := scalars_and_depth_of_part hu
        exact ih u hu (hscalars hformed) (by omega)

theorem canCompareFields_iff : canCompareFields fs gs ↔
    List.Forall₂ (fun a b : SqlType => a.canCompare b) (fs.map Prod.snd) (gs.map Prod.snd) := by
  induction fs generalizing gs with
  | nil => cases gs <;> simp [canCompareFields]
  | cons f fs ih =>
    cases gs with
    | nil => simp [canCompareFields]
    | cons g gs =>
      rw [canCompareFields, Bool.and_eq_true, ih, List.map_cons, List.map_cons, List.forall₂_cons]

theorem canCompare_iff (ha : a.Settled d) (hb : b.Settled d) (hnull : a.isNull = false)
    (hnull' : b.isNull = false) : a.canCompare b ↔ a.kin = b.kin ∧
      List.Forall₂ (fun a b : SqlType => a.canCompare b) a.parts b.parts := by
  obtain ⟨ha, hany, -⟩ := ha
  obtain ⟨hb, hany', -⟩ := hb
  have hfamily := ScalarName.family_cases
  cases a with
  | scalar s m =>
    cases b with
    | null | unknown => contradiction
    | _ =>
      simp only [canCompare, hany, hany', canComparePlain, isNumeric, isChar,
        isBinary, isScalar, charset, name, kin, parts]
      grind [List.Forall₂.nil]
  | interval q m =>
    cases b with
    | null | unknown => contradiction
    | _ =>
      simp only [canCompare, hany, hany', canComparePlain, isNumeric, isChar,
        isBinary, isScalar, name, kin, parts]
      grind [List.Forall₂.nil]
  | row fs m =>
    cases b with
    | null | unknown => contradiction
    | row gs n =>
      simp only [canCompare, hany', Bool.false_or, canCompareFields_iff, kin, parts, Kin.row.injEq]
      exact (and_iff_right_of_imp fun h => by simpa using h.length_eq).symm
    | _ => simp only [canCompare, hany', kin]; grind
  | multiset e m =>
    cases b with
    | null | unknown => contradiction
    | _ => simp only [canCompare, hany', kin, parts]; grind [List.forall₂_cons, List.Forall₂.nil]
  | null | unknown => contradiction

theorem length_parts_of_kin (h : a.kin = b.kin) : a.parts.length = b.parts.length := by
  cases a <;> cases b <;> simp only [kin, parts, List.length_map] at h ⊢ <;> grind

/-- The types are of the kin of the first, and their parts at each place can be compared. -/
def Kindred (first : SqlType) (ts : List SqlType) : Prop :=
  (∀ t ∈ ts, t.kin = first.kin) ∧ ∀ k < first.parts.length,
    Comparable ((first :: ts).filterMap (·.parts[k]?))

theorem comparable_iff (hts : ∀ t ∈ first :: ts, t.Settled d)
    (hnull : ∀ t ∈ first :: ts, t.isNull = false) :
    Comparable (first :: ts) ↔ Kindred first ts := by
  have hpair (a : SqlType) (ha : a ∈ first :: ts) (b : SqlType)
      (hb : b ∈ first :: ts) : a.canCompare b ↔
      a.kin = b.kin ∧ ∀ (k : Nat) (x y : SqlType), a.parts[k]? = some x →
        b.parts[k]? = some y → x.canCompare y := by
    rw [canCompare_iff (hts a ha) (hts b hb) (hnull a ha) (hnull b hb), List.forall₂_iff_zip]
    refine and_congr_right fun hkin => ?_
    simp only [length_parts_of_kin hkin, List.mem_iff_getElem?, List.getElem?_zip_eq_some]
    grind
  constructor
  · intro h
    refine ⟨fun t ht => ?_, fun k _ x hx y hy => ?_⟩
    · have ht := List.mem_cons_of_mem first ht
      exact ((hpair t ht first List.mem_cons_self).mp (h t ht first List.mem_cons_self)).1
    · obtain ⟨a, ha, hx⟩ := List.mem_filterMap.mp hx
      obtain ⟨b, hb, hy⟩ := List.mem_filterMap.mp hy
      exact ((hpair a ha b hb).mp (h a ha b hb)).2 k x y hx hy
  · rintro ⟨hkin, h⟩ a ha b hb
    have hkin : ∀ t ∈ first :: ts, t.kin = first.kin := List.forall_mem_cons.mpr ⟨rfl, hkin⟩
    refine (hpair a ha b hb).mpr ⟨(hkin a ha).trans (hkin b hb).symm, fun k x y hx hy => ?_⟩
    have hk : k < first.parts.length :=
      length_parts_of_kin (hkin a ha) ▸ (List.getElem?_eq_some_iff.mp hx).1
    exact h k hk x (List.mem_filterMap.mpr ⟨a, ha, hx⟩) y (List.mem_filterMap.mpr ⟨b, hb, hy⟩)

theorem canCompare_of_isNull (ha : a.isUnknown = false) (hb : b.isUnknown = false)
    (h : a.isNull ∨ b.isNull) : a.canCompare b := by
  cases a <;> cases b <;> simp_all [canCompare, isNull, isUnknown]

theorem comparable_filter_iff (hts : ∀ t ∈ ts, t.isUnknown = false) :
    Comparable (ts.filter fun t => !t.isNull) ↔ Comparable ts := by
  refine ⟨fun h a ha b hb => ?_, fun h a ha b hb =>
    h a (List.mem_of_mem_filter ha) b (List.mem_of_mem_filter hb)⟩
  by_cases hnull : a.isNull ∨ b.isNull
  · exact canCompare_of_isNull (hts a ha) (hts b hb) hnull
  · rw [not_or] at hnull
    exact h a (by simp [ha, hnull]) b (by simp [hb, hnull])

end SqlType

/-- The step gives something exactly if `p` holds, whatever has been built before. -/
def TypeM.FindsIff {α : Type} (x : TypeM (Option α)) (p : Prop) : Prop := ∀ T, (x T).1.isSome ↔ p

namespace TypeM.FindsIff

variable {x : TypeM (Option α)}

theorem congr (h : FindsIff x p) (hpq : p ↔ q) : FindsIff x q := fun T => (h T).trans hpq

theorem none (h : ¬ p) : FindsIff (pure none : TypeM (Option α)) p :=
  fun _ => ⟨nofun, fun hp => absurd hp h⟩

theorem some (x : TypeM α) (h : p) : FindsIff (some <$> x) p := fun _ => ⟨fun _ => h, fun _ => rfl⟩

theorem bind (hx : FindsIff x p) (hnone : f .none = pure .none)
    (hsome : ∀ v, FindsIff (f (.some v)) q) : FindsIff (x >>= f) (p ∧ q) := by
  intro T
  change (f (x T).1 (x T).2).1.isSome ↔ _
  rw [← hx T]
  cases (x T).1 with
  | none =>
    rw [hnone]
    exact ⟨nofun, fun h => nomatch h.1⟩
  | some v => exact (hsome v _).trans (iff_and_self.mpr fun _ => rfl)

end TypeM.FindsIff

namespace TypeTable

open SqlType TypeM

variable {ts : List SqlType}

theorem mapM_option {f : α → Option β} (l : List α) :
    l.mapM f = if l.all fun a => (f a).isSome then some (l.filterMap f) else none := by
  induction l with
  | nil => rfl
  | cons a l ih =>
    rw [List.mapM_cons, ih]
    cases h : f a with
    | none => simp [h]
    | some b => cases hl : l.all fun a => (f a).isSome <;> simp [h, hl]

theorem scalars_findsIff {k : List Scalar → TypeM (Option SqlType)}
    (hk : ∀ ss T, (k ss T).1.isSome) :
    FindsIff (match ts.mapM scalar? with
        | none => pure none
        | some ss => if ss.all p then k ss else pure none)
      (∀ t ∈ ts, ∃ s, t.scalar? = some s ∧ p s) := by
  rw [mapM_option]
  by_cases h : (ts.all fun t => t.scalar?.isSome)
  · have hall : (ts.filterMap scalar?).all p ↔ ∀ t ∈ ts, ∃ s, t.scalar? = some s ∧ p s := by
      have h := fun t ht => Option.isSome_iff_exists.mp (List.all_eq_true.mp h t ht)
      simp only [List.all_eq_true, List.mem_filterMap]
      grind
    rw [if_pos h]
    dsimp only
    split
    · exact fun T => ⟨fun _ => hall.mp ‹_›, fun _ => hk _ T⟩
    · exact .none (mt hall.mpr ‹_›)
  · rw [if_neg h]
    refine .none fun hall => h (List.all_eq_true.mpr fun t ht => ?_)
    obtain ⟨s, hs, -⟩ := hall t ht
    rw [hs]
    rfl

theorem leastNumeric_findsIff :
    FindsIff (leastNumeric first ts) (∀ t ∈ first :: ts, t.isNumeric) := by
  refine FindsIff.congr (scalars_findsIff (p := fun s => s.name.isNumeric) fun ss T => ?_)
    (forall₂_congr fun t _ => ?_)
  · dsimp only
    split
    · rfl
    · split <;> rfl
  · cases t <;> simp [scalar?, isNumeric, isScalar]

theorem leastString_findsIff {fixed varying : ScalarName} {s : Scalar} :
    FindsIff (leastString member fixed varying s ts)
      (∀ t ∈ ts, t.isScalar member ∧ t.charset = s.charset) := by
  refine FindsIff.congr (scalars_findsIff (p := fun s' => member s'.name && s'.charset == s.charset)
    fun ss T => rfl) (forall₂_congr fun t _ => ?_)
  cases t <;> simp [scalar?, isScalar, charset]

theorem leastInterval_findsIff :
    FindsIff (leastInterval q out ts) (∀ t ∈ ts, t.kin = .interval q.isYearMonth) := by
  induction ts generalizing out with
  | nil => exact .some (pure out) (List.forall_mem_nil _)
  | cons t ts ih =>
    rw [List.forall_mem_cons]
    cases t with
    | interval r n =>
      rw [leastInterval]
      split
      · exact .none fun h => by simp_all [kin]
      · have hkin : (SqlType.interval r n).kin = .interval q.isYearMonth := by simp_all [kin]
        split
        · exact ih.congr (and_iff_right hkin).symm
        · exact fun T => (ih.congr (and_iff_right hkin).symm) _
    | scalar s n => exact .none fun h => by simp only [kin] at h; grind
    | _ => exact .none (by rintro ⟨⟨⟩, _⟩)

theorem leastSame_findsIff {name : ScalarName} :
    FindsIff (leastSame name out ts) (∀ t ∈ ts, t.isNamed name) := by
  induction ts generalizing out with
  | nil => exact .some (pure out) (List.forall_mem_nil _)
  | cons t ts ih =>
    rw [List.forall_mem_cons, leastSame]
    split
    · exact .none fun h => by simp_all
    · have hnamed : t.isNamed name := by simp_all
      split
      · exact fun T => (ih.congr (and_iff_right hnamed).symm) _
      · exact ih.congr (and_iff_right hnamed).symm

theorem leastColumns_findsIff {least : List SqlType → TypeM (Option SqlType)}
    {names : List String} {columns : List (List SqlType)} (hlength : names.length = columns.length)
    (h : ∀ c ∈ columns, FindsIff (least c) (Comparable c)) :
    FindsIff (leastColumns least names columns) (∀ c ∈ columns, Comparable c) := by
  induction names generalizing columns with
  | nil =>
    obtain rfl := List.eq_nil_of_length_eq_zero hlength.symm
    exact .some (pure []) nofun
  | cons name names ih =>
    cases columns with
    | nil => cases hlength
    | cons c columns =>
      rw [List.forall_mem_cons] at h ⊢
      rw [leastColumns]
      refine h.1.bind rfl fun t => ?_
      refine FindsIff.congr ((ih (Nat.succ.inj hlength) h.2).bind rfl fun fs => ?_)
        (and_iff_left trivial)
      exact .some (pure ((name, t) :: fs)) trivial

section Known

variable {least : List SqlType → TypeM (Option SqlType)}

theorem leastKnown_scalar_findsIff (hany : (SqlType.scalar s n :: ts).any isAny = false)
    (hts : ∀ t ∈ SqlType.scalar s n :: ts, t.isBinary → t.charset = "") :
    FindsIff (leastKnown least (.scalar s n) ts) (Kindred (.scalar s n) ts) := by
  have hfamily := ScalarName.family_cases
  rw [List.forall_mem_cons] at hts
  refine FindsIff.congr ?_ (and_iff_left nofun).symm
  unfold leastKnown
  rw [hany, if_neg Bool.false_ne_true]
  dsimp only
  split
  · refine leastNumeric_findsIff.congr
      (List.forall_mem_cons.trans ((and_iff_right ‹_›).trans (forall₂_congr fun t _ => ?_)))
    cases t <;> simp only [isNumeric, isScalar, kin] <;> grind
  · split
    · refine leastString_findsIff.congr (forall₂_congr fun t _ => ?_)
      cases t <;> simp only [isScalar, charset, kin] <;> grind
    · split
      · refine leastString_findsIff.congr (forall₂_congr fun t ht => ?_)
        have hself : s.charset = "" := hts.1 ‹_›
        have hother := hts.2 t ht
        cases t <;> simp only [isBinary, isScalar, charset, kin] at hother ⊢ <;> grind
      · refine leastSame_findsIff.congr (forall₂_congr fun t _ => ?_)
        cases t <;> simp only [isNamed, isScalar, kin] <;> grind

variable (hcolumn : ∀ k < first.parts.length, FindsIff (least ((first :: ts).filterMap
    (·.parts[k]?))) (Comparable ((first :: ts).filterMap (·.parts[k]?))))
    (hany : (first :: ts).any isAny = false)
include hcolumn hany

theorem leastKnown_row_findsIff (hfirst : first = .row fs n) (hne : fs ≠ []) :
    FindsIff (leastKnown least first ts) (Kindred first ts) := by
  subst hfirst
  have hrow (t : SqlType) : (t.isRow && t.fields.length == fs.length) ↔ t.kin = .row fs.length := by
    cases t <;> simp [isRow, fields, kin]; grind
  unfold leastKnown
  rw [hany, if_neg Bool.false_ne_true]
  dsimp only [rowColumns]
  by_cases h : ((SqlType.row fs n :: ts).all fun t => t.isRow && t.fields.length == fs.length)
  · have hkin : ∀ t ∈ SqlType.row fs n :: ts, t.kin = .row fs.length :=
      fun t ht => (hrow t).mp (List.all_eq_true.mp h t ht)
    have hfields (k : Nat) : (SqlType.row fs n :: ts).filterMap (fun t => t.fieldTypes[k]?) =
        (SqlType.row fs n :: ts).filterMap (·.parts[k]?) := List.filterMap_congr fun t ht => by
      have ht := hkin t ht
      cases t <;> simp only [kin] at ht <;> grind [fieldTypes, fields, parts]
    rw [if_pos h]
    simp only [hfields]
    refine FindsIff.congr
      ((leastColumns_findsIff (by simp [fieldNames, fields]) fun c hc => ?_).bind rfl fun fs =>
      .some (row fs) trivial) ((and_iff_left trivial).trans ?_)
    · obtain ⟨k, hk, rfl⟩ := List.mem_map.mp hc
      exact hcolumn k (by simpa [parts] using hk)
    · rw [List.forall_mem_map]
      refine .trans ?_ (and_iff_right fun t ht => hkin t (List.mem_cons_of_mem _ ht)).symm
      simp [parts]
  · rw [if_neg h]
    dsimp only
    rw [if_neg (by simpa using hne)]
    refine .none fun hkin => h (List.all_eq_true.mpr fun t ht => (hrow t).mpr ?_)
    obtain rfl | ht := List.mem_cons.mp ht
    · rfl
    · exact hkin.1 t ht

theorem leastKnown_multiset_findsIff (hfirst : first = .multiset e n) :
    FindsIff (leastKnown least first ts) (Kindred first ts) := by
  subst hfirst
  have hmultiset (t : SqlType) : t.element?.isSome ↔ t.kin = .multiset := by
    cases t <;> simp [element?, kin]; grind
  unfold leastKnown
  rw [hany, if_neg Bool.false_ne_true]
  dsimp only
  rw [mapM_option]
  by_cases h : (ts.all fun t => t.element?.isSome)
  · have hkin : ∀ t ∈ ts, t.kin = .multiset :=
      fun t ht => (hmultiset t).mp (List.all_eq_true.mp h t ht)
    have helements : (SqlType.multiset e n :: ts).filterMap (·.parts[0]?) =
        e :: ts.filterMap element? :=
      congrArg (e :: ·) (List.filterMap_congr fun t ht => by
        have ht := hkin t ht
        cases t <;> simp only [kin] at ht <;> grind [element?, parts])
    rw [if_pos h]
    dsimp only
    rw [← helements]
    refine FindsIff.congr ((hcolumn 0 Nat.one_pos).bind rfl fun e => .some (multiset e) trivial)
      ((and_iff_left trivial).trans ?_)
    refine .trans ?_ (and_iff_right hkin).symm
    simp [parts]
  · rw [if_neg h]
    exact .none fun hkin => h (List.all_eq_true.mpr fun t ht => (hmultiset t).mpr (hkin.1 t ht))

end Known

theorem leastKnown_findsIff {least : List SqlType → TypeM (Option SqlType)}
    (hts : ∀ t ∈ first :: ts, t.Settled (d + 1))
    (hnull : ∀ t ∈ first :: ts, t.isNull = false) (hleast : ∀ us : List SqlType,
    us ≠ [] → (∀ u ∈ us, u.Settled d) → FindsIff (least us) (Comparable us)) :
    FindsIff (leastKnown least first ts) (Comparable (first :: ts)) := by
  have hany : (first :: ts).any SqlType.isAny = false := List.any_eq_false.mpr fun t ht => by
    obtain ⟨-, hany, -⟩ := hts t ht
    simp [hany]
  have hcolumn (k : Nat) (hk : k < first.parts.length) : FindsIff
    (least ((first :: ts).filterMap (·.parts[k]?)))
      (Comparable ((first :: ts).filterMap (·.parts[k]?))) := by
    refine hleast _ (List.ne_nil_of_mem (List.mem_filterMap.mpr ⟨first,
      List.mem_cons_self, List.getElem?_eq_getElem hk⟩)) fun u hu => ?_
    obtain ⟨t, ht, hu⟩ := List.mem_filterMap.mp hu
    obtain ⟨-, -, -, -, hparts⟩ := hts t ht
    exact hparts u (List.mem_of_getElem? hu)
  refine FindsIff.congr ?_ (comparable_iff hts hnull).symm
  obtain ⟨hunknown, -, hempty, -⟩ := hts first List.mem_cons_self
  cases first with
  | scalar s n =>
    refine leastKnown_scalar_findsIff hany fun t ht => ?_
    obtain ⟨-, -, -, hcharset, -⟩ := hts t ht
    exact hcharset
  | interval q n =>
    unfold leastKnown
    rw [hany, if_neg Bool.false_ne_true]
    exact leastInterval_findsIff.congr (and_iff_left nofun).symm
  | row fs n => exact leastKnown_row_findsIff hcolumn hany rfl fun hfs => hempty (hfs ▸ rfl)
  | multiset e n => exact leastKnown_multiset_findsIff hcolumn hany rfl
  | null => exact nomatch hnull _ List.mem_cons_self
  | unknown => exact nomatch hunknown

theorem leastRestrictiveUpTo_findsIff (hne : ts ≠ []) (hts : ∀ t ∈ ts, t.Settled d) :
    FindsIff (leastRestrictiveUpTo d ts) (Comparable ts) := by
  induction d generalizing ts with
  | zero =>
    obtain ⟨t, ht⟩ := List.exists_mem_of_ne_nil ts hne
    cases hts t ht
  | succ d ih =>
    have hknown : ∀ t ∈ ts, t.isUnknown = false := fun t ht => by
      obtain ⟨hunknown, -⟩ := hts t ht
      exact hunknown
    have hunknown : ts.any SqlType.isUnknown = false := List.any_eq_false.mpr fun t ht => by
      simp [hknown t ht]
    rw [leastRestrictiveUpTo, hunknown, if_neg Bool.false_ne_true]
    refine FindsIff.congr ?_ (comparable_filter_iff hknown)
    cases hfilter : ts.filter fun t => !t.isNull with
    | nil =>
      dsimp only
      rw [if_neg (by simpa using hne)]
      exact .some null (List.forall_mem_nil _)
    | cons first rest =>
      have hmem (t : SqlType) (ht : t ∈ first :: rest) : t ∈ ts ∧ t.isNull = false := by
        rw [← hfilter, List.mem_filter, Bool.not_eq_true'] at ht
        exact ht
      have hleast := leastKnown_findsIff (fun t ht => hts t (hmem t ht).1)
        (fun t ht => (hmem t ht).2) fun us => ih
      refine FindsIff.congr ?_ (and_iff_left trivial)
      exact hleast.bind rfl fun t => .some _ trivial

theorem le_foldl_max {l : List Nat} (h : n ≤ m ∨ n ∈ l) : n ≤ l.foldl max m := by
  induction l generalizing m with
  | nil => exact h.resolve_right List.not_mem_nil
  | cons k l ih =>
    refine ih ?_
    rcases h with h | h
    · exact .inl (Nat.le_trans h (Nat.le_max_left ..))
    · exact (List.mem_cons.mp h).imp_left fun h =>
        Nat.le_trans (Nat.le_of_eq h) (Nat.le_max_right ..)

/-- Types that a table has given out have a type in common exactly if any two of them can be
compared. -/
theorem isSome_leastRestrictive_iff_canCompare {T : TypeTable}
    (hT : T.Gives us) (hne : ts ≠ []) (hts : ∀ t ∈ ts, t ∈ us ∧ t.Definite) :
    (leastRestrictive ts T).1.isSome = true ↔ ∀ a ∈ ts, ∀ b ∈ ts, a.canCompare b = true := by
  refine leastRestrictiveUpTo_findsIff hne (fun t ht => ?_) T
  refine (hts t ht).2.settled (hT.formed.2 t (hts t ht).1)
    (Nat.lt_succ_of_le (le_foldl_max (.inr ?_)))
  exact List.mem_map_of_mem ht

/-- Rows of numbers can be compared with one another and with null, but not with a number. -/
theorem isSome_leastRestrictive_rows :
    let integer : SqlType := .scalar { name := .integer } false
    let decimal : SqlType := .scalar { name := .decimal, precision := 5, scale := 2 } false
    let column (t : SqlType) : SqlType := .row [("C", t)] false
    ∃ T : TypeTable, (∃ us, T.Gives us) ∧
      (leastRestrictive [column integer, .null, column decimal] T).1.isSome = true ∧
      (leastRestrictive [column integer, integer] T).1.isSome = false ∧
        (column integer).canCompare (column decimal) = true := by
  intro integer decimal column
  have hnull : Gives _ [.null] := .request (q := .named .null) .nil (List.forall_mem_nil _)
  have hinteger : Gives _ [integer, .null] :=
    hnull.request (q := .named (.scalar .integer)) (List.forall_mem_nil _)
  have hdecimal : Gives _ [decimal, integer, .null] :=
    hinteger.request (q := .decimal 5 2) (List.forall_mem_nil _)
  have hrow : Gives _ [column integer, decimal, integer, .null] :=
    hdecimal.request (q := .row [("C", integer)]) (by simp [TypeRequest.operands])
  have hrows : Gives _ [column decimal, column integer, decimal, integer, .null] :=
    hrow.request (q := .row [("C", decimal)]) (by simp [TypeRequest.operands])
  have hscalars : integer.Definite ∧ decimal.Definite := ⟨⟨rfl, rfl,
    by rintro ⟨⟩, List.forall_mem_nil _⟩, ⟨rfl, rfl, by rintro ⟨⟩, List.forall_mem_nil _⟩⟩
  have hcolumn {t : SqlType} (ht : t.Definite) : (column t).Definite :=
    ⟨rfl, rfl, by rintro ⟨⟩, fun u hu => List.mem_singleton.mp hu ▸ ht⟩
  have hdefinite : SqlType.null.Definite := ⟨rfl, rfl, by rintro ⟨⟩, List.forall_mem_nil _⟩
  have hiff := isSome_leastRestrictive_iff_canCompare hrows (show [column integer, .null,
    column decimal] ≠ [] by simp) (by simp [hdefinite, hcolumn hscalars.1, hcolumn hscalars.2])
  have hcompare : ∀ a ∈ [column integer, .null, column decimal],
      ∀ b ∈ [column integer, .null, column decimal],
    a.canCompare b = true := by decide +kernel
  exact ⟨_, ⟨_, hrows⟩, hiff.mpr hcompare, by decide +kernel, hcompare _ (by simp) _ (by simp)⟩

end TypeTable

end SqlAnalysis

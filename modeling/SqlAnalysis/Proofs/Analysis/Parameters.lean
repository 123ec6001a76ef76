import SqlAnalysis.Proofs.Analysis.Attested

/-!
The types of parameters. A parameter takes its type from the context that it is in, so the type that
is recorded for its number is the one that was recorded at some node with that number; where a
number stands at one node only, the two are always the same.
-/

namespace SqlAnalysis

namespace Table

variable [DecidableEq κ]

theorem mem_keys_write {es : List (κ × α)} (h : k' ∈ (write k v es).map Prod.fst) :
    k' = k ∨ k' ∈ es.map Prod.fst := by
  induction es with
  | nil => exact .inl (List.mem_singleton.mp h)
  | cons e es ih =>
    rw [write] at h
    split at h
    · exact .inr h
    · rw [List.map_cons, List.mem_cons] at h ⊢
      rcases h with h | h
      · exact .inr (.inl h)
      · exact (ih h).imp_right .inr

theorem nodup_keys_insert {t : Table κ α} (h : t.keys.Nodup) : (t.insert k v).keys.Nodup := by
  unfold keys at h
  change ((write k v t.entries).map Prod.fst).Nodup
  generalize t.entries = es at h
  induction es with
  | nil => exact List.nodup_singleton k
  | cons e es ih =>
    obtain ⟨k', v'⟩ := e
    rw [write]
    rw [List.map_cons, List.nodup_cons] at h
    split
    · exact List.nodup_cons.mpr h
    · rename_i hk
      refine List.nodup_cons.mpr ⟨fun hmem => ?_, ih h.2⟩
      exact (mem_keys_write hmem).elim hk h.1

end Table

namespace SqlType

theorem exists_field?_of_mem {t : SqlType} (h : t.fieldNames.Nodup) (hf : f ∈ t.fields) :
    ∃ k, t.field? f.1 = some (k, f.2) := by
  unfold fieldNames at h
  unfold field?
  generalize t.fields = fs at h hf
  induction fs with
  | nil => cases hf
  | cons g fs ih =>
    rw [List.map_cons, List.nodup_cons] at h
    rw [List.findIdx?_cons]
    rcases List.mem_cons.mp hf with rfl | hf
    · exact ⟨0, by simp⟩
    · have hne : (g.1 == f.1) = false := by
        refine beq_eq_false_iff_ne.mpr fun hname => h.1 ?_
        exact hname ▸ List.mem_map_of_mem hf
      obtain ⟨k, hk⟩ := ih h.2 hf
      rw [hne]
      cases hidx : fs.findIdx? (fun f' => f'.1 == f.1) with
      | none => rw [hidx] at hk; cases hk
      | some l =>
        rw [hidx] at hk
        obtain ⟨f', hf', heq⟩ := Option.map_eq_some_iff.mp hk
        exact ⟨l + 1, by simpa [hf'] using congrArg Prod.snd heq⟩

theorem eq_unknown_of_fullText {t : SqlType} (h : t.fullText = SqlType.unknown.fullText) :
    t = .unknown := by
  have hlist : t.fullText.toList = "UNKNOWN".toList := congrArg String.toList h
  cases t with
  | unknown => rfl
  | null => exact absurd hlist (by decide)
  | row fs n =>
    obtain ⟨text, htext⟩ := toList_row
    rw [htext] at hlist
    exact absurd (List.head_eq_of_cons_eq hlist) (by decide)
  | scalar s n =>
    obtain ⟨rest, hrest⟩ := toList_scalar
    rw [hrest] at hlist
    have hname : ∀ name : ScalarName, ∀ rest : List Char,
        name.toText.toList ++ rest ≠ "UNKNOWN".toList := by
      intro name rest
      cases name <;> simp [ScalarName.toText]
    exact absurd hlist (hname _ _)
  | interval q n =>
    rw [fullText, render, notNull] at hlist
    split at hlist <;> simp [String.toList_append] at hlist
  | multiset e n =>
    have hlast := getLast?_multiset e n
    rw [hlist] at hlast
    split at hlast <;> cases hlast

end SqlType

namespace TypeTable

theorem isUnknown_withNullable (hkeyed : T.Keyed) (h : t.isUnknown = false) :
    (withNullable true t T).1.isUnknown = false := by
  have hintern {u : SqlType} (hu : u.isUnknown = false) (U : TypeTable)
      (hU : U.Keyed) : (intern u U).1.isUnknown = false := by
    have hkey : (intern u U).1.key = u.key := ((intern_steady U).1.keyed hU) _ _ get?_intern
    cases hi : (intern u U).1 with
    | unknown =>
      rw [hi] at hkey
      rw [SqlType.eq_unknown_of_fullText (congrArg TypeKey.text hkey).symm] at hu
      exact hu
    | _ => rfl
  cases t with
  | unknown => cases h
  | null => rfl
  | row fs n =>
    rw [withNullable]
    exact hintern rfl _ ((fieldsWithNullable_steady true fs T).1.keyed hkeyed)
  | scalar | interval | multiset =>
    rw [withNullable]
    split
    · rfl
    · exact hintern rfl T hkeyed

end TypeTable

namespace Tree

theorem form?_of_parameter? {t : Tree} (h : t.parameter? x = some k) :
    t.form? x = some (.parameter k) := by
  unfold parameter? at h
  split at h
  · cases h
    assumption
  · cases h

theorem form?_push (t : Tree) (n : Node) :
    (push n t).2.form? (some t.nodes.size) = some n.form := t.form?_add n

theorem Stands.ne_parameter {t : Tree} (h : t.Stands i k) :
    ∃ f, t.form? (some i) = some f ∧ ∀ k, f ≠ .parameter k := by
  have hcall (hk : t.kind (some i) ≠ .other) : ∃ f, t.form? (some i) = some f ∧
      ∀ k, f ≠ .parameter k := by
    cases hc : t.call? (some i) with
    | none => exact absurd (by simp only [kind, hc]) hk
    | some c => exact ⟨_, form?_of_call? hc, by rintro _ ⟨⟩⟩
  cases k with
  | table =>
    obtain ⟨name, hname⟩ := h
    exact ⟨_, form?_of_identifier? hname, by rintro _ ⟨⟩⟩
  | select | join | values | unnest | collect =>
    refine hcall ?_
    rw [show t.kind (some i) = _ from h]
    decide
  | setOp | change =>
    refine hcall fun hk => ?_
    rw [Stands, hk] at h
    cases h

end Tree

namespace Analysis

/-- What is known about the types of parameters while a statement is analysed. -/
structure ParametersTyped (t : Tree) (a₀ a : Analysis) : Prop where
  same : SameDeclared a₀ a
  keyed : a.types.Keyed
  numbers : a.parameters.keys.Nodup
  inTree : ∀ i T, a.typeOf.get? i = some T → a.tree.Has (some i)
  entered : ∀ i T k, a.typeOf.get? i = some T → a.tree.form? (some i) = some (.parameter k) →
    t.Has (some i) ∧ ∃ T', a.parameters.get? k = some T'
  shown : ∀ k T, a.parameters.get? k = some T →
    ∃ i, a.tree.form? (some i) = some (.parameter k) ∧ a.typeOf.get? i = some T

namespace ParametersTyped

variable {root : Link}

section

variable (h : ParametersTyped t a₀ a)
include h

theorem notes (hn : Notes a b) (htypeOf : b.typeOf = a.typeOf)
    (hparameters : b.parameters = a.parameters) : ParametersTyped t a₀ b where
  same := h.same.trans hn.toSameDeclared
  keyed := hn.types.keyed h.keyed
  numbers := hparameters ▸ h.numbers
  inTree i T hi j hj := Nat.lt_of_lt_of_le (h.inTree i T (htypeOf ▸ hi) j hj) hn.tree.size_le
  entered i T k hi hf := by
    rw [htypeOf] at hi
    rw [hn.tree.form?_eq (h.inTree i T hi)] at hf
    exact hparameters ▸ h.entered i T k hi hf
  shown k T hk := by
    obtain ⟨i, hf, hi⟩ := h.shown k T (hparameters ▸ hk)
    exact ⟨i, (hn.tree.form?_eq (.of_form? hf)).trans hf, htypeOf ▸ hi⟩

theorem inTree_insert (hf : a.tree.form? (some i) = some f)
    (hj : (a.typeOf.insert i T).get? j = some T') : a.tree.Has (some j) := by
  rw [Table.get?_insert] at hj
  split at hj
  · rename_i hij
    exact hij ▸ .of_form? hf
  · exact h.inTree j T' hj

theorem withType (hf : a.tree.form? (some i) = some f)
    (hne : ∀ k, f ≠ .parameter k) (T : SqlType) : ParametersTyped t a₀ (a.withType i T) := by
  unfold Analysis.withType
  split
  · exact h
  have hget (j : NodeId) : (a.typeOf.insert i T).get? j =
    if i = j then some T else a.typeOf.get? j := a.typeOf.get?_insert _ _ _
  refine ⟨h.same.trans ⟨.refl _, rfl, rfl, rfl, rfl, rfl, fun _ => rfl⟩, h.keyed, h.numbers,
    fun _ _ => h.inTree_insert hf, ?_, ?_⟩
  · intro j T' k hj hfj
    rw [hget] at hj
    split at hj
    · rename_i hij
      rw [← hij, hf] at hfj
      exact absurd (Option.some.inj hfj) (hne k)
    · exact h.entered j T' k hj hfj
  · intro k T' hk
    obtain ⟨j, hfj, hj⟩ := h.shown k T' hk
    refine ⟨j, hfj, ?_⟩
    rw [hget, if_neg, hj]
    rintro rfl
    rw [hf] at hfj
    exact hne k (Option.some.inj hfj)

theorem withParameter (hi : t.Has (some i))
    (hf : a.tree.form? (some i) = some (.parameter k)) (hT : T.isUnknown = false) :
    ParametersTyped t a₀ (a.withParameter i k T) := by
  unfold Analysis.withParameter Analysis.withType
  rw [if_neg (by rw [hT]; nofun)]
  have hget (j : NodeId) : (a.typeOf.insert i T).get? j =
    if i = j then some T else a.typeOf.get? j := a.typeOf.get?_insert _ _ _
  have hnumber (l : Int) : (a.parameters.insert k T).get? l =
      if k = l then some T else a.parameters.get? l :=
    a.parameters.get?_insert _ _ _
  refine ⟨h.same.trans ⟨.refl _, rfl, rfl, rfl, rfl, rfl, fun _ => rfl⟩, h.keyed,
    Table.nodup_keys_insert h.numbers, fun _ _ => h.inTree_insert hf, ?_, ?_⟩
  · intro j T' l hj hfj
    rw [hget] at hj
    rw [hnumber]
    have hinside : t.Has (some j) ∧ (k ≠ l → ∃ T', a.parameters.get? l = some T') := by
      split at hj
      · rename_i hij
        rw [← hij, hf] at hfj
        cases hfj
        exact ⟨hij ▸ hi, fun hne => absurd rfl hne⟩
      · exact (h.entered j T' l hj hfj).imp_right fun h _ => h
    refine ⟨hinside.1, ?_⟩
    split
    · exact ⟨T, rfl⟩
    · exact hinside.2 ‹_›
  · intro l T' hl
    rw [hnumber] at hl
    split at hl
    · rename_i hkl
      cases hl
      exact ⟨i, hkl ▸ hf, by rw [hget, if_pos rfl]⟩
    · rename_i hkl
      obtain ⟨j, hfj, hj⟩ := h.shown l T' hl
      refine ⟨j, hfj, ?_⟩
      rw [hget, if_neg, hj]
      rintro rfl
      rw [hf] at hfj
      cases hfj
      exact hkl rfl

end

instance : Hushed (ParametersTyped t a₀) := ⟨fun h hs => h.notes hs.toNotes hs.typeOf hs.parameters⟩

instance : Heeding s (.has t) (ParametersTyped t a₀) where
  mark h := by
    cases h with
    | @derived a b steps scope i f T hi ha hf hq hnew hrun hb hadv =>
      have hfb := (hadv.tree.form?_eq (.of_form? hf)).trans hf
      have htyped : ParametersTyped t a₀ (b.withType i T) := by
        by_cases hp : ∃ k, f = .parameter k
        · -- a parameter has no type of its own
          obtain ⟨k, rfl⟩ := hp
          cases hrun
          exact hb
        · exact hb.withType hfb (fun k hk => hp ⟨k, hk⟩) T
      exact htyped.notes (.of_eq rfl) rfl rfl
    | windowed hi ha hc hk hj hinner hrun hb hadv =>
      have hform := Tree.form?_of_call? hinner
      exact (hb.withType ((hadv.tree.form?_eq (.of_form? hform)).trans hform)
        nofun _).notes (.of_eq rfl) rfl rfl
    | operator _ _ _ _ hb => exact hb.notes (.of_eq rfl) rfl rfl
    | special _ ha => exact ha.notes (.of_eq rfl) rfl rfl
    | function _ _ _ _ _ hb => exact hb.notes (.of_eq rfl) rfl rfl
    | qualified _ _ _ _ _ hb => exact hb.notes (.of_eq rfl) rfl rfl
    | null ha hf => exact ha.withType hf nofun _
    | parameter hi ha hf hknown hrun hb =>
      cases hrun
      exact hb.withParameter hi hf (TypeTable.isUnknown_withNullable ha.keyed hknown)
    | framed h =>
      obtain ⟨_, _, _, _, hb, _⟩ := h
      exact hb.notes (.of_eq rfl) rfl rfl

theorem entering (hp : Placed t root a₀) : Entering s (ParametersTyped t a₀) where
  entry h := by
    cases h with
    | @row a b id n row ha hn hst hb hvalid =>
      obtain ⟨n₀, hn₀, hdecl⟩ := ha.same.namespace? hn
      obtain ⟨f, hf, hne⟩ := (hp.kinds id n₀ hn₀).ne_parameter
      rw [Namespace.node_of_declared hdecl] at hf
      have hnode : b.tree.form? (some n.node) = some f := by
        rw [(hp.tree ▸ hb.same.tree : t.Extends b.tree).form?_eq (.of_form? hf), hf]
      have htyped := hb.withType hnode hne row
      unfold Analysis.withRow
      split
      · obtain ⟨c, hc, _⟩ := call?_of_isCall ‹_›
        exact htyped.withType (Tree.form?_of_call? hc) nofun row
      · exact htyped
    | cells ha hn hc hr hrow =>
      obtain ⟨c, hc, _⟩ := call?_of_isCall hrow
      exact ha.withType (Tree.form?_of_call? hc) nofun _
    | item ha hb ht => exact hb.withType (Tree.form?_add _ _) nofun _
    | @column a b scope c row f n i ha hb hnode hab hi hrow hf =>
      have hform : b.tree.form? (some i) = some n.form := by
        rw [hab, hi]
        exact a.tree.form?_push n
      exact (hb.withType (hform.trans (congrArg some hnode)) nofun _).notes (.of_eq rfl) rfl rfl
    | @expanded a b scope i out name names n ha hb hf hnames hlonger hnode hab hout =>
      have hform : b.tree.form? (some out) = some n.form := by
        rw [hab, hout]
        exact a.tree.form?_push n
      exact (hb.withType (hform.trans (congrArg some hnode)) nofun _).notes (.of_eq rfl) rfl rfl
    | target ha hc hi hb hadv hf => exact hb.withType hf nofun _

instance : Listing (ParametersTyped t a₀) := ⟨fun _ _ ha => ha.notes (.of_eq rfl) rfl rfl⟩

theorem of_begun {types : TypeTable} (h : Begun s t root types a₀ a) (ho : t.Ordered)
    (hroot : t.Has root) (hkeyed : types.Keyed) : ParametersTyped t a₀ a := by
  have := entering (s := s) h.placed
  have htypeOf : a₀.typeOf = {} := congrArg Analysis.typeOf h.blank
  have hparameters : a₀.parameters = {} := congrArg Analysis.parameters h.blank
  have htypes : a₀.types = types := congrArg Analysis.types h.blank
  refine h.keeps ho hroot (fun _ hb => hb.same) (fun b id st hb => ?_) ?_
  · exact { hb with same := hb.same.trans sameDeclared_withStatus }
  · refine ⟨.refl _, htypes ▸ hkeyed, ?_, ?_, ?_, ?_⟩
    · rw [hparameters]
      exact List.nodup_nil
    · rw [htypeOf]
      nofun
    · rw [htypeOf]
      nofun
    · rw [hparameters]
      nofun

end ParametersTyped

end Analysis

end SqlAnalysis

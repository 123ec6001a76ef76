import SqlAnalysis.Proofs.Script.Writing

/-!
Names of operators are bound again. A call of a standard operator that is written and read once more
is bound to the same operator, and a function that no registry knows waits again under the same
name.
-/

namespace SqlAnalysis

def Operator.unplaced (o : Operator) : Operator :=
  { o with unresolvedAt := o.unresolvedAt.map fun _ => 0 }

namespace Script

theorem bindOperator_of_boundTo (h : BoundTo ops tok.text n slotted o) :
    ∃ o', bindOperator ops tok n slotted s = .ok (o', s) ∧ o'.unplaced = o.unplaced := by
  unfold bindOperator
  split
  all_goals
    rename_i hover
    have hfound := candidates.eq_def ops tok.text
    simp only [hover] at hfound
    dsimp only
    rw [← hfound]
    cases h with
    | waiting site h =>
      rw [h]
      exact ⟨_, rfl, rfl⟩
    | slotted h =>
      have hne : (candidates ops tok.text).isEmpty = false :=
        List.isEmpty_eq_false_iff_exists_mem.mpr ⟨o, List.mem_of_find?_eq_some h⟩
      rw [hne, h]
      exact ⟨o, rfl, rfl⟩
    | chosen h =>
      have hne : (candidates ops tok.text).isEmpty = false :=
        List.isEmpty_eq_false_iff_exists_mem.mpr ⟨o, mem_of_chooseOverload h⟩
      rw [hne, h]
      exact ⟨o, rfl, rfl⟩

/-- The operator can be called by its name, and its named operands by theirs. -/
structure Notated (ops : Registry) (o : Operator) : Prop extends Legible o where
  again : candidates ops (headText o) = ops.overloads o.name
  /-- The operator is the one of its name that has named operands, also for a call without any
  operands. -/
  only : o.slots ≠ [] → (ops.overloads o.name).find? (fun o => !o.slots.isEmpty) = some o ∧
    chooseOverload (ops.overloads o.name) 0 = some o
  lower : ∀ slot ∈ o.slots, Text.lower slot = slot
  nodup : o.slots.Nodup

/-! ### Standard operators -/

instance (cs : List Char) : Decidable (IsName cs) :=
  decidable_of_iff (cs ≠ [] ∧ ∀ c ∈ cs, isWordChar c)
  ⟨fun h => ⟨h.1, h.2⟩, fun h => ⟨h.1, h.2⟩⟩

def underscored (name : List Char) : List Char := name.map fun c => if c = ' ' then '_' else c

/-- A name among others in capitals: with underscores for its blanks it is a word, and no other
name. -/
def isNotated (names : List (List Char)) (name : List Char) : Bool :=
  decide (IsWord (underscored name)) && name.map Text.upperChar == name &&
    (!name.contains ' ' || !name.contains '_' && names.all fun other =>
    !other.contains '_' || other != underscored name)

theorem isNotated_standard :
    ((Registry.standard.operators.map fun o => o.name.toList).all
      (isNotated (Registry.standard.operators.map fun o => o.name.toList))) := by decide +kernel

theorem slotted_standard : ∀ o ∈ Registry.standard.operators, o.slots ≠ [] →
      Registry.standard.operators.filter (fun p => p.name == o.name) = [o] ∧
      chooseOverload [o] 0 = some o ∧ (∀ slot ∈ o.slots, IsName slot.toList ∧
      Text.lower slot = slot) ∧ o.slots.Nodup := by decide +kernel

theorem toList_headText : (headText o).toList = underscored o.name.toList := by
  rw [headText, Text.replaceChar, String.toList_ofList]
  rfl

theorem upper_eq_self (h : s.toList.map Text.upperChar = s.toList) : Text.upper s = s := by
  rw [Text.upper, h, String.ofList_toList]

theorem underscored_eq_self (h : ' ' ∉ cs) : underscored cs = cs := by
  refine (List.map_congr_left fun c hc => ?_).trans (List.map_id cs)
  exact if_neg fun heq : c = ' ' => h (heq ▸ hc)

theorem mem_underscored (h : ' ' ∈ cs) : '_' ∈ underscored cs :=
  List.mem_map.mpr ⟨' ', h, rfl⟩

/-- Blanks come back for the underscores in a name that has no underscores of its own. -/
theorem replaceChar_headText (h : '_' ∉ o.name.toList) :
    Text.replaceChar '_' ' ' (headText o) = o.name := by
  rw [Text.replaceChar, toList_headText, underscored, List.map_map, ← String.toList_inj,
    String.toList_ofList]
  refine (List.map_congr_left fun c hc => ?_).trans (List.map_id _)
  by_cases hblank : c = ' '
  · simp [hblank]
  · have hunder : c ≠ '_' := fun heq => h (heq ▸ hc)
    simp [hblank, hunder]

theorem upper_underscored (h : cs.map Text.upperChar = cs) :
    (underscored cs).map Text.upperChar = underscored cs := by
  rw [underscored, List.map_map]
  refine List.map_congr_left fun c hc => ?_
  have hupper : Text.upperChar c = c := List.map_inj_left.mp (h.trans (List.map_id cs).symm) c hc
  by_cases hblank : c = ' '
  · simp [hblank]
    decide
  · simp [hblank, hupper]

section

variable (ho : o ∈ Registry.standard.operators)
include ho

theorem upper_standard : o.name.toList.map Text.upperChar = o.name.toList := by
  have h :=
    List.all_eq_true.mp isNotated_standard _ (List.mem_map_of_mem (f := fun o => o.name.toList) ho)
  simp only [isNotated, Bool.and_eq_true, beq_iff_eq] at h
  exact h.1.2

theorem candidates_headText :
    candidates .standard (headText o) = Registry.standard.overloads o.name := by
  by_cases hblank : ' ' ∈ o.name.toList
  · have h := List.all_eq_true.mp isNotated_standard _
      (List.mem_map_of_mem (f := fun o => o.name.toList) ho)
    have hcontains : o.name.toList.contains ' ' := by simpa using hblank
    simp only [isNotated, hcontains, Bool.and_eq_true, Bool.not_true, Bool.false_or,
      List.all_eq_true, List.mem_map, forall_exists_index, and_imp, Bool.or_eq_true,
      Bool.not_eq_true', bne_iff_ne] at h
    obtain ⟨_, hunder, hothers⟩ := h
    have hnone : Registry.standard.overloads (headText o) = [] := by
      refine List.filter_eq_nil_iff.mpr fun p hp hkey => ?_
      have hnames : p.name.toList = underscored o.name.toList := by
        have hkey := beq_iff_eq.mp hkey
        rw [upper_eq_self (upper_standard hp), upper_eq_self] at hkey
        · rw [hkey, toList_headText]
        · rw [toList_headText]
          exact upper_underscored (upper_standard ho)
      rcases hothers _ p hp rfl with h | h
      · rw [hnames] at h
        exact absurd (mem_underscored hblank) (by simpa using h)
      · exact h hnames
    rw [candidates, hnone, replaceChar_headText (by simpa using hunder)]
  · have hhead : headText o = o.name := by
      rw [← String.toList_inj, toList_headText, underscored_eq_self hblank]
    have hmem : o ∈ Registry.standard.overloads o.name :=
      List.mem_filter.mpr ⟨ho, beq_self_eq_true _⟩
    rw [candidates, hhead]
    split
    · rename_i hnil
      rw [hnil] at hmem
      cases hmem
    · rfl

theorem notated_standard : Notated .standard o := by
  have hword : IsWord (headText o).toList := by
    have h := List.all_eq_true.mp isNotated_standard _
      (List.mem_map_of_mem (f := fun o => o.name.toList) ho)
    simp only [isNotated, Bool.and_eq_true, decide_eq_true_eq] at h
    rw [toList_headText]
    exact h.1.1
  have hagain := candidates_headText ho
  by_cases hslots : o.slots = []
  · refine ⟨⟨hword, ?_⟩, hagain, fun h => absurd hslots h, ?_, ?_⟩ <;> rw [hslots]
    · exact nofun
    · exact nofun
    · exact List.nodup_nil
  · obtain ⟨honly, hchoice, hnames, hnodup⟩ := slotted_standard o ho hslots
    have honly : Registry.standard.overloads o.name = [o] := by
      refine .trans (List.filter_congr fun p hp => ?_) honly
      have hupper {p : Operator} (hp : p ∈ Registry.standard.operators) :=
        upper_eq_self (upper_standard hp)
      rw [hupper hp, hupper ho]
    refine ⟨⟨hword, fun slot hslot => (hnames slot hslot).1⟩, hagain, fun _ => ?_,
      fun slot hslot => (hnames slot hslot).2, hnodup⟩
    rw [honly]
    exact ⟨List.find?_cons_of_pos (by simpa using hslots), hchoice⟩

end

/-! ### Functions that wait -/

theorem upperChar_eq_iff (hd : d.toNat < 128) (hletter : d.isAlpha = false) :
    Text.upperChar c = d ↔ c = d := by
  refine ⟨Text.eq_of_upperChar_eq hd hletter, fun h => ?_⟩
  rw [h]
  exact Text.of_ascii (P := fun d => d.isAlpha = false → Text.upperChar d = d)
    (by decide) hd hletter

theorem isWord_upper (h : IsWord s.toList) : IsWord (Text.upper s).toList := by
  rw [Text.upper, String.toList_ofList]
  refine isWord_iff.mpr ⟨fun hnil => h.ne_nil (List.map_eq_nil_iff.mp hnil), ?_, ?_, ?_⟩
  · intro c hc
    obtain ⟨d, hd, rfl⟩ := List.mem_map.mp hc
    rw [isWordChar_upperChar]
    exact h.chars d hd
  · intro c hc
    rw [List.head?_map, Option.mem_toList, Option.map_eq_some_iff] at hc
    obtain ⟨d, hd, rfl⟩ := hc
    simp only [ne_eq, upperChar_eq_iff (d := '?') (by decide) (by decide),
      upperChar_eq_iff (d := ':') (by decide) (by decide),
      upperChar_eq_iff (d := '#') (by decide) (by decide)]
    exact h.unmarked d hd
  · intro htake
    refine (isWord_iff.mp h).2.2.2 ?_
    rw [← List.map_take] at htake
    obtain ⟨c, cs, hcs, hc, hrest⟩ := List.map_eq_cons_iff.mp htake
    obtain ⟨d, ds, rfl, hd, hnil⟩ := List.map_eq_cons_iff.mp hrest
    rw [List.map_eq_nil_iff.mp hnil, (upperChar_eq_iff (by decide) (by decide)).mp hc,
      (upperChar_eq_iff (by decide) (by decide)).mp hd] at hcs
    exact hcs

theorem headText_unresolved (h : IsWord head.toList) (site : Nat) :
    headText (.unresolved head site) = Text.upper head := by
  rw [← String.toList_inj, toList_headText]
  refine underscored_eq_self fun hblank => ?_
  exact absurd ((isWord_upper h).chars _ hblank) (by decide)

theorem candidates_upper (h : candidates ops head = []) :
    candidates ops (Text.upper head) = [] := by
  have hover {key key' : String} (hkey : Text.upper key = Text.upper key') : ops.overloads key =
      ops.overloads key' := by
    simp only [Registry.overloads, hkey]
  have hspaced : Text.upper (Text.replaceChar '_' ' ' (Text.upper head)) =
      Text.upper (Text.replaceChar '_' ' ' head) := by
    simp only [Text.upper, Text.replaceChar, String.toList_ofList, List.map_map]
    congr 1
    refine List.map_congr_left fun c _ => ?_
    have hunder := upperChar_eq_iff (c := c) (d := '_') (by decide) (by decide)
    by_cases hc : c = '_'
    · subst hc
      simp [hunder]
    · have hc' : Text.upperChar c ≠ '_' := fun h => hc (hunder.mp h)
      simp [hc, hc']
  unfold candidates at h ⊢
  rw [hover Text.upper_upper, hover hspaced]
  exact h

theorem boundTo_unresolved (hw : IsWord head.toList) (h : candidates ops head = []) :
    BoundTo ops (headText (.unresolved head site)) n false (.unresolved head site) := by
  have hunresolved : Operator.unresolved head site = .unresolved (Text.upper head) site := by
    simp [Operator.unresolved]
  rw [headText_unresolved hw, hunresolved]
  exact .waiting site (candidates_upper h)

/-! ### Calls -/

/-- The name of the operator is bound to it again when `n` operands are written with it: in place,
or all of them by their names. -/
structure Rebinds (ops : Registry) (o : Operator) (n : Nat) : Prop extends Legible o where
  placed : o.slots = [] → BoundTo ops (headText o) n false o
  named : o.slots ≠ [] → n = o.slots.length ∧ BoundTo ops (headText o) 0 true o ∧
    BoundTo ops (headText o) 0 false o
  lower : ∀ slot ∈ o.slots, Text.lower slot = slot
  nodup : o.slots.Nodup

theorem rebinds_unresolved (hw : IsWord head.toList) (h : candidates ops head = []) :
    Rebinds ops (.unresolved head site) n where
  head := headText_unresolved hw site ▸ isWord_upper hw
  slots := nofun
  placed _ := boundTo_unresolved hw h
  named h := absurd rfl h
  lower := nofun
  nodup := List.nodup_nil

theorem Notated.rebinds (ho : Notated ops o)
    (hplaced : o.slots = [] → chooseOverload (ops.overloads o.name) n = some o)
    (hlen : o.slots ≠ [] → n = o.slots.length) : Rebinds ops o n where
  toLegible := ho.toLegible
  placed h := .chosen (ho.again ▸ hplaced h)
  named h := ⟨hlen h, .slotted (ho.again ▸ (ho.only h).1), .chosen (ho.again ▸ (ho.only h).2)⟩
  lower := ho.lower
  nodup := ho.nodup

theorem ReadCall.rebinds {operands : List Link} (hops : ∀ o ∈ ops.operators, Notated ops o)
    (h : ReadCall ops o operands) (hroom : o.slots = [] ∨ operands.length ≤ o.slots.length) :
    Rebinds ops o operands.length := by
  have hmem {o : Operator} {head : String} (h : o ∈ candidates ops head) : o ∈ ops.operators :=
    (List.mem_filter.mp (candidates_eq h ▸ h)).1
  cases h with
  | @placed head _ operands hw h =>
    cases h with
    | waiting site h => exact rebinds_unresolved hw h
    | chosen h =>
      have ho := mem_of_chooseOverload h
      refine (hops o (hmem ho)).rebinds (fun hslots => ?_) fun hslots => ?_
      · rw [← candidates_eq ho, hslots]
        simpa using h
      · simp only [hslots, false_or, List.length_append, List.length_replicate] at hroom ⊢
        omega
  | named hw h hlen =>
    cases h with
    | slotted h =>
      have ho := List.mem_of_find?_eq_some h
      refine (hops o (hmem ho)).rebinds (fun hslots => ?_) fun _ => hlen
      have hsome := List.find?_some h
      simp [hslots] at hsome

end Script

end SqlAnalysis

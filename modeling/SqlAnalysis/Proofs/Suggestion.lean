import SqlAnalysis.Proofs.Text.Sorted
import SqlAnalysis.Suggestion

/-!
What is offered for a name depends only on the set of candidates. Candidates are sorted by a strict
total order, their distance from the name and then themselves, and there is only one way to sort a
set by such an order. That is so however distances are measured.
-/

namespace SqlAnalysis.Suggestion

variable {measure : String → String → Nat} {name c : String} {cs : List String}

/-- Nearer to `name`, or as near and earlier in the order of names. -/
def Nearer (measure : String → String → Nat) (name a b : String) : Prop :=
  distance measure name a < distance measure name b ∨
    distance measure name a = distance measure name b ∧ a < b

/-- The texts in `P`, each of them once, the nearest to `name` first. -/
structure Ranking (measure : String → String → Nat) (name : String) (P : String → Prop)
    (l : List String) : Prop where
  mem_iff : ∀ c, c ∈ l ↔ P c
  sorted : l.Pairwise (Nearer measure name)

theorem Nearer.irrefl : ¬ Nearer measure name a a := by
  rintro (h | ⟨_, h⟩)
  · exact Nat.lt_irrefl _ h
  · exact String.lt_irrefl a h

theorem Nearer.trans (hab : Nearer measure name a b) (hbc : Nearer measure name b c) :
    Nearer measure name a c := by
  rcases hab with hab | ⟨hab, hlt⟩ <;> rcases hbc with hbc | ⟨hbc, hlt'⟩
  · exact .inl (Nat.lt_trans hab hbc)
  · exact .inl (Nat.lt_of_lt_of_eq hab hbc)
  · exact .inl (Nat.lt_of_le_of_lt (Nat.le_of_eq hab) hbc)
  · exact .inr ⟨hab.trans hbc, String.lt_trans hlt hlt'⟩

theorem precedes_iff : precedes measure name a b ↔ Nearer measure name a b ∨ a = b := by
  simp only [precedes, Nearer, Bool.or_eq_true, Bool.and_eq_true, decide_eq_true_eq, beq_iff_eq]
  by_cases hab : a = b
  · simp [hab]
  · have hle : a ≤ b ↔ a < b := ⟨fun h => String.not_le.mp fun h' => hab (String.le_antisymm h h'),
      fun h => String.not_lt.mp (String.lt_asymm h)⟩
    simp [hab, hle]

theorem precedes_trans (measure : String → String → Nat) (name a b c : String)
    (hab : precedes measure name a b) (hbc : precedes measure name b c) :
    precedes measure name a c := by
  rw [precedes_iff] at *
  rcases hab with hab | rfl
  · exact .inl (hbc.elim hab.trans fun h => h ▸ hab)
  · exact hbc

theorem precedes_total (measure : String → String → Nat) (name a b : String) :
    precedes measure name a b || precedes measure name b a := by
  simp only [precedes, Bool.or_eq_true, Bool.and_eq_true, decide_eq_true_eq, beq_iff_eq]
  rcases Nat.lt_trichotomy (distance measure name a) (distance measure name b) with h | h | h
  · exact .inl (.inl h)
  · exact (String.le_total a b).imp (fun hle => .inr ⟨h, hle⟩) fun hle => .inr ⟨h.symm, hle⟩
  · exact .inr (.inl h)

theorem ranking_ranked (measure : String → String → Nat) (name : String) (cs : List String) :
    Ranking measure name (fun c => c ∈ cs ∧ c ≠ "") (ranked measure name cs) where
  mem_iff c := by
    rw [ranked, List.mem_mergeSort, List.mem_eraseDups, List.mem_filter, bne_iff_ne]
  sorted := by
    have hsorted : (ranked measure name cs).Pairwise fun a b => precedes measure name a b ∧ a ≠ b :=
      Text.pairwise_mergeSort_eraseDups (precedes_trans measure name)
        (precedes_total measure name) _
    exact hsorted.imp fun h => (precedes_iff.mp h.1).resolve_right h.2

theorem Ranking.congr (h : Ranking measure name P l) (hPQ : ∀ c, P c ↔ Q c) :
    Ranking measure name Q l :=
  ⟨fun c => (h.mem_iff c).trans (hPQ c), h.sorted⟩

theorem Ranking.unique (h : Ranking measure name P l) (h' : Ranking measure name P l') :
    l = l' := by
  have hne {a b : String} (h : Nearer measure name a b) : a ≠ b :=
    fun heq => Nearer.irrefl (heq ▸ h)
  have hnodup {l : List String} (h : Ranking measure name P l) : l.Nodup :=
    List.Pairwise.imp hne h.sorted
  have hperm : l.Perm l' :=
    (List.perm_ext_iff_of_nodup (hnodup h) (hnodup h')).mpr fun c =>
      (h.mem_iff c).trans (h'.mem_iff c).symm
  refine hperm.eq_of_pairwise (fun a b _ _ hab hba => ?_) h.sorted h'.sorted
  exact absurd (hab.trans hba) Nearer.irrefl

theorem ranking_filter (measure : String → String → Nat)
    (name : String) (p : String → Bool) (cs : List String) :
    Ranking measure name (fun c => c ∈ cs ∧ c ≠ "" ∧ p c) (ranked measure name (cs.filter p)) := by
  refine (ranking_ranked measure name _).congr fun c => ?_
  rw [List.mem_filter, and_assoc, and_comm (a := p c = true)]

/-- However distances are measured, the similar candidates and those that complete a name are
ranked, and nothing but the set of candidates counts. -/
theorem offers_by_rank (measure : String → String → Nat) (name : String)
    (limit : Int) (cs : List String) :
    (∃ all, Ranking measure name
        (fun c => c ∈ cs ∧ c ≠ "" ∧ distance measure name c ≤ tolerance name) all ∧
      closestBy measure name limit cs = all.take (min limit all.length).toNat) ∧
    Ranking measure name
      (fun c => c ∈ cs ∧ c ≠ "" ∧ (Text.upper name).toList <+: (Text.upper c).toList)
      (completionsBy measure name cs) ∧
    ∀ cs', (∀ c, c ∈ cs' ↔ c ∈ cs) →
      closestBy measure name limit cs' = closestBy measure name limit cs ∧
      completionsBy measure name cs' = completionsBy measure name cs := by
  have hsame {cs' : List String} (h : ∀ c, c ∈ cs' ↔ c ∈ cs) (p : String → Bool) :
      ranked measure name (cs'.filter p) = ranked measure name (cs.filter p) :=
    (ranking_filter measure name p cs').unique
      ((ranking_filter measure name p cs).congr fun c => and_congr_left fun _ => (h c).symm)
  refine ⟨⟨_,
    (ranking_filter measure name (fun c => distance measure name c ≤ tolerance name) cs).congr
      fun c => by rw [decide_eq_true_eq], ?_⟩,
    (ranking_filter measure name (startsWith name) cs).congr fun c => by
      rw [startsWith, List.isPrefixOf_iff_prefix],
    fun cs' h => ⟨?_, hsame h _⟩⟩
  · rw [closestBy, List.take_eq_take_min]
    congr 1
    omega
  · rw [closestBy, closestBy, hsame h]

/-- The order of the candidates and how often each is given make no difference. -/
theorem offers_of_repeated : (∀ c, c ∈ ["EMP", "DEPT", "EMP"] ↔ c ∈ ["DEPT", "EMP"]) ∧
    closest "EMPS" 5 ["EMP", "DEPT", "EMP"] = closest "EMPS" 5 ["DEPT", "EMP"] ∧
    completions "e" ["EMP", "DEPT", "EMP"] = completions "e" ["DEPT", "EMP"] := by
  have h : ∀ c, c ∈ ["EMP", "DEPT", "EMP"] ↔ c ∈ ["DEPT", "EMP"] := fun c => by simp; tauto
  obtain ⟨_, _, hclosest⟩ := offers_by_rank Text.distance "EMPS" 5 ["DEPT", "EMP"]
  obtain ⟨_, _, hcompletions⟩ := offers_by_rank Text.distance "e" 5 ["DEPT", "EMP"]
  exact ⟨h, (hclosest _ h).1, (hcompletions _ h).2⟩

end SqlAnalysis.Suggestion

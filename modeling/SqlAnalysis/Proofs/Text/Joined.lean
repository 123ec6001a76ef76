import Mathlib.Data.List.Basic

/-!
Texts joined by a separator. Texts can be read off from what they are joined to if it can be told
where each of them ends, for example because they do not contain the character that the separator
starts with.
-/

namespace SqlAnalysis.Text

variable {d : Char} {ds : List Char}

/-- What stands before the first separator is the same. -/
theorem eq_of_append_eq (hu : d ∉ u) (hv : d ∉ v) (hr : r = [] ∨ r.head? = some d)
    (hr' : r' = [] ∨ r'.head? = some d) (h : u ++ r = v ++ r') : u = v ∧ r = r' := by
  have htake {u r : List Char} (hu : d ∉ u) (hr : r = [] ∨ r.head? = some d) : (u ++ r).takeWhile
      (· != d) = u := by
    have hplain : ∀ c ∈ u, (c != d) := fun c hc => bne_iff_ne.mpr fun h => hu (h ▸ hc)
    rw [List.takeWhile_append_of_pos hplain]
    rcases hr with rfl | hr
    · simp
    · cases r with
      | nil => cases hr
      | cons c r => cases hr; simp
  have huv : u = v := by rw [← htake hu hr, h, htake hv hr']
  subst huv
  exact ⟨rfl, List.append_cancel_left h⟩

theorem eq_nil_of_intercalate_eq_nil (hu : ∀ u ∈ us, u ≠ []) (h : ds.intercalate us = []) :
    us = [] := by
  cases us with
  | nil => rfl
  | cons u us =>
    obtain ⟨r, hr⟩ : ∃ r, ds.intercalate (u :: us) = u ++ r := by
      cases us with
      | nil => exact ⟨[], by simp [List.intercalate]⟩
      | cons v us => exact ⟨ds ++ ds.intercalate (v :: us), by simp [List.intercalate]⟩
    rw [hr] at h
    exact absurd (List.append_eq_nil_iff.mp h).1 (hu u List.mem_cons_self)

/-- Texts can be read off from their list if each can be read off from what starts with it and goes
on with a separator. -/
theorem intercalate_injective {P : List Char → Prop} (hP : ∀ {u v r r'}, P u → P v →
    (r = [] ∨ r.head? = some d) → (r' = [] ∨ r'.head? = some d) → u ++ r = v ++ r' → u = v ∧ r = r')
    (hu : ∀ u ∈ us, P u) (hv : ∀ v ∈ vs, P v) (hnil : us = [] ↔ vs = [])
    (h : (d :: ds).intercalate us = (d :: ds).intercalate vs) : us = vs := by
  have htail (us : List (List Char)) : ∃ r, (r = [] ∨ r.head? = some d) ∧
      (∀ u, (d :: ds).intercalate (u :: us) = u ++ r) ∧
      (us = [] ∧ r = [] ∨ us ≠ [] ∧ r = (d :: ds) ++ (d :: ds).intercalate us) := by
    cases us with
    | nil => exact ⟨[], .inl rfl, fun u => by simp [List.intercalate], .inl ⟨rfl, rfl⟩⟩
    | cons v us => exact ⟨_, .inr rfl, fun u => by simp [List.intercalate], .inr ⟨nofun, rfl⟩⟩
  induction us generalizing vs with
  | nil => exact (hnil.mp rfl).symm
  | cons u us ih =>
    cases vs with
    | nil => cases hnil.mpr rfl
    | cons v vs =>
      obtain ⟨r, hhead, hr, hus⟩ := htail us
      obtain ⟨r', hhead', hr', hvs⟩ := htail vs
      rw [hr u, hr' v] at h
      obtain ⟨rfl, rfl⟩ := hP (hu u List.mem_cons_self) (hv v List.mem_cons_self) hhead hhead' h
      rw [List.forall_mem_cons] at hu hv
      obtain ⟨rfl, hus⟩ | ⟨hus, hr⟩ := hus <;> obtain ⟨rfl, hvs⟩ | ⟨hvs, hr'⟩ := hvs
      · rfl
      · rw [hus] at hr'
        cases hr'
      · rw [hvs] at hr
        cases hr
      · refine congrArg (u :: ·) (ih hu.2 hv.2 ⟨fun h => absurd h hus, fun h => absurd h hvs⟩ ?_)
        exact List.append_cancel_left (hr.symm.trans hr')

end SqlAnalysis.Text

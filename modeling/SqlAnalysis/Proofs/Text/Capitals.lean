import Mathlib.Data.List.Basic
import SqlAnalysis.Text.Blank
import SqlAnalysis.Text.Case

/-!
Capital letters. No capital letter has a capital letter of its own, so a text in capitals stays as
it is, and nothing but a letter becomes a letter.
-/

namespace SqlAnalysis.Text

def CaseRun.holds (r : CaseRun) (n : Nat) : Bool :=
  Nat.ble r.first n && Nat.ble n r.last && Nat.beq ((n - r.first) % r.step) 0

theorem CaseRun.holds_iff {r : CaseRun} :
    r.holds n ↔ r.first ≤ n ∧ n ≤ r.last ∧ (n - r.first) % r.step = 0 := by
  simp [holds, and_assoc]

theorem exists_of_partner_eq_some (h : partner n runs = some m) :
    ∃ r ∈ runs, r.holds n ∧ m = Int.toNat (n + r.shift) := by
  induction runs with
  | nil => cases h
  | cons r rs ih =>
    rw [partner] at h
    split at h
    · rename_i hr
      cases h
      exact ⟨r, List.mem_cons_self, CaseRun.holds_iff.mpr hr, rfl⟩
    · obtain ⟨r', hr', h'⟩ := ih h
      exact ⟨r', List.mem_cons_of_mem r hr', h'⟩

theorem partner_eq_none (h : ∀ r ∈ runs, r.holds n = false) : partner n runs = none := by
  induction runs with
  | nil => rfl
  | cons r rs ih =>
    obtain ⟨hr, hrs⟩ := List.forall_mem_cons.mp h
    rw [partner, if_neg, ih hrs]
    intro hn
    rw [CaseRun.holds_iff.mpr hn] at hr
    cases hr

/-- No partner of a code point in the first run is in the second run. The ranges tell most runs
apart. -/
def CaseRun.misses (r r' : CaseRun) : Bool :=
  let first := Int.toNat (r.first + r.shift)
  let last := Int.toNat (r.last + r.shift)
  Nat.blt last r'.first || Nat.blt r'.last first ||
    (List.range ((r.last - r.first) / r.step + 1)).all fun k => !r'.holds (first + k * r.step)

/-- A run of small letters: their capitals are characters, and none of them is a mark. -/
def CaseRun.ofLetters (r : CaseRun) : Bool :=
  decide (128 ≤ r.first ∧ 0 < r.step ∧ 0 ≤ r.first + r.shift ∧
    (r.last + r.shift < 0xD800 ∨ 0xDFFF < r.first + r.shift ∧ r.last + r.shift < 0x110000) ∧
    (128 ≤ r.first + r.shift ∨ r.first = r.last ∧
      (r.first + r.shift = 73 ∨ r.first + r.shift = 83)))

theorem upperRuns_misses :
    (upperRuns.all fun r => upperRuns.all fun r' => r.misses r') := by decide +kernel

theorem upperRuns_ofLetters : upperRuns.all CaseRun.ofLetters := by decide +kernel

theorem CaseRun.holds_of_misses {r r' : CaseRun} (h : r.misses r') (hr : r.ofLetters)
    (hn : r.holds n) : r'.holds (Int.toNat (n + r.shift)) = false := by
  obtain ⟨-, hstep, hshift, -⟩ := of_decide_eq_true hr
  obtain ⟨hfirst, hlast, hmod⟩ := holds_iff.mp hn
  rw [misses] at h
  simp only [Bool.or_eq_true, List.all_eq_true, List.mem_range, Nat.blt_eq, Bool.not_eq_true'] at h
  obtain (h | h) | h := h
  · refine Bool.eq_false_iff.mpr fun hholds => ?_
    have := (holds_iff.mp hholds).1
    omega
  · refine Bool.eq_false_iff.mpr fun hholds => ?_
    have := (holds_iff.mp hholds).2.1
    omega
  · obtain ⟨k, hk⟩ : r.step ∣ n - r.first := Nat.dvd_of_mod_eq_zero hmod
    have hbound : k < (r.last - r.first) / r.step + 1 := by
      rw [Nat.lt_succ_iff, Nat.le_div_iff_mul_le hstep, Nat.mul_comm, ← hk]
      exact Nat.sub_le_sub_right hlast _
    have heq : Int.toNat (n + r.shift) = Int.toNat (r.first + r.shift) + k * r.step := by
      rw [Nat.mul_comm, ← hk]
      omega
    rw [heq]
    exact h k hbound

theorem partner_upperRuns (h : partner n upperRuns = some m) :
    (Char.ofNat m).toNat = m ∧ partner m upperRuns = none ∧ (128 ≤ m ∨ m = 73 ∨ m = 83) := by
  obtain ⟨r, hr, hn, rfl⟩ := exists_of_partner_eq_some h
  have hletters := List.all_eq_true.mp upperRuns_ofLetters r hr
  have hmisses := List.all_eq_true.mp (List.all_eq_true.mp upperRuns_misses r hr)
  obtain ⟨-, -, hshift, hchar, hmark⟩ := of_decide_eq_true hletters
  obtain ⟨hfirst, hlast, -⟩ := CaseRun.holds_iff.mp hn
  refine ⟨?_, partner_eq_none fun r' hr' => CaseRun.holds_of_misses (hmisses r' hr') hletters hn,
    by omega⟩
  have hvalid : (Int.toNat (n + r.shift)).isValidChar := by
    rcases hchar with h | h
    · exact .inl (by omega)
    · exact .inr ⟨by omega, by omega⟩
  rw [Char.ofNat, dif_pos hvalid]
  rfl

theorem of_ascii {P : Char → Prop} (h : ∀ n < 128, P (Char.ofNat n)) (hc : c.toNat < 128) : P c :=
  Char.ofNat_toNat c ▸ h c.toNat hc

theorem upperChar_ascii (hc : c.toNat < 128) :
    upperChar (upperChar c) = upperChar c ∧ (upperChar c = c ∨ (upperChar c).isAlpha) :=
  of_ascii (P := fun c => upperChar (upperChar c) = upperChar c ∧
    (upperChar c = c ∨ (upperChar c).isAlpha)) (by decide +kernel) hc

/-- A character stays as it is or becomes a capital letter. -/
inductive Capital (c : Char) : Char → Prop where
  | self : Capital c c
  | ascii {d : Char} (h : d.isAlpha) : Capital c d
  | wide {d : Char} (h : 128 ≤ d.toNat) : Capital c d

theorem upperChar_upperChar_and :
    upperChar (upperChar c) = upperChar c ∧ Capital c (upperChar c) := by
  by_cases hc : c.toNat < 128
  · obtain ⟨hidem, hself⟩ := upperChar_ascii hc
    refine ⟨hidem, ?_⟩
    rcases hself with h | h
    · rw [h]
      exact .self
    · exact .ascii h
  · have hupper : upperChar c = (partner c.toNat upperRuns).elim c Char.ofNat := by
      rw [upperChar, mapCase, if_neg hc]
      cases partner c.toNat upperRuns <;> rfl
    cases hpartner : partner c.toNat upperRuns with
    | none =>
      rw [hpartner, Option.elim_none] at hupper
      simp only [hupper, true_and]
      exact .self
    | some m =>
      obtain ⟨hm, hnone, hmark⟩ := partner_upperRuns hpartner
      rw [hpartner, Option.elim_some] at hupper
      rw [hupper]
      rcases hmark with h | rfl | rfl
      · refine ⟨?_, .wide (hm.symm ▸ h)⟩
        rw [upperChar, mapCase, if_neg (by omega), hm, hnone]
      · exact ⟨by decide, .ascii (by decide)⟩
      · exact ⟨by decide, .ascii (by decide)⟩

@[simp] theorem upperChar_upperChar : upperChar (upperChar c) = upperChar c :=
  upperChar_upperChar_and.1

theorem capital_upperChar (c : Char) : Capital c (upperChar c) := upperChar_upperChar_and.2

/-- Only a character that is no letter becomes one. -/
theorem eq_of_upperChar_eq (hd : d.toNat < 128) (hletter : d.isAlpha = false)
    (h : upperChar c = d) : c = d := by
  have hc := capital_upperChar c
  rw [h] at hc
  cases hc with
  | self => rfl
  | ascii h => rw [hletter] at h; cases h
  | wide h => omega

@[simp] theorem upper_upper : upper (upper s) = upper s := by
  simp [upper, Function.comp_def]

end SqlAnalysis.Text

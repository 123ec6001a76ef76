import Mathlib.Algebra.Ring.Int.Defs
import SqlAnalysis.Number.Digits

/-!
Numbers written in digits can be read back, and numbers that fit into their bits are kept as they
are.
-/

namespace SqlAnalysis.Number

theorem isDigit_iff : isDigit c ↔ c.isDigit := by
  simp only [isDigit, Char.isDigit, Bool.and_eq_true, decide_eq_true_eq]
  rfl

theorem isDigit_of_mem_digits (h : c ∈ digits n) : isDigit c :=
  isDigit_iff.mpr (Nat.isDigit_of_mem_toDigits (by decide) (by decide) h)

theorem ofDigits_digits (n : Nat) : ofDigits (digits n) = n :=
  Nat.ofDigitChars_toDigits (by decide) (by decide)

theorem toList_natText : (natText n).toList = digits n := by rw [natText, String.toList_ofList]

theorem mem_intText (h : c ∈ (intText n).toList) : isDigit c ∨ c = '-' := by
  unfold intText at h
  split at h
  · rw [String.toList_append, List.mem_append, toList_natText] at h
    obtain h | h := h
    · exact .inr (List.mem_singleton.mp h)
    · exact .inl (isDigit_of_mem_digits h)
  · rw [toList_natText] at h
    exact .inl (isDigit_of_mem_digits h)

theorem not_mem_intText (hdigit : isDigit c = false) (hsign : c ≠ '-') (n : Int) :
    c ∉ (intText n).toList := by
  intro h
  rcases mem_intText h with h | h
  · rw [hdigit] at h
    cases h
  · exact hsign h

theorem natText_injective (h : natText m = natText n) : m = n := by
  have hdigits : digits m = digits n := by rw [← toList_natText, h, toList_natText]
  rw [← ofDigits_digits m, hdigits, ofDigits_digits]

theorem intText_injective (h : intText m = intText n) : m = n := by
  have hsign {k : Nat} {l : Nat} : "-" ++ natText k ≠ natText l := by
    intro h
    have hmem : '-' ∈ (natText l).toList := by rw [← h, String.toList_append]; simp
    rw [toList_natText] at hmem
    exact absurd (isDigit_of_mem_digits hmem) (by decide)
  unfold intText at h
  split at h <;> split at h
  · have := natText_injective (String.append_right_inj _ |>.mp h)
    omega
  · exact absurd h hsign
  · exact absurd h.symm hsign
  · have := natText_injective h
    omega

def Fits (bits : Nat) (n : Int) : Prop := -2 ^ (bits - 1) ≤ n ∧ n < 2 ^ (bits - 1)

theorem Fits.wrap_eq (h : Fits 64 n) : wrap 64 n = n :=
  Int.bmod_eq_of_le h.1 h.2

end SqlAnalysis.Number

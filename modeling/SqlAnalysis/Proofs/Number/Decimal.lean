import Mathlib.Data.List.TakeWhile
import Mathlib.Tactic.Ring
import SqlAnalysis.Number.Decimal
import SqlAnalysis.Proofs.Number.Digits

/-!
Decimal numbers and the digits they are written in. The text of a number without a power of ten is
read as a number of the same value; zeros at the end of a fraction are lost, and the value is not.
-/

namespace SqlAnalysis

namespace Number

theorem ofDigits_append (cs ds : List Char) :
    ofDigits (cs ++ ds) = ofDigits cs * 10 ^ ds.length + ofDigits ds := by
  have hfold (ds : List Char) (n : Nat) :
      ds.foldl (fun n c => 10 * n + (c.toNat - 48)) n = n * 10 ^ ds.length + ofDigits ds := by
    induction ds generalizing n with
    | nil => simp [ofDigits]
    | cons c ds ih =>
      have hcons : ofDigits (c :: ds) = (c.toNat - 48) * 10 ^ ds.length + ofDigits ds := by
        rw [ofDigits, List.foldl_cons, ih, Nat.mul_zero, Nat.zero_add]
      rw [List.foldl_cons, ih, hcons, List.length_cons, Nat.pow_succ]
      ring
  rw [ofDigits, List.foldl_append, hfold]
  rfl

theorem ofDigits_zeros (k : Nat) : ofDigits (List.replicate k '0') = 0 := by
  induction k with
  | zero => rfl
  | succ k ih => rw [List.replicate_succ', ofDigits_append, ih]; rfl

theorem digits_ne_nil (n : Nat) : digits n ≠ [] := Nat.toDigits_ne_nil

theorem readNat?_of_digits (hne : cs ≠ []) (h : ∀ c ∈ cs, isDigit c) :
    readNat? cs = some (ofDigits cs) := by
  rw [readNat?, if_pos ⟨hne, List.all_eq_true.mpr h⟩]

theorem readInt?_of_digits (hne : cs ≠ []) (h : ∀ c ∈ cs, isDigit c) (negative : Bool) :
    readInt? ((if negative then ['-'] else []) ++ cs) =
      some (if negative then -(ofDigits cs : Int) else ofDigits cs) := by
  cases negative with
  | true =>
    simp only [if_true, List.cons_append, List.nil_append, readInt?, readNat?_of_digits hne h]; rfl
  | false =>
    rw [if_neg Bool.false_ne_true, if_neg Bool.false_ne_true, List.nil_append, readInt?.eq_def]
    split
    · exact absurd (h '-' List.mem_cons_self) (by decide)
    · exact absurd (h '+' List.mem_cons_self) (by decide)
    · rw [readNat?_of_digits hne h]
      rfl

theorem toList_intText (n : Int) :
    (intText n).toList = (if decide (n < 0) then ['-'] else []) ++ digits n.natAbs := by
  by_cases h : n < 0 <;> simp [intText, h, natText]

@[simp] theorem readInt?_intText : readInt? (intText n).toList = some n := by
  rw [toList_intText, readInt?_of_digits (digits_ne_nil _) fun _ => isDigit_of_mem_digits,
    ofDigits_digits]
  by_cases h : n < 0 <;> simp only [h, decide_true, decide_false, if_true,
    Bool.false_eq_true, if_false, Option.some_inj] <;> omega

theorem exists_zeros :
    ∃ k, cs = (cs.reverse.dropWhile (· = '0')).reverse ++ List.replicate k '0' := by
  refine ⟨(cs.reverse.takeWhile (· = '0')).length, ?_⟩
  have hzeros : cs.reverse.takeWhile (· = '0') =
      List.replicate (cs.reverse.takeWhile (· = '0')).length '0' :=
    List.eq_replicate_of_mem fun c hc => by
      simpa using List.mem_takeWhile_imp (p := fun c => decide (c = '0')) hc
  rw [← List.reverse_replicate, ← hzeros, ← List.reverse_append, List.takeWhile_append_dropWhile,
    List.reverse_reverse]

end Number

namespace Decimal

open Number

variable {d : Decimal}

theorem exists_digits (h : d.exponent ≤ 0) : ∃ (whole fraction : List Char) (zeros : Nat), whole ≠
      [] ∧ (∀ c ∈ whole ++ fraction, isDigit c) ∧ d.exponent = -(fraction.length + zeros : Nat) ∧
      d.coefficient.natAbs = ofDigits (whole ++ fraction) * 10 ^ zeros ∧
      d.toText.toList = (if decide (d.coefficient < 0) then ['-'] else []) ++
      whole ++ (if fraction = [] then [] else '.' :: fraction) := by
  by_cases hzero : d.exponent = 0
  · refine ⟨digits d.coefficient.natAbs, [], 0, digits_ne_nil _, ?_, hzero, ?_, ?_⟩
    · rw [List.append_nil]
      exact fun _ => isDigit_of_mem_digits
    · rw [List.append_nil, ofDigits_digits, Nat.pow_zero, Nat.mul_one]
    · have htext : d.toText = intText d.coefficient := by simp [toText, truncate, hzero]
      rw [htext, toList_intText, if_pos rfl, List.append_nil]
  · obtain ⟨places, hplaces, hpos⟩ : ∃ places : Nat, d.exponent = -places ∧ 0 < places :=
      ⟨(-d.exponent).toNat, by omega, by omega⟩
    have hneg : ¬ d.exponent ≥ 0 := by omega
    have htoNat : (-d.exponent).toNat = places := by omega
    -- all digits, with a zero before the point where the number has no whole part
    obtain ⟨ds, hpadded⟩ : ∃ ds,
      ds = List.replicate (places + 1 - (digits d.coefficient.natAbs).length) '0' ++
      digits d.coefficient.natAbs := ⟨_, rfl⟩
    have hdigits : ∀ c ∈ ds, isDigit c := by
      intro c hc
      rcases List.mem_append.mp (hpadded ▸ hc) with h | h
      · rw [List.eq_of_mem_replicate h]
        decide
      · exact isDigit_of_mem_digits h
    have hvalue : ofDigits ds = d.coefficient.natAbs := by
      rw [hpadded, ofDigits_append, ofDigits_zeros, ofDigits_digits, Nat.zero_mul, Nat.zero_add]
    have hlength : places < ds.length := by
      simp only [hpadded, List.length_append, List.length_replicate]
      omega
    obtain ⟨zeros, hzeros⟩ := exists_zeros
    generalize hfraction : ((ds.drop (ds.length - places)).reverse.dropWhile (· = '0')).reverse =
      fraction at hzeros
    have hds : ds = (ds.take (ds.length - places) ++ fraction) ++ List.replicate zeros '0' := by
      rw [List.append_assoc, ← hzeros, List.take_append_drop]
    refine ⟨ds.take (ds.length - places), fraction, zeros, ?_, ?_, ?_, ?_, ?_⟩
    · exact List.ne_nil_of_length_pos (by rw [List.length_take]; omega)
    · intro c hc
      exact hdigits c (hds ▸ List.mem_append_left _ hc)
    · have hlen := congrArg List.length hzeros
      rw [List.length_drop, List.length_append, List.length_replicate] at hlen
      omega
    · rw [← hvalue, hds, ofDigits_append, ofDigits_zeros, List.length_replicate,
        Nat.add_zero, ← hds]
    · rw [toText, if_neg hneg, htoNat]
      simp only [String.toList_ofList]
      rw [← hpadded, hfraction]
      by_cases hsign : d.coefficient < 0 <;> simp [hsign]

theorem not_isExponentMark_of_isDigit (h : isDigit c) : isExponentMark c = false := by
  refine Bool.eq_false_iff.mpr fun hc => ?_
  rcases (by simpa [isExponentMark] using hc : c = 'e' ∨ c = 'E') with rfl | rfl <;>
    exact absurd h (by decide)

theorem ne_point_of_isDigit (h : isDigit c) : c ≠ '.' := by
  rintro rfl
  exact absurd h (by decide)

theorem parse?_of_digits {fraction : List Char} (negative : Bool)
    (hne : whole ≠ []) (hdigits : ∀ c ∈ whole ++ fraction, isDigit c)
    (hfits : fits exponentBits (0 - fraction.length)) :
    parse? ((if negative then ['-'] else []) ++ whole ++
        (if fraction = [] then [] else '.' :: fraction)) =
      some ⟨if negative then -(ofDigits (whole ++ fraction) : Int)
        else ofDigits (whole ++ fraction), 0 - fraction.length⟩ := by
  obtain ⟨hwhole, hfraction⟩ := List.forall_mem_append.mp hdigits
  generalize hsign : (if negative then ['-'] else []) = sign
  have hsign' : ∀ c ∈ sign, c = '-' := by
    cases negative <;> simp [← hsign]
  generalize htail : (if fraction = [] then [] else '.' :: fraction) = tail
  have htail' : ∀ c ∈ tail, c = '.' ∨ isDigit c := by
    intro c hc
    split at htail
    · rw [← htail] at hc
      cases hc
    · rw [← htail] at hc
      exact (List.mem_cons.mp hc).imp_right (hfraction c)
  have hmarks : ∀ c ∈ sign ++ whole ++ tail, (!isExponentMark c) := by
    intro c hc
    rcases List.mem_append.mp hc with hc | hc
    · rcases List.mem_append.mp hc with hc | hc
      · rw [hsign' c hc]
        decide
      · rw [not_isExponentMark_of_isDigit (hwhole c hc), Bool.not_false]
    · rcases htail' c hc with rfl | hc
      · decide
      · rw [not_isExponentMark_of_isDigit hc, Bool.not_false]
  have hpoint : ∀ c ∈ sign ++ whole, decide (c ≠ '.') := by
    intro c hc
    rcases List.mem_append.mp hc with hc | hc
    · rw [hsign' c hc]
      decide
    · exact decide_eq_true (ne_point_of_isDigit (hwhole c hc))
  have hbefore : tail.takeWhile (· ≠ '.') = [] ∧ (tail.dropWhile (· ≠ '.')).drop 1 = fraction := by
    split at htail
    · rename_i hnil
      rw [← htail, hnil]
      exact ⟨rfl, rfl⟩
    · rw [← htail]
      exact ⟨rfl, rfl⟩
  have hone : fraction.contains '.' = false := by
    rw [List.contains_eq_mem]
    exact decide_eq_false fun hmem => ne_point_of_isDigit (hfraction _ hmem) rfl
  have hint := readInt?_of_digits (List.append_ne_nil_of_left_ne_nil hne fraction) hdigits negative
  rw [hsign, ← List.append_assoc] at hint
  rw [parse?, List.takeWhile_eq_self_iff.mpr hmarks, List.dropWhile_eq_nil_iff.mpr hmarks]
  simp only [List.takeWhile_append_of_pos hpoint, List.dropWhile_append_of_pos hpoint,
    hbefore.1, hbefore.2, List.append_nil, hint, hone, hfits, Option.bind_eq_bind,
    Option.bind_some, Bool.false_eq_true, if_false, if_true]

theorem sameValue_of_scaled {a b : Decimal} (hle : b.exponent ≤ a.exponent)
    (h : a.coefficient * (10 ^ (a.exponent - b.exponent).toNat : Nat) = b.coefficient) :
    a.sameValue b := by
  have hb : b.scaledTo b.exponent = b.coefficient := by simp [scaledTo]
  have ha : a.scaledTo b.exponent = b.coefficient := h
  simp only [sameValue, le, Int.min_eq_right hle, Int.min_eq_left hle,
    ha, hb, le_refl, decide_true, Bool.and_self]

theorem parse?_toText (h : d.exponent ≤ 0) (hfits : fits exponentBits d.exponent) :
    ∃ e : Decimal, parse? d.toText.toList = some e ∧ e.sameValue d := by
  obtain ⟨whole, fraction, zeros, hne, hdigits, hexponent, hvalue, htext⟩ := exists_digits h
  have hfits' : fits exponentBits (0 - fraction.length) := by
    simp only [fits, Bool.and_eq_true, decide_eq_true_eq] at hfits ⊢
    omega
  refine ⟨_, htext ▸ parse?_of_digits _ hne hdigits hfits', ?_⟩
  refine sameValue_of_scaled (by simp only; omega) ?_
  have hzeros : ((0 - fraction.length : Int) - d.exponent).toNat = zeros := by omega
  simp only [hzeros]
  by_cases hneg : d.coefficient < 0
  · simp only [hneg, decide_true, if_true]
    rw [Int.neg_mul, ← Int.natCast_mul, ← hvalue]
    omega
  · simp only [hneg, decide_false, Bool.false_eq_true, if_false]
    rw [← Int.natCast_mul, ← hvalue]
    omega

end Decimal

end SqlAnalysis

import SqlAnalysis.Proofs.Script.Writing

/-!
The texts of constants are read back: numbers in plain notation, bytes in hexadecimal digits, and
the numbers of an interval between their separators.
-/

namespace SqlAnalysis.Script

open Number (isDigit ofDigits digits)

/-! ### Numbers -/

theorem dropSign_signed (hc : isDigit c) (negative : Bool) :
    dropSign ((if negative then ['-'] else []) ++ c :: cs) = c :: cs := by
  cases negative with
  | true => rfl
  | false =>
    rw [if_neg Bool.false_ne_true, List.nil_append]
    unfold dropSign
    split
    · rename_i heq
      cases heq
      cases hc
    · rename_i heq
      cases heq
      cases hc
    · rfl

theorem isMantissa_of_digits (hne : whole ≠ []) (hdigits : ∀ c ∈ whole ++ fraction, isDigit c) :
    isMantissa (whole ++ if fraction = [] then [] else '.' :: fraction) := by
  obtain ⟨hwhole, hfraction⟩ := List.forall_mem_append.mp hdigits
  have hpoint : isDigit '.' = false := by decide
  unfold isMantissa
  rw [List.takeWhile_append_of_pos hwhole, List.dropWhile_append_of_pos hwhole]
  by_cases h : fraction = []
  · simp [h, hne]
  · rw [if_neg h, List.takeWhile_cons_of_neg (by simp [hpoint]),
      List.dropWhile_cons_of_neg (by simp [hpoint]), List.append_nil]
    simp only [List.isEmpty_eq_false_iff.mpr hne, Bool.false_and, Bool.not_false,
      Bool.and_true, List.all_eq_true]
    exact hfraction

theorem isNumber_of_digits (fraction : List Char) (negative : Bool) (hne : whole ≠ [])
    (hdigits : ∀ c ∈ whole ++ fraction, isDigit c) (hs : s.toList = (if negative then ['-']
    else []) ++ whole ++ if fraction = [] then [] else '.' :: fraction) : isNumber s := by
  obtain ⟨c, cs, rfl⟩ := List.exists_cons_of_ne_nil hne
  have hunmarked : ∀ d ∈ (c :: cs) ++ (if fraction = [] then [] else '.' :: fraction),
      (!Decimal.isExponentMark d) := by
    intro d hd
    rcases List.mem_append.mp hd with hd | hd
    · rw [Decimal.not_isExponentMark_of_isDigit (hdigits d (List.mem_append_left _ hd))]
      rfl
    · split at hd
      · cases hd
      · rcases List.mem_cons.mp hd with rfl | hd
        · decide
        · rw [Decimal.not_isExponentMark_of_isDigit (hdigits d (List.mem_append_right _ hd))]
          rfl
  have hdrop : dropSign s.toList = (c :: cs) ++
      (if fraction = [] then [] else '.' :: fraction) := by
    rw [hs, List.append_assoc]
    exact dropSign_signed (hdigits c (List.mem_append_left _ List.mem_cons_self)) negative
  unfold isNumber
  dsimp only
  rw [hdrop, List.takeWhile_eq_self_iff.mpr hunmarked, List.dropWhile_eq_nil_iff.mpr hunmarked,
    isMantissa_of_digits hne hdigits]
  rfl

theorem isNumber_toText {d : Decimal} (h : d.exponent ≤ 0) : isNumber d.toText := by
  obtain ⟨whole, fraction, _, hne, hdigits, _, _, htext⟩ := Decimal.exists_digits h
  exact isNumber_of_digits fraction _ hne hdigits htext

theorem isNumber_intText (n : Int) : isNumber (Number.intText n) := by
  refine isNumber_of_digits [] (decide (n < 0)) (Number.digits_ne_nil n.natAbs) ?_ ?_
  · rw [List.append_nil]
    exact fun c hc => Number.isDigit_of_mem_digits hc
  · rw [Number.toList_intText, if_pos rfl, List.append_nil]

theorem not_isExponentMark_toText {d : Decimal} (h : d.exponent ≤ 0) :
    d.toText.toList.any Decimal.isExponentMark = false := by
  obtain ⟨whole, fraction, _, _, hdigits, _, _, htext⟩ := Decimal.exists_digits h
  obtain ⟨hwhole, hfraction⟩ := List.forall_mem_append.mp hdigits
  rw [htext, List.any_append, List.any_append]
  have hsign : (if decide (d.coefficient < 0) then ['-'] else [] : List Char).any
      Decimal.isExponentMark = false := by
    split <;> decide
  have hdigit {ds : List Char} (hds : ∀ c ∈ ds, isDigit c) : ds.any
      Decimal.isExponentMark = false :=
    List.any_eq_false.mpr fun c hc => by simp [Decimal.not_isExponentMark_of_isDigit (hds c hc)]
  have hrest : (if fraction = [] then [] else '.' :: fraction : List Char).any
      Decimal.isExponentMark = false := by
    split
    · rfl
    · rw [List.any_cons, hdigit hfraction]
      decide
  rw [hsign, hdigit hwhole, hrest]
  rfl

/-! ### Bytes -/

theorem hexValue?_hexDigit : ∀ n < 16, hexValue? (Text.hexDigit n) = some n := by decide

theorem readBytes?_hexText (h : ∀ b ∈ bytes, b < 256) :
    readBytes? (hexText bytes).toList = some bytes := by
  rw [hexText, String.toList_ofList]
  induction bytes with
  | nil => rfl
  | cons b bytes ih =>
    obtain ⟨hb, hbytes⟩ := List.forall_mem_cons.mp h
    have hdigits : Text.hexDigits 2 b = [Text.hexDigit (b / 16 % 16), Text.hexDigit (b % 16)] := rfl
    rw [List.flatMap_cons, hdigits, List.cons_append, List.cons_append, List.nil_append, readBytes?,
      hexValue?_hexDigit _ (Nat.mod_lt _ (by decide)),
      hexValue?_hexDigit _ (Nat.mod_lt _ (by decide)), ih hbytes]
    have hvalue : 16 * (b / 16 % 16) + b % 16 = b := by omega
    exact congrArg (fun n => some (n :: bytes)) hvalue

/-! ### Intervals -/

section Runs

theorem runsOf_skip (hc : p c = false) : Text.runsOf p (c :: cs) = Text.runsOf p cs := by
  rw [Text.runsOf.eq_def]
  exact if_neg (by simp [hc])

theorem runsOf_single (hc : p c) : Text.runsOf p [c] = [[c]] := by
  rw [Text.runsOf.eq_def]
  exact if_pos hc

theorem runsOf_last (hc : p c) (hd : p d = false) :
    Text.runsOf p (c :: d :: cs) = [c] :: Text.runsOf p cs := by
  rw [Text.runsOf.eq_def, ← runsOf_skip hd]
  exact (if_pos hc).trans (if_neg (by simp [hd]))

theorem runsOf_more (hc : p c) (hd : p d)
    (h : Text.runsOf p (d :: cs) = r :: rs) : Text.runsOf p (c :: d :: cs) = (c :: r) :: rs := by
  rw [Text.runsOf.eq_def]
  dsimp only
  rw [if_pos hc, if_pos hd, h]

theorem runsOf_self (hne : ds ≠ []) (h : ∀ c ∈ ds, p c) : Text.runsOf p ds = [ds] := by
  induction ds with
  | nil => exact absurd rfl hne
  | cons c ds ih =>
    obtain ⟨hc, hds⟩ := List.forall_mem_cons.mp h
    cases ds with
    | nil => exact runsOf_single hc
    | cons d ds => exact runsOf_more hc (hds d List.mem_cons_self) (ih (List.cons_ne_nil _ _) hds)

/-- A run ends before the first character that belongs to none. -/
theorem runsOf_append (hne : ds ≠ []) (h : ∀ c ∈ ds, p c) (hc : p c = false) (cs : List Char) :
    Text.runsOf p (ds ++ c :: cs) = ds :: Text.runsOf p cs := by
  induction ds with
  | nil => exact absurd rfl hne
  | cons d ds ih =>
    obtain ⟨hd, hds⟩ := List.forall_mem_cons.mp h
    cases ds with
    | nil => exact runsOf_last hd hc
    | cons e ds => exact runsOf_more hd (hds e List.mem_cons_self) (ih (List.cons_ne_nil _ _) hds)

end Runs

theorem exists_intervalDigits (hn : 0 ≤ n) (yearMonth : Bool) : ∃ ds : List Char, ds ≠ [] ∧
      (∀ c ∈ ds, isDigit c) ∧ ((ofDigits ds : Nat) : Int) = n ∧ (if yearMonth then Number.intText n
      else if n < 0 then Number.intText n else Number.padded 2 n.toNat).toList = ds := by
  have hnat : (n.natAbs : Int) = n := Int.natAbs_of_nonneg hn
  have htoNat : n.toNat = n.natAbs := by omega
  have hneg : ¬ n < 0 := by omega
  cases yearMonth with
  | true =>
    refine ⟨digits n.natAbs, Number.digits_ne_nil _, fun _ => Number.isDigit_of_mem_digits, ?_, ?_⟩
    · rw [Number.ofDigits_digits, hnat]
    · rw [if_pos rfl, Number.toList_intText]
      simp [hneg]
  | false =>
    refine ⟨List.replicate (2 - (digits n.natAbs).length) '0' ++ digits n.natAbs, ?_, ?_, ?_, ?_⟩
    · exact List.append_ne_nil_of_right_ne_nil _ (Number.digits_ne_nil _)
    · refine List.forall_mem_append.mpr ⟨fun c hc => ?_, fun _ => Number.isDigit_of_mem_digits⟩
      rw [List.eq_of_mem_replicate hc]
      decide
    · rw [Number.ofDigits_append, Number.ofDigits_zeros, Number.ofDigits_digits,
        Nat.zero_mul, Nat.zero_add, hnat]
    · rw [if_neg Bool.false_ne_true, if_neg hneg, htoNat, Number.padded, String.toList_ofList]

theorem runsOf_intervalTail (yearMonth : Bool) (unit : Nat)
    (hns : ∀ n ∈ ns, 0 ≤ n) (hne : ds ≠ []) (hds : ∀ c ∈ ds, isDigit c) :
    (Text.runsOf isDigit (ds ++ (intervalTail yearMonth unit ns).toList)).map
      (fun ds => ((ofDigits ds : Nat) : Int)) = (ofDigits ds : Int) :: ns := by
  induction ns generalizing unit ds with
  | nil =>
    have htail : (intervalTail yearMonth unit []).toList = [] := by simp [intervalTail]
    rw [htail, List.append_nil, runsOf_self hne hds]
    rfl
  | cons n ns ih =>
    obtain ⟨hn, hns⟩ := List.forall_mem_cons.mp hns
    obtain ⟨es, hes, hdigits, hvalue, htext⟩ := exists_intervalDigits hn yearMonth
    obtain ⟨c, hc, hseparator⟩ : ∃ c, isDigit c = false ∧
        (if yearMonth then "-" else if unit = TimeUnit.day.rank then " " else ":" : String).toList =
        [c] := by
      split
      · exact ⟨'-', by decide, rfl⟩
      · split
        · exact ⟨' ', by decide, rfl⟩
        · exact ⟨':', by decide, rfl⟩
    have htail : (intervalTail yearMonth unit (n :: ns)).toList =
        c :: (es ++ (intervalTail yearMonth (unit + 1) ns).toList) := by
      rw [intervalTail, String.toList_append, String.toList_append, hseparator,
        htext, List.append_assoc]
      rfl
    rw [htail, runsOf_append hne hds hc, List.map_cons, ih (unit + 1) hns hes hdigits, hvalue]

theorem isDigit_getLast? (yearMonth : Bool)
    (unit : Nat) (hns : ∀ n ∈ ns, 0 ≤ n) (hds : ∀ c ∈ ds, isDigit c) :
    ∀ c ∈ (ds ++ (intervalTail yearMonth unit ns).toList).getLast?, isDigit c := by
  induction ns generalizing unit ds with
  | nil =>
    have htail : (intervalTail yearMonth unit []).toList = [] := by simp [intervalTail]
    rw [htail, List.append_nil]
    exact fun c hc => hds c (List.mem_of_getLast? hc)
  | cons n ns ih =>
    obtain ⟨hn, hns⟩ := List.forall_mem_cons.mp hns
    obtain ⟨es, hes, hdigits, _, htext⟩ := exists_intervalDigits hn yearMonth
    have hne : es ++ (intervalTail yearMonth (unit + 1) ns).toList ≠ [] :=
      List.append_ne_nil_of_left_ne_nil hes _
    rw [intervalTail, String.toList_append, String.toList_append, htext,
      List.append_assoc, ← List.append_assoc, List.getLast?_append_of_ne_nil _ hne]
    exact ih (unit + 1) hns hdigits

theorem not_isBlank_of_isDigit (h : isDigit c) : Text.isBlank c = false :=
  of_isDigit (P := fun c => Text.isBlank c = false) (by decide) h

theorem trimChars_eq_self (hfirst : ∀ c ∈ cs.head?, Text.isBlank c = false)
    (hlast : ∀ c ∈ cs.getLast?, Text.isBlank c = false) : Text.trimChars cs = cs := by
  have hdrop {cs : List Char} (h : ∀ c ∈ cs.head?, Text.isBlank c = false) : cs.dropWhile
      Text.isBlank = cs := by
    cases cs with
    | nil => rfl
    | cons c cs => exact List.dropWhile_cons_of_neg (by simp [h c rfl])
  rw [Text.trimChars, hdrop hfirst, hdrop, List.reverse_reverse]
  rw [List.head?_reverse]
  exact hlast

theorem intervalValue?_intervalText (h : ReadInterval v) :
    intervalValue? v.qualifier (intervalText v) = some v := by
  obtain ⟨negative, fields, q⟩ := v
  obtain ⟨n, ns, hfields⟩ := List.exists_cons_of_ne_nil h.ne_nil
  dsimp only at hfields
  subst hfields
  obtain ⟨hn, hns⟩ := List.forall_mem_cons.mp h.nonneg
  obtain ⟨ds, hne, hdigits, hvalue, htext⟩ := exists_intervalDigits hn true
  rw [if_pos rfl] at htext
  obtain ⟨d, ds', rfl⟩ := List.exists_cons_of_ne_nil hne
  have hd := hdigits d List.mem_cons_self
  have hsign : (if negative then "-" else "" : String).toList = if negative then ['-'] else [] := by
    split <;> rfl
  have hcs : (intervalText ⟨negative, n :: ns, q⟩).toList =
      (if negative then ['-'] else []) ++
      (d :: ds' ++ (intervalTail q.isYearMonth q.first.rank ns).toList) := by
    rw [intervalText]
    simp only [String.toList_append, hsign, htext, List.append_assoc]
  have hruns := runsOf_intervalTail q.isYearMonth q.first.rank hns hne hdigits
  have hlast := isDigit_getLast? q.isYearMonth q.first.rank hns hdigits
  generalize (intervalTail q.isYearMonth q.first.rank ns).toList = tail at hcs hruns hlast
  rw [hvalue] at hruns
  have htrim : Text.trimChars (intervalText ⟨negative, n :: ns, q⟩).toList =
      (if negative then ['-'] else []) ++ (d :: ds' ++ tail) := by
    rw [hcs]
    refine trimChars_eq_self ?_ fun c hc => ?_
    · cases negative with
      | true =>
        rintro _ ⟨⟩
        decide
      | false =>
        rintro _ ⟨⟩
        exact not_isBlank_of_isDigit hd
    · rw [List.getLast?_append_of_ne_nil _ (List.append_ne_nil_of_left_ne_nil hne _)] at hc
      exact not_isBlank_of_isDigit (hlast c hc)
  have hfits : (n :: ns).any (!Number.fits 64 ·) = false := by
    refine List.any_eq_false.mpr fun m hm => ?_
    simp [h.fits m hm]
  have hlength : ¬ (n :: ns).length > q.last.rank - q.first.rank + 2 := Nat.not_lt.mpr h.length_le
  have hread : ((n :: ns).isEmpty || (n :: ns).any (!Number.fits 64 ·) ||
      decide ((n :: ns).length > q.last.rank - q.first.rank + 2)) = false := by
    rw [hfits, decide_eq_false hlength]
    rfl
  unfold intervalValue?
  dsimp only
  rw [htrim]
  cases negative with
  | true =>
    rw [if_pos rfl, List.singleton_append]
    split
    · rename_i heq
      cases heq
      dsimp only
      rw [hruns, hread]
      rfl
    · rename_i hsigned
      exact absurd rfl (hsigned _)
  | false =>
    rw [if_neg Bool.false_ne_true, List.nil_append]
    split
    · rename_i heq
      cases heq
      cases hd
    · dsimp only
      rw [hruns, hread]
      rfl

end SqlAnalysis.Script

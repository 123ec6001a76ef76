import SqlAnalysis.Proofs.Canonical.Normal
import SqlAnalysis.Proofs.Number.Decimal
import SqlAnalysis.Proofs.Script.Scanning
import SqlAnalysis.Proofs.Text.Capitals
import SqlAnalysis.Proofs.Text.Nesting

/-!
The tokens of a written tree. What is written for a node depends only on the term that the node
stands for; `pieces` says which tokens that are. The text of a term is spelled by its tokens if the
names that are written without quotes are words.
-/

namespace SqlAnalysis

namespace Script

/-! ### Words -/

theorem isWord_iff : IsWord cs ↔ cs ≠ [] ∧ (∀ c ∈ cs, isWordChar c) ∧
    (∀ c ∈ cs.head?.toList, c ≠ '?' ∧ c ≠ ':' ∧ c ≠ '#') ∧ cs.take 2 ≠ ['-', '-'] := by
  constructor
  · rintro ⟨hne, hchars, hmark, hcomment⟩
    refine ⟨hne, hchars, fun c hc => hmark c (Option.mem_toList.mp hc), fun h => hcomment ?_⟩
    rw [← h]
    exact List.take_prefix 2 cs
  · rintro ⟨hne, hchars, hmark, hcomment⟩
    refine ⟨hne, hchars, fun c hc => hmark c (Option.mem_toList.mpr hc), fun h => hcomment ?_⟩
    exact (List.prefix_iff_eq_take.mp h).symm

instance (cs : List Char) : Decidable (IsWord cs) := decidable_of_iff _ isWord_iff.symm

theorem IsWord.of_head (hc : c ≠ '?' ∧ c ≠ ':' ∧ c ≠ '#' ∧ c ≠ '-')
    (h : ∀ d ∈ c :: cs, isWordChar d) : IsWord (c :: cs) := by
  refine ⟨List.cons_ne_nil _ _, h, ?_, ?_⟩
  · rintro _ ⟨⟩
    exact ⟨hc.1, hc.2.1, hc.2.2.1⟩
  · rintro ⟨_, hprefix⟩
    exact hc.2.2.2 (List.cons.inj hprefix).1.symm

theorem IsWord.signed (hc : c ≠ '?' ∧ c ≠ ':' ∧ c ≠ '#' ∧ c ≠ '-')
    (h : ∀ d ∈ c :: cs, isWordChar d) (negative : Bool) :
    IsWord ((if negative then ['-'] else []) ++ c :: cs) := by
  cases negative with
  | false => exact .of_head hc h
  | true =>
    refine isWord_iff.mpr ⟨List.cons_ne_nil _ _, List.forall_mem_cons.mpr ⟨by decide, h⟩, ?_, ?_⟩
    · intro d hd
      obtain rfl := List.mem_singleton.mp hd
      decide
    · intro htake
      exact hc.2.2.2 (List.cons.inj (List.cons.inj htake).2).1

theorem of_isDigit {P : Char → Prop} (hP : ∀ n < 128, Number.isDigit (Char.ofNat n) →
    P (Char.ofNat n)) (h : Number.isDigit c) : P c := by
  have hdigit := h
  simp only [Number.isDigit, Bool.and_eq_true, decide_eq_true_eq] at hdigit
  have hascii : c.toNat < 128 := Nat.lt_of_le_of_lt (show c.toNat ≤ 57 from hdigit.2) (by decide)
  exact Text.of_ascii (P := fun c => Number.isDigit c → P c) hP hascii h

theorem isWordChar_of_isDigit (h : Number.isDigit c) : isWordChar c :=
  of_isDigit (P := fun c => isWordChar c) (by decide) h

theorem isWordChar_of_wide (h : 128 ≤ c.toNat) : isWordChar c := by
  refine isWordChar_iff.mpr ⟨?_, ?_, ?_⟩
  · simp only [isSeparator, List.contains_eq_mem, decide_eq_false_iff_not]
    intro hmem
    simp only [List.mem_cons, List.not_mem_nil, or_false] at hmem
    rcases hmem with rfl | rfl | rfl | rfl | rfl <;> exact absurd h (by decide)
  · unfold bracket?
    split <;> first | exact absurd h (by decide) | rfl
  · rintro rfl
    exact absurd h (by decide)

theorem isWordChar_of_isAlpha (h : c.isAlpha) : isWordChar c := by
  by_cases hc : c.toNat < 128
  · exact Text.of_ascii (P := fun c => c.isAlpha → isWordChar c) (by decide) hc h
  · exact isWordChar_of_wide (Nat.le_of_not_lt hc)

theorem ne_mark_of_isDigit (h : Number.isDigit c) : c ≠ '?' ∧ c ≠ ':' ∧ c ≠ '#' ∧ c ≠ '-' := by
  refine ⟨?_, ?_, ?_, ?_⟩ <;> rintro rfl <;> exact absurd h (by decide)

theorem isWordChar_upperChar : isWordChar (Text.upperChar c) = isWordChar c := by
  by_cases hc : c.toNat < 128
  · exact Text.of_ascii (P := fun c => isWordChar (Text.upperChar c) = isWordChar c) (by decide) hc
  · rw [isWordChar_of_wide (Nat.le_of_not_lt hc)]
    have hcapital := Text.capital_upperChar c
    generalize Text.upperChar c = d at hcapital
    cases hcapital with
    | self => exact isWordChar_of_wide (Nat.le_of_not_lt hc)
    | ascii h => exact isWordChar_of_isAlpha h
    | wide h => exact isWordChar_of_wide h

/-! ### Pieces -/

def bracedPieces (ps : List Piece) : List Piece :=
  (.openBrace, "\x7b") :: (ps ++ [(.closeBrace, "\x7d")])

def qualifierPieces (q : Qualifier) : List Piece :=
  if q.first = q.last then [(.word, q.first.toText)]
  else [(.word, q.first.toText), (.word, "TO"), (.word, q.last.toText)]

def literalPieces : Literal → List Piece
  | .symbol s => [(.symbol, s)]
  | .char v =>
    match v.collation with
    | some c => bracedPieces [(.word, "COLLATE"), (.string, v.value), (.word, c.name)]
    | none =>
      if v.charset = "" then [(.string, v.value)]
      else bracedPieces [(.word, "CHARSET"), (.string, v.value), (.word, v.charset)]
  | .binary bytes => bracedPieces [(.word, "BINARY"), (.string, hexText bytes)]
  | .date m => bracedPieces [(.word, "DATE"), (.string, m.dayText)]
  | .time m p => bracedPieces [(.word, "TIME"), (.string, m.timeText ++ m.fractionText p)]
  | .timestamp m p =>
    bracedPieces [(.word, "TIMESTAMP"),
      (.string, m.dayText ++ " " ++ m.timeText ++ m.fractionText p)]
  | .interval v =>
    bracedPieces ([(.word, "INTERVAL"), (.string, intervalText v)] ++ qualifierPieces v.qualifier)
  | l => [(.word, literalText l)]

def identifierPieces (i : Identifier) : List Piece :=
  match i.collation with
  | some c => bracedPieces [(.word, "COLLATE"), (.word, i.toText), (.word, c.name)]
  | none => [(.word, i.toText)]

def precisionWords (s : TypeSpec) : List String :=
  if s.precision = ScalarName.noPrecision then []
  else if s.scale = ScalarName.noPrecision then [Number.intText s.precision]
  else [Number.intText s.precision, Number.intText s.scale]

def charsetWords (s : TypeSpec) : List String :=
  if s.charset = "" then [] else ["CHARSET", s.charset]

def typeSpecPieces (s : TypeSpec) : List Piece :=
  bracedPieces (("TYPE" :: (s.names ++ (precisionWords s ++ charsetWords s))).map (Prod.mk .word))

def leafPieces : Form → List Piece
  | .identifier i => identifierPieces i
  | .literal l => literalPieces l
  | .typeSpec s => typeSpecPieces s
  | .qualifier q => bracedPieces ((.word, "QUALIFIER") :: qualifierPieces q)
  | .parameter _ => [(.parameter, "?")]
  | _ => []

def leafText : Form → String
  | .identifier i => identifierText i
  | .literal l => literalText l
  | .typeSpec s => typeSpecText s
  | .qualifier q => braced ("QUALIFIER " ++ qualifierText q)
  | .parameter _ => "?"
  | _ => ""

/-- The name of an operator as calls write it. -/
def headText (o : Operator) : String := Text.replaceChar ' ' '_' o.name

def slotPieces : List String → List (Option (List Piece)) → List Piece
  | slot :: slots, some ps :: rest => (.keyword, slot) :: (ps ++ slotPieces slots rest)
  | _ :: slots, none :: rest => slotPieces slots rest
  | _, _ => []

end Script

open Script

def Form.isLeaf : Form → Bool
  | .call _ | .list _ => false
  | _ => true

def Term.pieces : Term → List Piece
  | .absent => [(.word, "_")]
  | .node (.call c) ps =>
    (.opening, "(") :: (.word, headText c.operator) ::
      ((if c.operator.slots.isEmpty then (ps.map pieces).flatten
        else slotPieces c.operator.slots (ps.map fun p =>
        if p.isAbsent then none else some p.pieces)) ++ [(.closing, ")")])
  | .node (.list _) ps => (.openList, "[") :: ((ps.map pieces).flatten ++ [(.closeList, "]")])
  | .node label _ => leafPieces label

/-- The names of character sets and collations in the form are words. -/
def Form.wordy : Form → Bool
  | .identifier i => i.collation.all fun c => decide (IsWord c.name.toList)
  | .literal (.char v) =>
    match v.collation with
    | some c => decide (IsWord c.name.toList)
    | none => v.charset = "" || decide (IsWord v.charset.toList)
  | .typeSpec s => s.charset = "" || decide (IsWord s.charset.toList)
  | _ => true

namespace Script

/-! ### Leaves -/

theorem Spells.braced (h : Spells s.toList ps) : Spells (braced s).toList (bracedPieces ps) := by
  have htext : (Script.braced s).toList = '\x7b' :: (s.toList ++ ['\x7d']) := by
    simp [Script.braced]
  rw [htext]
  exact .enclosed rfl rfl h

theorem Spells.headed {text head : String} (hhead : IsWord head.toList)
    (h : Spells cs ps) (htext : text.toList = head.toList ++ ' ' :: cs) :
    Spells (Script.braced text).toList (bracedPieces ((.word, head) :: ps)) := by
  refine .braced ?_
  rw [htext]
  exact (Spells.word hhead).spaced h

theorem quoted_eq (h : '\'' ∉ s.toList) : Literal.quoted s = "'" ++ s ++ "'" := by
  have hflat : s.toList.flatMap (fun c => if c = '\'' then ['\'', '\''] else [c]) = s.toList := by
    generalize s.toList = cs at h
    induction cs with
    | nil => rfl
    | cons c cs ih =>
      obtain ⟨hc, hcs⟩ := List.ne_and_not_mem_of_not_mem_cons h
      rw [List.flatMap_cons, if_neg hc.symm, ih hcs]
      rfl
  rw [Literal.quoted, hflat, String.ofList_toList]

theorem Spells.quoted (h : '\'' ∉ s.toList) : Spells ("'" ++ s ++ "'").toList [(.string, s)] :=
  quoted_eq h ▸ .string s

theorem spells_qualifier : Spells (qualifierText q).toList (qualifierPieces q) := by
  have hunit (u : TimeUnit) : IsWord u.toText.toList := by cases u <;> decide
  unfold qualifierText qualifierPieces
  split
  · exact .word (hunit _)
  · have htext : (q.first.toText ++ " TO " ++ q.last.toText).toList =
        q.first.toText.toList ++ ' ' :: ("TO".toList ++ ' ' :: q.last.toText.toList) := by simp
    rw [htext]
    have hto : IsWord "TO".toList := by decide
    exact (Spells.word (hunit _)).spaced ((Spells.word hto).spaced (.word (hunit _)))

theorem isDigit_of_mem_padded (h : c ∈ (Number.padded width n).toList) : Number.isDigit c := by
  simp only [Number.padded, String.toList_ofList] at h
  rcases List.mem_append.mp h with h | h
  · rw [List.eq_of_mem_replicate h]
    decide
  · exact Number.isDigit_of_mem_digits h

theorem quote_not_mem_padded : '\'' ∉ (Number.padded width n).toList :=
  fun h => absurd (isDigit_of_mem_padded h) (by decide)

theorem quote_not_mem_dayText (m : Moment) : '\'' ∉ m.dayText.toList := by
  have hyear : '\'' ∉ (Moment.yearText m.year).toList := by
    unfold Moment.yearText
    split <;> simp [quote_not_mem_padded]
  simp [Moment.dayText, hyear, quote_not_mem_padded]

theorem quote_not_mem_timeText (m : Moment) : '\'' ∉ m.timeText.toList := by
  simp [Moment.timeText, quote_not_mem_padded]

theorem quote_not_mem_fractionText (m : Moment) (p : Nat) : '\'' ∉ (m.fractionText p).toList := by
  unfold Moment.fractionText
  split
  · simp
  · have htake : '\'' ∉ (Number.padded 9 m.nanosecond).toList.take p :=
      fun h => quote_not_mem_padded (List.mem_of_mem_take h)
    simp [htake]

theorem quote_not_mem_intText : '\'' ∉ (Number.intText n).toList :=
  Number.not_mem_intText (by decide) (by decide) n

theorem quote_not_mem_intervalTail :
    '\'' ∉ (intervalTail yearMonth unit ns).toList := by
  induction ns generalizing unit with
  | nil => simp [intervalTail]
  | cons n ns ih =>
    have hseparator : '\'' ∉ (if yearMonth then "-" else if unit = TimeUnit.day.rank
        then " " else ":" : String).toList := by
      split <;> [decide; (split <;> decide)]
    have hnumber : '\'' ∉ (if yearMonth then Number.intText n
        else if n < 0 then Number.intText n else Number.padded 2 n.toNat : String).toList := by
      split <;> [exact quote_not_mem_intText;
        (split <;> [exact quote_not_mem_intText; exact quote_not_mem_padded])]
    simp only [intervalTail, String.toList_append, List.mem_append, not_or]
    exact ⟨⟨hseparator, hnumber⟩, ih⟩

theorem quote_not_mem_intervalText : '\'' ∉ (intervalText v).toList := by
  have hsign : '\'' ∉ (if v.negative then "-" else "" : String).toList := by split <;> decide
  unfold intervalText
  cases v.fields with
  | nil => exact hsign
  | cons n ns =>
    simp only [String.toList_append, List.mem_append, not_or]
    exact ⟨⟨hsign, quote_not_mem_intText⟩, quote_not_mem_intervalTail⟩

theorem quote_not_mem_hexText : '\'' ∉ (hexText bytes).toList := by
  have hdigit : ∀ n < 16, Text.hexDigit n ≠ '\'' := by decide
  have hdigits (width n : Nat) : '\'' ∉ Text.hexDigits width n := by
    induction width generalizing n with
    | zero => exact List.not_mem_nil
    | succ width ih =>
      simp only [Text.hexDigits, List.mem_append, List.mem_singleton, not_or]
      exact ⟨ih _, (hdigit _ (Nat.mod_lt _ (by decide))).symm⟩
  simp [hexText, hdigits]

theorem isWord_toText {d : Decimal} (h : d.exponent ≤ 0) : IsWord d.toText.toList := by
  obtain ⟨whole, fraction, _, hne, hdigits, _, _, htext⟩ := Decimal.exists_digits h
  obtain ⟨c, cs, rfl⟩ := List.exists_cons_of_ne_nil hne
  have hc := hdigits c (List.mem_append_left _ List.mem_cons_self)
  have hword : ∀ d ∈ (c :: cs) ++ (if fraction = [] then [] else '.' :: fraction),
      isWordChar d := by
    intro d hd
    rcases List.mem_append.mp hd with hd | hd
    · exact isWordChar_of_isDigit (hdigits d (List.mem_append_left _ hd))
    · split at hd
      · cases hd
      · rcases List.mem_cons.mp hd with rfl | hd
        · decide
        · exact isWordChar_of_isDigit (hdigits d (List.mem_append_right _ hd))
  rw [htext, List.append_assoc]
  exact .signed (ne_mark_of_isDigit hc) hword _

/-- Scientific notation begins with a digit, or with the mark of the power where there is none. -/
theorem isWord_scientific (hdigits : ∀ c ∈ ds, Number.isDigit c) (power : Int) (negative : Bool) :
    IsWord ((if negative then "-" else "" : String) ++ Binary64.scientific ds power).toList := by
  have hsign : (if negative then "-" else "" : String).toList = if negative then ['-'] else [] := by
    split <;> rfl
  have hpower : ∀ c ∈ ((if power < 0 then "-" else "+" : String) ++
      Number.padded 2 power.natAbs).toList, isWordChar c := by
    intro c hc
    rcases List.mem_append.mp (String.toList_append ▸ hc) with hc | hc
    · split at hc <;> · rw [List.mem_singleton.mp hc]; decide
    · exact isWordChar_of_isDigit (isDigit_of_mem_padded hc)
  have hmark : ∀ c ∈ 'E' :: ((if power < 0 then "-" else "+" : String) ++
      Number.padded 2 power.natAbs).toList, isWordChar c :=
    List.forall_mem_cons.mpr ⟨by decide, hpower⟩
  rw [String.toList_append, hsign]
  cases ds with
  | nil =>
    have htext : (Binary64.scientific [] power).toList =
        'E' ::
        ((if power < 0 then "-" else "+" : String) ++ Number.padded 2 power.natAbs).toList := by
      simp [Binary64.scientific]
    rw [htext]
    exact .signed (by decide) hmark negative
  | cons d ds =>
    obtain ⟨hd, hds⟩ := List.forall_mem_cons.mp hdigits
    obtain ⟨tail, htail, htext⟩ : ∃ tail : List Char, (∀ c ∈ tail, isWordChar c) ∧
        (Binary64.scientific (d :: ds) power).toList = d :: (tail ++
          'E' ::
          ((if power < 0 then "-" else "+" : String) ++ Number.padded 2 power.natAbs).toList) := by
      cases ds with
      | nil => exact ⟨[], nofun, by simp [Binary64.scientific]⟩
      | cons f fs =>
        refine ⟨'.' :: f :: fs,
          List.forall_mem_cons.mpr ⟨by decide, fun c hc => isWordChar_of_isDigit (hds c hc)⟩, ?_⟩
        simp [Binary64.scientific]
    rw [htext]
    refine .signed (ne_mark_of_isDigit hd) ?_ negative
    exact List.forall_mem_cons.mpr ⟨isWordChar_of_isDigit hd,
      List.forall_mem_append.mpr ⟨htail, hmark⟩⟩

theorem isWord_approximateText (d : Decimal) : IsWord d.approximateText.toList := by
  unfold Decimal.approximateText
  cases Binary64.ofDecimal d with
  | infinite => cases d.isNegative <;> decide
  | finite m e =>
    cases m with
    | zero => cases d.isNegative <;> simp only [Binary64.toText] <;> decide
    | succ m =>
      refine isWord_scientific (fun c hc => ?_) _ _
      have hmem := (List.dropWhile_sublist _).subset (List.mem_reverse.mp hc)
      exact Number.isDigit_of_mem_digits (List.mem_reverse.mp hmem)

theorem splitAt_ne_nil (sep : Char) (cs : List Char) : Text.splitAt sep cs ≠ [] := by
  cases cs with
  | nil => exact List.cons_ne_nil _ _
  | cons c cs =>
    rw [Text.splitAt]
    split
    · exact List.cons_ne_nil _ _
    · split <;> exact List.cons_ne_nil _ _

theorem join_split : Text.join "." (Text.split '.' s) = s := by
  have hchars (cs : List Char) : ['.'].intercalate (Text.splitAt '.' cs) = cs := by
    induction cs with
    | nil => rfl
    | cons c cs ih =>
      obtain ⟨r, rs, hsplit⟩ := List.exists_cons_of_ne_nil (splitAt_ne_nil '.' cs)
      rw [hsplit] at ih
      rw [Text.splitAt, hsplit]
      split
      · rename_i hc
        simp [hc, ← ih]
      · cases rs <;> simp [← ih]
  rw [Text.join, ← String.toList_inj, String.toList_intercalate, Text.split, List.map_map]
  simpa using hchars s.toList

theorem isWord_identifier (h : ReadIdentifier i) : IsWord i.toText.toList := by
  obtain ⟨text, hword, hnames, _⟩ := h
  rwa [Identifier.toText, hnames, join_split]

theorem isName_upper {name : String} (h : IsName name.toList) :
    IsName (Text.upper name).toList := by
  refine ⟨?_, ?_⟩
  · simpa [Text.upper] using h.ne_nil
  · intro c hc
    rw [Text.upper, String.toList_ofList] at hc
    obtain ⟨d, hd, rfl⟩ := List.mem_map.mp hc
    rw [isWordChar_upperChar]
    exact h.chars d hd

theorem isWord_intText : IsWord (Number.intText n).toList := by
  obtain ⟨c, cs, hcs⟩ := List.exists_cons_of_ne_nil (Number.digits_ne_nil n.natAbs)
  have hdigits : ∀ d ∈ c :: cs, Number.isDigit d :=
    fun d hd => Number.isDigit_of_mem_digits (hcs ▸ hd)
  rw [Number.toList_intText, hcs]
  exact .signed (ne_mark_of_isDigit (hdigits c List.mem_cons_self))
    (fun d hd => isWordChar_of_isDigit (hdigits d hd)) _

theorem Spells.each (text : α → String) (pieces : α → List Piece) {l : List α}
    (h : ∀ y ∈ l, Spells (text y).toList (pieces y)) (hcs : Spells cs ps) :
    Spells (cs ++ l.flatMap fun y => ' ' :: (text y).toList) (ps ++ (l.map pieces).flatten) := by
  induction l generalizing cs ps with
  | nil => simpa using hcs
  | cons y l ih =>
    obtain ⟨hy, hl⟩ := List.forall_mem_cons.mp h
    have hstep := ih hl (hcs.spaced hy)
    simpa using hstep

theorem Spells.words {ws : List String} (h : ∀ w ∈ ws, IsWord w.toList) (hcs : Spells cs ps) :
    Spells (cs ++ ws.flatMap fun w => ' ' :: w.toList) (ps ++ ws.map (Prod.mk .word)) := by
  have heach := Spells.each id (fun w => [(.word, w)]) (fun w hw => .word (h w hw)) hcs
  have hpieces : (ws.map fun w => [(TokenKind.word, w)]).flatten = ws.map (Prod.mk .word) := by
    rw [← List.flatMap_def, List.map_eq_flatMap]
  rwa [hpieces] at heach

theorem toList_join_cons :
    (Text.join " " (w :: ws)).toList = w.toList ++ ws.flatMap fun w => ' ' :: w.toList := by
  induction ws generalizing w with
  | nil => simp [Text.join]
  | cons v ws ih =>
    rw [Text.join, String.intercalate_cons_cons, ← Text.join, String.toList_append, ih]
    simp

theorem spells_typeSpec {s : TypeSpec} (h : ReadTypeSpec s)
    (hword : s.charset ≠ "" → IsWord s.charset.toList) :
    Spells (typeSpecText s).toList (typeSpecPieces s) := by
  refine .braced ?_
  have hprecision : ∀ w ∈ precisionWords s, IsWord w.toList := by
    unfold precisionWords
    split
    · exact nofun
    · split <;> simp [isWord_intText]
  have hcharset : ∀ w ∈ charsetWords s, IsWord w.toList := by
    unfold charsetWords
    split
    · exact nofun
    · rename_i hne
      exact List.forall_mem_cons.mpr ⟨by decide, List.forall_mem_singleton.mpr (hword hne)⟩
  have htype : IsWord "TYPE".toList := by decide
  have hwords : ∀ w ∈ s.names ++ (precisionWords s ++ charsetWords s), IsWord w.toList :=
    List.forall_mem_append.mpr ⟨fun w hw => (h.names w hw).1,
      List.forall_mem_append.mpr ⟨hprecision, hcharset⟩⟩
  have hspells := (Spells.word htype).words hwords
  have htext : ("TYPE " ++ Text.join " " s.names ++ (if s.precision = ScalarName.noPrecision then ""
      else if s.scale = ScalarName.noPrecision then " " ++ Number.intText s.precision
      else " " ++ Number.intText s.precision ++ " " ++ Number.intText s.scale) ++
      (if s.charset = "" then "" else " CHARSET " ++ s.charset)).toList =
      "TYPE".toList ++ (s.names ++ (precisionWords s ++ charsetWords s)).flatMap fun w =>
        ' ' :: w.toList := by
    obtain ⟨w, ws, hnames⟩ := List.exists_cons_of_ne_nil h.ne_nil
    simp only [String.toList_append, hnames, toList_join_cons, precisionWords, charsetWords]
    split
    · split <;> simp
    · split <;> split <;> simp
  rw [htext]
  exact hspells

theorem spells_literal (h : ReadLiteral l) (hword : (Form.literal l).wordy) :
    Spells (literalText l).toList (literalPieces l) := by
  cases l with
  | null => exact .word (by decide)
  | boolean t => cases t <;> exact .word (by decide)
  | exact d => exact .word (isWord_toText h.1)
  | approximate d => exact .word (isWord_approximateText d)
  | symbol s =>
    obtain ⟨name, hname, rfl⟩ := h
    have htext : (literalText (.symbol (Text.upper name))).toList =
      '#' :: (Text.upper name).toList := by simp [literalText]
    rw [htext]
    exact .marked (isName_upper hname) (.inr ⟨rfl, rfl⟩)
  | char v =>
    have hwordy : match v.collation with
        | some c => decide (IsWord c.name.toList)
        | none => (v.charset = "" || decide (IsWord v.charset.toList)) := by
      cases hc : v.collation <;> simpa only [Form.wordy, hc] using hword
    simp only [literalText, literalPieces]
    cases hc : v.collation with
    | some c =>
      rw [hc] at hwordy
      have hname : IsWord c.name.toList := of_decide_eq_true hwordy
      exact .headed (by decide) ((Spells.string v.value).spaced (.word hname)) (by simp)
    | none =>
      rw [hc] at hwordy
      by_cases hcharset : v.charset = ""
      · simp only [hcharset]
        exact .string v.value
      · simp only [if_neg hcharset]
        have hname : IsWord v.charset.toList := by simpa [hcharset] using hwordy
        exact .headed (by decide) ((Spells.string v.value).spaced (.word hname)) (by simp)
  | binary bytes => exact .headed (by decide) (.quoted quote_not_mem_hexText) (by simp)
  | date m => exact .headed (by decide) (.quoted (quote_not_mem_dayText m)) (by simp)
  | time m p =>
    have hquote : '\'' ∉ (m.timeText ++ m.fractionText p).toList := by
      simp [quote_not_mem_timeText, quote_not_mem_fractionText]
    exact .headed (by decide) (.quoted hquote) (by simp)
  | timestamp m p =>
    have hquote : '\'' ∉ (m.dayText ++ " " ++ m.timeText ++ m.fractionText p).toList := by
      simp [quote_not_mem_dayText, quote_not_mem_timeText, quote_not_mem_fractionText]
    exact .headed (by decide) (.quoted hquote) (by simp)
  | interval v =>
    exact .headed (by decide) ((Spells.quoted quote_not_mem_intervalText).spaced spells_qualifier)
      (by simp)

theorem spells_leaf (h : ReadForm ops f) (hword : f.wordy) :
    Spells (leafText f).toList (leafPieces f) := by
  cases f with
  | call c => exact .nil
  | list items => exact .nil
  | identifier i =>
    have hi := isWord_identifier h
    simp only [leafText, leafPieces, identifierText, identifierPieces]
    cases hc : i.collation with
    | none => exact .word hi
    | some c =>
      have hname : IsWord c.name.toList := by simpa [Form.wordy, hc] using hword
      exact .headed (by decide) ((Spells.word hi).spaced (.word hname)) (by simp)
  | literal l => exact spells_literal h hword
  | typeSpec s => exact spells_typeSpec h fun hne => by simpa [Form.wordy, hne] using hword
  | parameter k => simpa [leafText, leafPieces] using Spells.parameter
  | qualifier q => exact .headed (by decide) spells_qualifier (by simp)

/-! ### Terms -/

/-- What calls of an operator write without quotes are words. -/
structure Legible (o : Operator) : Prop where
  head : IsWord (headText o).toList
  slots : ∀ slot ∈ o.slots, IsName slot.toList

theorem spells_slots {write : Link → String} {term : Link → Term} (hnone : term none = .absent)
    (hslots : ∀ slot ∈ slots, IsName slot.toList) (hxs : ∀ i, some i ∈ xs →
    (term (some i)).isAbsent = false ∧ Spells (write (some i)).toList (term (some i)).pieces)
    (hcs : Spells cs ps) :
    Spells (cs ++ (slotTexts write slots xs).toList)
      (ps ++ slotPieces slots
        (xs.map fun x => if (term x).isAbsent then none else some (term x).pieces)) := by
  fun_induction slotTexts write slots xs generalizing cs ps with
  | case1 slot slots i xs ih =>
    obtain ⟨hslot, hslots⟩ := List.forall_mem_cons.mp hslots
    obtain ⟨hpresent, hi⟩ := hxs i List.mem_cons_self
    have hstep := ih hslots (fun j hj => hxs j (List.mem_cons_of_mem _ hj))
      ((hcs.spaced (.marked hslot (.inl ⟨rfl, rfl⟩))).spaced hi)
    simpa [slotPieces, hpresent] using hstep
  | case2 slot slots xs ih =>
    obtain ⟨_, hslots⟩ := List.forall_mem_cons.mp hslots
    have hstep := ih hslots (fun j hj => hxs j (List.mem_cons_of_mem _ hj)) hcs
    simpa [slotPieces, hnone] using hstep
  | case3 slots xs h₁ h₂ =>
    have hnil : slotPieces slots (xs.map fun x =>
        if (term x).isAbsent then none else some (term x).pieces) = [] := by
      cases slots with
      | nil => cases xs <;> rfl
      | cons slot slots =>
        cases xs with
        | nil => rfl
        | cons x xs =>
          cases x with
          | none => exact absurd rfl (h₂ _ _ _ rfl)
          | some i => exact absurd rfl (h₁ _ _ _ _ rfl)
    rw [hnil]
    simpa using hcs

theorem pieces_call : (Term.call o ps).pieces =
    (.opening, "(") :: (.word, headText o) :: ((if o.slots.isEmpty then (ps.map Term.pieces).flatten
      else slotPieces o.slots (ps.map fun p => if p.isAbsent then none else some p.pieces)) ++
        [(.closing, ")")]) := by
  rw [Term.call, Term.pieces]

theorem pieces_list : (Term.list ps).pieces = (.openList, "[") ::
      ((ps.map Term.pieces).flatten ++ [(.closeList, "]")]) := by
  rw [Term.list, Term.pieces]

theorem pieces_leaf (h : f.isLeaf) (ps : List Term) :
    (Term.node f.label ps).pieces = leafPieces f := by
  cases f with
  | call c => cases h
  | list items => cases h
  | _ => exact Term.pieces.eq_4 _ _ (fun _ h => nomatch h) (fun _ h => nomatch h)

theorem writeUpTo_leaf (hf : t.form? x = some f) (h : f.isLeaf) (depth : Nat) :
    writeUpTo t (depth + 1) x = leafText f := by
  rw [writeUpTo, hf]
  cases f with
  | call c => cases h
  | list items => cases h
  | _ => rfl

section Nodes

variable {write : Link → String}

theorem spells_call (hnone : term none = .absent) {c : Call} (hlegible : Legible c.operator)
    (hparts : ∀ y ∈ c.operands, Spells (write y).toList (term y).pieces)
    (hpresent : ∀ i, some i ∈ c.operands → (term (some i)).isAbsent = false) :
    Spells (callText write c).toList (Term.call c.operator (c.operands.map term)).pieces := by
  have hhead := Spells.word hlegible.head
  have henclosed {cs : List Char} {ps : List Piece} (h : Spells
      ((headText c.operator).toList ++ cs) ((.word, headText c.operator) :: ps)) : Spells
      ('(' :: ((headText c.operator).toList ++ cs ++ [')']))
        ((.opening, "(") :: (.word, headText c.operator) :: (ps ++ [(.closing, ")")])) :=
    .enclosed rfl rfl h
  rw [pieces_call, callText]
  by_cases hslots : c.operator.slots.isEmpty
  · have htext : ("(" ++ headText c.operator ++ (if c.operands.isEmpty then ""
        else " " ++ Text.join " " (c.operands.map write)) ++ ")").toList =
        '(' :: ((headText c.operator).toList ++
          (c.operands.flatMap fun y => ' ' :: (write y).toList) ++ [')']) := by
      cases hc : c.operands with
      | nil => simp
      | cons y ys => simp [toList_join_cons, List.flatMap_map]
    simp only [hslots, if_true]
    rw [List.map_map]
    exact htext ▸ henclosed (Spells.each write (fun y => (term y).pieces) hparts hhead)
  · have htext : ("(" ++ headText c.operator ++
        slotTexts write c.operator.slots c.operands ++ ")").toList =
        '(' :: ((headText c.operator).toList ++
          (slotTexts write c.operator.slots c.operands).toList ++ [')']) := by simp
    simp only [hslots, Bool.false_eq_true, if_false]
    rw [List.map_map]
    exact htext ▸
      henclosed (spells_slots hnone hlegible.slots (fun i hi => ⟨hpresent i hi, hparts _ hi⟩) hhead)

theorem spells_list {items : List Link}
    (hparts : ∀ y ∈ items, Spells (write y).toList (term y).pieces) :
    Spells ("[" ++ Text.join " " (items.map write) ++ "]").toList
      (Term.list (items.map term)).pieces := by
  have henclosed {cs : List Char} {ps : List Piece} (h : Spells cs ps) :
      Spells ('[' :: (cs ++ [']'])) ((.openList, "[") :: (ps ++ [(.closeList, "]")])) :=
    .enclosed rfl rfl h
  rw [pieces_list]
  cases items with
  | nil =>
    have htext : ("[" ++ Text.join " " (([] : List Link).map write) ++ "]").toList =
        '[' :: ([] ++ [']']) := by
      simp [Text.join]
    exact htext ▸ henclosed .nil
  | cons y ys =>
    obtain ⟨hy, hys⟩ := List.forall_mem_cons.mp hparts
    have htext : ("[" ++ Text.join " " ((y :: ys).map write) ++ "]").toList =
        '[' :: ((write y).toList ++ (ys.flatMap fun y => ' ' :: (write y).toList) ++ [']']) := by
      simp [toList_join_cons, List.flatMap_map]
    rw [htext, List.map_map]
    exact henclosed (Spells.each write (fun y => (term y).pieces) hys hy)

end Nodes

theorem spells_writeUpTo (ht : t.Ordered)
    (hleaf : ∀ i f, t.form? (some i) = some f → Spells (leafText f).toList (leafPieces f))
    (hcall : ∀ i c, t.call? (some i) = some c → Legible c.operator)
    (hx : ∀ i, x = some i → i < depth) (hhas : t.Has x) :
    Spells (writeUpTo t depth x).toList (t.term x).pieces := by
  have habsent : Spells "_".toList (Term.pieces .absent) := by
    have hword : IsWord "_".toList := by decide
    rw [Term.pieces]
    exact .word hword
  induction depth generalizing x with
  | zero =>
    cases x with
    | none => exact habsent
    | some i => exact absurd (hx i rfl) (Nat.not_lt_zero i)
  | succ depth ih =>
    cases hf : t.form? x with
    | none =>
      rw [writeUpTo, hf, Tree.term_of_form?_eq_none hf]
      exact habsent
    | some f =>
      obtain ⟨i, rfl⟩ : ∃ i, x = some i := by
        cases x with
        | none => cases hf
        | some i => exact ⟨i, rfl⟩
      -- the parts of the node are smaller nodes of the tree
      have hparts : ∀ y ∈ f.parts, Spells (writeUpTo t depth y).toList (t.term y).pieces :=
        fun y hy =>
        ih (fun j hj => Nat.lt_of_lt_of_le (ht i j ⟨f, hf, hj ▸ hy⟩) (Nat.le_of_lt_succ (hx i rfl)))
          (.part ht hf hy)
      rw [ht.term_of_form? hf]
      cases hl : f.isLeaf with
      | true =>
        rw [pieces_leaf hl, writeUpTo_leaf hf hl]
        exact hleaf i f hf
      | false =>
        rw [writeUpTo, hf]
        cases f with
        | call c =>
          refine spells_call t.term_none (hcall i c (by simp only [Tree.call?, hf]))
            hparts fun j hj => ?_
          obtain ⟨g, hg⟩ := (Tree.Has.part ht hf hj).exists_form?
          rw [ht.term_of_form? hg]
          rfl
        | list items => exact spells_list hparts
        | _ => cases hl

end Script

end SqlAnalysis

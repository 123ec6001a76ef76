import SqlAnalysis.Proofs.Script.Constants
import SqlAnalysis.Proofs.Script.Rereading

/-!
Leaves are read back. A name, a constant without a power of ten or a date, a type and a qualifier
are read as what they were; the tokens of any other leaf are refused or read as some leaf that is no
parameter.
-/

namespace SqlAnalysis

theorem Form.parts_of_isLeaf {f : Form} (h : f.isLeaf) : f.parts = [] := by
  cases f with
  | call c => cases h
  | list l => cases h
  | _ => rfl

theorem Form.label_of_isLeaf {f : Form} (h : f.isLeaf) : f.label = f := by
  cases f with
  | call c => cases h
  | list l => cases h
  | _ => rfl

namespace Script

variable {rest : List Token}

/-- The step reads a node for the leaf, and leaves the rest. -/
abbrev YieldsLeaf (F : Prop) (R : Form → Form → Prop) (s : ReadState) (m : ReadM Link)
    (rest : List Token) (f : Form) : Prop :=
  Yields F s m fun y s' => Restored R s rest [.node f []] [y] s'

theorem Restored.leaf (h : Restored R s rest [] [] s') {g : Form} (hg : g.isLeaf) (hlabel : R g f)
    (hplain : g.isParameter = false) (span : Span) :
    Yields F s' (some <$> addNode g span) fun y s'' => Restored R s rest [.node f []] [y] s'' :=
  h.add (Form.parts_of_isLeaf hg) ((Form.label_of_isLeaf hg).symm ▸ hlabel) hplain span

/-! ### Words -/

theorem readWord_identifier (h : ReadIdentifier i) (htext : tok.text = i.toText) :
    readWord tok = some <$> addNode (.identifier { names := i.names }) tok.span := by
  obtain ⟨text, _, hnames, hempty, hnumber, hconstant⟩ := h
  have htok : tok.text = text := by rw [htext, Identifier.toText, hnames, join_split]
  simp only [List.mem_cons, List.not_mem_nil, or_false, not_or] at hconstant
  unfold readWord
  rw [htok]
  split
  · exact absurd rfl hconstant.1
  · exact absurd rfl hconstant.2.1
  · exact absurd rfl hconstant.2.2.1
  · exact absurd rfl hconstant.2.2.2.1
  · exact absurd rfl hconstant.2.2.2.2
  · rw [if_neg (by simp [hnumber]), ← hnames, if_neg (by simpa using hempty)]

theorem readWord_number (h : isNumber tok.text) :
    readWord tok = readNumber tok >>= fun l => some <$> addNode (.literal l) tok.span := by
  unfold readWord
  split
  all_goals
    rename_i heq
    first
    | (rw [heq] at h; exact absurd h (by decide))
    | rw [if_pos h]

theorem readNumber_exact (h : ReadLiteral (.exact d)) (htext : tok.text = d.toText) :
    ∃ e, e.sameValue d ∧ readNumber tok = pure (.exact e) := by
  obtain ⟨e, he, hvalue⟩ := Decimal.parse?_toText h.1 h.2
  refine ⟨e, hvalue, ?_⟩
  unfold readNumber
  rw [htext, he]
  rw [not_isExponentMark_toText h.1]
  rfl

/-- The labels that stand for each other: every label for itself, and numbers for numbers of the
same value. -/
structure Faithful (R : Form → Form → Prop) : Prop extends Lenient R where
  leaf : ∀ f : Form, R f f
  number : ∀ d e : Decimal, e.sameValue d → R (.literal (.exact e)) (.literal (.exact d))

theorem restores_single {f : Form} (hleaf : f.isLeaf) (hpieces : leafPieces f = [(kind, text)])
    (h : ∀ (tok : Token) (s : ReadState), tok.kind = kind → tok.text = text → s.tree.Ordered →
      YieldsLeaf F R s (readExpr ops depth tok) s.rest f) :
    Restores ops F R depth (.node f []) := by
  intro tok toks rest s htoks hrest hs
  rw [← Form.label_of_isLeaf hleaf, pieces_leaf hleaf, hpieces] at htoks
  obtain ⟨_, ⟨⟩, hkind, htext⟩ := exists_last_token htoks
  have hread := h tok s hkind htext hs
  rwa [hrest] at hread

theorem readExpr_word (h : tok.kind = .word) : readExpr ops (depth + 1) tok = readWord tok := by
  rw [readExpr, h]

theorem restores_identifier (hR : ∀ f, R f f) (h : ReadIdentifier i) (hc : i.collation = none) :
    Restores ops F R (depth + 1) (.node (.identifier i) []) := by
  have hi : ({ names := i.names } : Identifier) = i := by
    obtain ⟨names, collation⟩ := i
    cases hc
    rfl
  refine restores_single rfl (by rw [leafPieces, identifierPieces, hc]) fun tok s hkind htext hs =>
    ?_
  rw [readExpr_word hkind, readWord_identifier h htext, hi]
  exact (Restored.nil hs rfl).leaf rfl (hR _) rfl _

theorem restores_number (hR : Faithful R) (h : ReadLiteral (.exact d)) :
    Restores ops F R (depth + 1) (.node (.literal (.exact d)) []) := by
  refine restores_single rfl rfl fun tok s hkind htext hs => ?_
  have hnumber : isNumber tok.text := by
    rw [htext]
    exact isNumber_toText h.1
  obtain ⟨e, hvalue, hread⟩ := readNumber_exact h htext
  rw [readExpr_word hkind, readWord_number hnumber, hread, pure_bind]
  exact (Restored.nil hs rfl).leaf rfl (hR.number d e hvalue) rfl _

theorem restores_constant (hR : ∀ f, R f f) (hpieces : literalPieces l = [(.word, text)]) (hread :
    ∀ tok : Token, tok.text = text → readWord tok = some <$> addNode (.literal l) tok.span) :
    Restores ops F R (depth + 1) (.node (.literal l) []) := by
  refine restores_single rfl hpieces fun tok s hkind htext hs => ?_
  rw [readExpr_word hkind, hread tok htext]
  exact (Restored.nil hs rfl).leaf rfl (hR _) rfl _

theorem restores_symbol (hR : ∀ f, R f f) (h : ReadLiteral (.symbol text)) :
    Restores ops F R (depth + 1) (.node (.literal (.symbol text)) []) := by
  obtain ⟨name, _, rfl⟩ := h
  refine restores_single rfl rfl fun tok s hkind htext hs => ?_
  have hupper : Text.upper tok.text = Text.upper name := by rw [htext, Text.upper_upper]
  rw [readExpr, hkind]
  rw [hupper]
  exact (Restored.nil hs rfl).leaf rfl (hR _) rfl _

theorem restores_string (hR : ∀ f, R f f) :
    Restores ops F R (depth + 1) (.node (.literal (.char { value })) []) := by
  refine restores_single rfl rfl fun tok s hkind htext hs => ?_
  rw [readExpr, hkind]
  rw [htext]
  exact (Restored.nil hs rfl).leaf rfl (hR _) rfl _

/-! ### Forms in braces -/

theorem restores_braced {f : Form} (hleaf : f.isLeaf)
    (hpieces : leafPieces f = bracedPieces ((.word, name) :: ps)) (hname : Text.upper name = name)
    (h : ∀ (start head brace : Token) (toks rest : List Token) (s : ReadState),
    Text.upper head.text = name → toks.map Token.piece = ps →
    brace.kind = .closeBrace → s.rest = toks ++ brace :: rest → s.tree.Ordered →
    YieldsLeaf F R s (readNamed (readExpr ops depth) start head) (brace :: rest) f) :
    Restores ops F R (depth + 1) (.node f []) := by
  intro start toks rest s htoks hrest hs
  rw [← Form.label_of_isLeaf hleaf, pieces_leaf hleaf, hpieces] at htoks
  obtain ⟨_, _, ⟨⟩, hkind, _, htoks⟩ := exists_token htoks
  obtain ⟨head, ts, rfl, _, htext, hts⟩ := exists_token htoks
  obtain ⟨toks, braces, rfl, hparts, hbraces⟩ := List.map_eq_append_iff.mp hts
  obtain ⟨brace, rfl, hbrace, _⟩ := exists_last_token hbraces
  rw [readExpr, hkind]
  refine .next hrest ?_
  refine .bind (h start head brace toks rest _ ((congrArg _ htext).trans hname)
    hparts hbrace (List.append_assoc ..) hs) fun y s₁ h₁ => ?_
  refine .next h₁.rest (.ite (fun hne => absurd hbrace hne) fun _ => ?_)
  exact .pure (h₁.skip rest _).moved

theorem run_readString (hrest : s.rest = tok :: toks) (hkind : tok.kind = .string) :
    readString s = .ok (tok, { s with rest := toks, seen := tok.span.last }) := by
  have hbind : readString s = next s >>= fun p => (do
      if p.1.kind ≠ .string then failAt p.1 .stringExpected
      return p.1 : ReadM Token) p.2 := rfl
  rw [hbind, run_next_cons hrest]
  exact congrFun (if_neg (not_not_intro hkind)) _

theorem restores_binary (hR : ∀ f, R f f) (h : ReadLiteral (.binary bytes)) :
    Restores ops F R (depth + 1) (.node (.literal (.binary bytes)) []) := by
  refine restores_braced rfl rfl (by decide)
    fun start head brace toks rest s hhead htoks _ hrest hs => ?_
  obtain ⟨tok, rfl, hkind, htext⟩ := exists_last_token htoks
  rw [readNamed, hhead]
  refine .bind_run (run_readString hrest hkind) ?_
  rw [htext, readBytes?_hexText h]
  exact ((Restored.nil hs hrest).skip _ _).leaf rfl (hR _) rfl _

theorem ofText?_toText : TimeUnit.ofText? u.toText = some u := by cases u <;> decide

theorem run_readUnit (hrest : s.rest = tok :: toks)
    (hkind : tok.kind = .word) (htext : tok.text = u.toText) :
    readUnit s = .ok (u, { s with rest := toks, seen := tok.span.last }) := by
  rw [readUnit, run_bind_ok (run_next_cons hrest), hkind, htext, ofText?_toText]
  rfl

theorem readQualifier_yields (h : ReadQualifier q)
    (htoks : toks.map Token.piece = qualifierPieces q) (hbrace : brace.kind = .closeBrace)
    (hrest : s.rest = toks ++ brace :: rest) : Yields F s readQualifier fun q' s' =>
      q' = q ∧ ∃ seen, s' = { s with rest := brace :: rest, seen } := by
  obtain ⟨first, last, firstPrecision, fractionPrecision⟩ := q
  have hprecision := h.firstPrecision
  have hfraction := h.fractionPrecision
  subst hprecision hfraction
  unfold qualifierPieces at htoks
  dsimp only at htoks
  split at htoks
  · rename_i heq
    subst heq
    obtain ⟨tok, rfl, hkind, htext⟩ := exists_last_token htoks
    refine .bind_run (run_readUnit hrest hkind htext) (.bind_run (run_peek_cons rfl) ?_)
    exact .ite (fun hto => nomatch hbrace.symm.trans hto.1) fun _ => .pure ⟨rfl, _, rfl⟩
  · obtain ⟨tok, _, rfl, hkind, htext, htoks⟩ := exists_token htoks
    obtain ⟨link, _, rfl, hlink, hlinktext, htoks⟩ := exists_token htoks
    obtain ⟨tok', rfl, hkind', htext'⟩ := exists_last_token htoks
    have hto : link.kind = .word ∧ Text.sameLetters link.text "TO" := by
      refine ⟨hlink, ?_⟩
      rw [hlinktext]
      decide
    refine .bind_run (run_readUnit hrest hkind htext) (.bind_run (run_peek_cons rfl) ?_)
    refine .ite (fun _ => ?_) fun hne => absurd hto hne
    refine .next rfl (.bind_run (run_readUnit rfl hkind' htext') ?_)
    refine .ite (fun hbad => ?_) fun _ => .pure ⟨rfl, _, rfl⟩
    rcases hbad with hbad | hbad
    · exact absurd h.ordered (Nat.not_le.mpr hbad)
    · exact absurd h.kind hbad

theorem restores_qualifier (hR : ∀ f, R f f) (h : ReadQualifier q) :
    Restores ops F R (depth + 1) (.node (.qualifier q) []) := by
  refine restores_braced rfl rfl (by decide)
    fun start head brace toks rest s hhead htoks hbrace hrest hs => ?_
  rw [readNamed, hhead]
  refine .bind (readQualifier_yields h htoks hbrace hrest) ?_
  rintro _ _ ⟨rfl, seen, rfl⟩
  refine .bind_run rfl ?_
  exact ((Restored.nil hs hrest).skip _ _).leaf rfl (hR _) rfl _

theorem restores_interval (hR : ∀ f, R f f) (h : ReadInterval v) :
    Restores ops F R (depth + 1) (.node (.literal (.interval v)) []) := by
  refine restores_braced rfl rfl (by decide)
    fun start head brace toks rest s hhead htoks hbrace hrest hs => ?_
  obtain ⟨tok, toks, rfl, hkind, htext, htoks⟩ := exists_token htoks
  rw [readNamed, hhead]
  refine .bind_run (run_readString hrest hkind) ?_
  refine .bind (readQualifier_yields h.qualifier htoks hbrace rfl) ?_
  rintro _ _ ⟨rfl, seen, rfl⟩
  rw [htext, intervalValue?_intervalText h]
  refine .bind_run rfl ?_
  exact ((Restored.nil hs hrest).skip _ _).leaf rfl (hR _) rfl _

/-! ### Types -/

section Words

theorem readTypeWords_stop (hrest : s.rest = tok :: toks) (hkind : tok.kind ≠ .word)
    (h : Q spec { s with seen := tok.span.last }) : Yields F s (readTypeWords (fuel + 1) spec) Q :=
  .bind_run (run_peek_cons hrest) (.ite (fun _ => .pure h) fun hne => absurd hkind hne)

theorem readTypeWords_name (hrest : s.rest = tok :: toks) (hkind : tok.kind = .word)
    (hcharset : Text.sameLetters tok.text "CHARSET" = false) (hnumber : isNumber tok.text = false)
    (h : Yields F { s with rest := toks, seen := tok.span.last }
    (readTypeWords fuel { spec with names := spec.names ++ [tok.text] }) Q) :
    Yields F s (readTypeWords (fuel + 1) spec) Q := by
  refine .bind_run (run_peek_cons hrest) (.ite (fun hne => absurd hkind hne) fun _ =>
    .next (by exact hrest) ?_)
  rw [hcharset, hnumber]
  exact h

theorem sameLetters_intText : Text.sameLetters (Number.intText n) "CHARSET" = false := by
  obtain ⟨c, cs, hcs, hc⟩ : ∃ c cs, (Number.intText n).toList = c :: cs ∧
    (c = '-' ∨ Number.isDigit c) := by
    rw [Number.toList_intText]
    obtain ⟨c, cs, hcs⟩ := List.exists_cons_of_ne_nil (Number.digits_ne_nil n.natAbs)
    split
    · exact ⟨'-', _, rfl, .inl rfl⟩
    · exact ⟨c, cs, hcs, .inr (Number.isDigit_of_mem_digits (hcs ▸ List.mem_cons_self))⟩
  have hfirst : Text.caseless c ≠ Text.caseless 'C' := by
    rcases hc with rfl | hc
    · decide
    · exact of_isDigit (P := fun c => Text.caseless c ≠ Text.caseless 'C') (by decide) hc
  have hname : "CHARSET".toList = 'C' :: "HARSET".toList := by decide
  refine beq_false_of_ne fun heq => ?_
  rw [hcs, hname, List.map_cons, List.map_cons] at heq
  exact hfirst (List.cons.inj heq).1

theorem readTypeWords_number (hrest : s.rest = tok :: toks) (hkind : tok.kind = .word)
    (htext : tok.text = Number.intText n)
    (hfits : Number.fits 64 n)
    (h : Yields F { s with rest := toks, seen := tok.span.last } (readTypeWords fuel
      (if spec.precision = ScalarName.noPrecision then { spec with precision := n }
      else { spec with scale := n })) Q) :
    Yields F s (readTypeWords (fuel + 1) spec) Q := by
  have hread : (Number.readInt? tok.text.toList).filter (Number.fits 64) = some n := by
    rw [htext, Number.readInt?_intText]
    simp [hfits]
  refine .bind_run (run_peek_cons hrest) (.ite (fun hne => absurd hkind hne) fun _ =>
    .next (by exact hrest) ?_)
  rw [hread, htext, sameLetters_intText, isNumber_intText, if_neg Bool.false_ne_true, if_pos rfl]
  refine .ite (fun hnone => ?_) fun hsome => ?_
  · rwa [if_pos hnone] at h
  · rwa [if_neg hsome] at h

theorem readTypeWords_charset {charset : Token} (hrest : s.rest = tok :: charset :: toks)
    (hkind : tok.kind = .word) (htext : tok.text = "CHARSET")
    (h : Yields F { s with rest := toks, seen := charset.span.last }
    (readTypeWords fuel { spec with charset := charset.text }) Q) :
    Yields F s (readTypeWords (fuel + 1) spec) Q := by
  have hsame : Text.sameLetters tok.text "CHARSET" := by
    rw [htext]
    exact beq_self_eq_true _
  refine .bind_run (run_peek_cons hrest) (.ite (fun hne => absurd hkind hne) fun _ =>
    .next (by exact hrest) ?_)
  rw [hsame]
  exact .next rfl h

/-- What is read up to the brace. -/
def ReadUpTo (s : ReadState) (rest : List Token) (spec : TypeSpec) (r : TypeSpec)
    (s' : ReadState) : Prop :=
  r = spec ∧ ∃ seen, s' = { s with rest, seen }

variable {brace : Token} (hbrace : brace.kind = .closeBrace)
include hbrace

theorem readTypeWords_charsetWords (htoks : toks.map
    Token.piece = (charsetWords f).map (Prod.mk .word)) (hrest : s.rest = toks ++ brace :: rest)
    (hfuel : toks.length < fuel) (hspec : spec.charset = "") :
    Yields F s (readTypeWords fuel spec)
      (ReadUpTo s (brace :: rest) { spec with charset := f.charset }) := by
  obtain ⟨fuel, rfl⟩ := Nat.exists_eq_succ_of_ne_zero (Nat.ne_zero_of_lt hfuel)
  have hstop {s : ReadState} {spec : TypeSpec} (hrest : s.rest = brace :: rest) (fuel : Nat) :
      Yields F s (readTypeWords (fuel + 1) spec) fun r s' => r = spec ∧
      ∃ seen, s' = { s with seen } :=
    readTypeWords_stop hrest (by rw [hbrace]; exact nofun) ⟨rfl, _, rfl⟩
  unfold charsetWords at htoks
  split at htoks
  · rename_i hnone
    cases List.map_eq_nil_iff.mp htoks
    refine (hstop hrest fuel).weaken ?_
    rintro _ _ ⟨rfl, seen, rfl⟩
    rw [hnone, ← hspec]
    exact ⟨rfl, seen, by rw [hrest, List.nil_append]⟩
  · obtain ⟨tok, _, rfl, hkind, htext, htoks⟩ := exists_token htoks
    obtain ⟨charset, rfl, _, hcharset⟩ := exists_last_token htoks
    refine readTypeWords_charset hrest hkind htext ?_
    rw [hcharset]
    obtain ⟨fuel, rfl⟩ : ∃ k, fuel = k + 1 :=
      ⟨fuel - 1, by simp only [List.length_cons] at hfuel; omega⟩
    refine (hstop rfl fuel).weaken ?_
    rintro _ _ ⟨rfl, seen, rfl⟩
    exact ⟨rfl, seen, rfl⟩

theorem readTypeWords_precisionWords (h : ReadTypeSpec f)
    (htoks : toks.map Token.piece = (precisionWords f ++ charsetWords f).map (Prod.mk .word))
    (hrest : s.rest = toks ++ brace :: rest) (hfuel : toks.length < fuel) (names : List String) :
    Yields F s (readTypeWords fuel { names }) (ReadUpTo s (brace :: rest) { f with names }) := by
  obtain ⟨fuel, rfl⟩ := Nat.exists_eq_succ_of_ne_zero (Nat.ne_zero_of_lt hfuel)
  unfold precisionWords at htoks
  split at htoks
  · rename_i hnone
    rw [hnone, h.precision hnone]
    exact readTypeWords_charsetWords hbrace htoks hrest hfuel rfl
  · rename_i hprecision
    split at htoks
    · rename_i hscale
      obtain ⟨tok, toks, rfl, hkind, htext, htoks⟩ := exists_token htoks
      refine readTypeWords_number hrest hkind htext h.precision_fits ?_
      rw [if_pos rfl]
      refine (readTypeWords_charsetWords hbrace htoks rfl (Nat.lt_of_succ_lt_succ hfuel) rfl).weaken
        ?_
      rintro _ _ ⟨rfl, seen, rfl⟩
      exact ⟨by rw [← hscale], seen, rfl⟩
    · obtain ⟨tok, _, rfl, hkind, htext, htoks⟩ := exists_token htoks
      obtain ⟨tok', toks, rfl, hkind', htext', htoks⟩ := exists_token htoks
      obtain ⟨fuel, rfl⟩ : ∃ k, fuel = k + 1 :=
        ⟨fuel - 1, by simp only [List.length_cons] at hfuel; omega⟩
      refine readTypeWords_number hrest hkind htext h.precision_fits ?_
      rw [if_pos rfl]
      refine readTypeWords_number rfl hkind' htext' h.scale_fits ?_
      rw [if_neg hprecision]
      refine (readTypeWords_charsetWords hbrace htoks
        rfl (Nat.lt_of_succ_lt_succ (Nat.lt_of_succ_lt_succ hfuel)) rfl).weaken ?_
      rintro _ _ ⟨rfl, seen, rfl⟩
      exact ⟨rfl, seen, rfl⟩

theorem readTypeWords_typeSpec (h : ReadTypeSpec f) (read : List String)
    (hnames : f.names = read ++ names) (htoks : toks.map
    Token.piece = (names ++ (precisionWords f ++ charsetWords f)).map (Prod.mk .word))
    (hrest : s.rest = toks ++ brace :: rest) (hfuel : toks.length < fuel) :
    Yields F s (readTypeWords fuel { names := read }) (ReadUpTo s (brace :: rest) f) := by
  induction names generalizing read s toks fuel with
  | nil =>
    rw [List.append_nil] at hnames
    subst hnames
    exact readTypeWords_precisionWords hbrace h htoks hrest hfuel f.names
  | cons name names ih =>
    obtain ⟨tok, toks, rfl, hkind, htext, htoks⟩ := exists_token htoks
    obtain ⟨fuel, rfl⟩ := Nat.exists_eq_succ_of_ne_zero (Nat.ne_zero_of_lt hfuel)
    obtain ⟨_, hnumber, hcharset⟩ :=
      h.names name (hnames ▸ List.mem_append_right _ List.mem_cons_self)
    refine readTypeWords_name hrest hkind (htext ▸ hcharset) (htext ▸ hnumber) ?_
    rw [htext]
    refine (ih (read ++ [name]) (by rw [hnames, List.append_assoc]; rfl)
      htoks rfl (Nat.lt_of_succ_lt_succ hfuel)).weaken ?_
    rintro _ _ ⟨rfl, seen, rfl⟩
    exact ⟨rfl, seen, rfl⟩

end Words

theorem restores_typeSpec (hR : ∀ f, R f f) (h : ReadTypeSpec f) :
    Restores ops F R (depth + 1) (.node (.typeSpec f) []) := by
  refine restores_braced rfl rfl (by decide)
    fun start head brace toks rest s hhead htoks hbrace hrest hs => ?_
  rw [readNamed, hhead]
  refine .bind_run rfl ?_
  have hfuel : toks.length < s.rest.length + 1 := by
    rw [hrest, List.length_append]
    omega
  refine .bind (readTypeWords_typeSpec hbrace h [] rfl htoks hrest hfuel) ?_
  rintro _ _ ⟨rfl, seen, rfl⟩
  refine .ite (fun hnil => absurd (by simpa using hnil) h.ne_nil) fun _ => .bind_run rfl ?_
  exact ((Restored.nil hs hrest).skip _ _).leaf rfl (hR _) rfl _

end Script

/-! ### Parameters alone -/

/-- Labels of which both or neither are parameters. -/
def Form.Loosely (f g : Form) : Prop := f.isParameter = g.isParameter

theorem Term.Alike.length_parameters (h : Term.Alike Form.Loosely x y) :
    x.parameters.length = y.parameters.length := by
  induction x generalizing y with
  | absent =>
    cases h
    rfl
  | node f ps ih =>
    cases h with
    | @node _ g _ qs hlabel hparts =>
      have hlengths : (ps.flatMap Term.parameters).length =
          (qs.flatMap Term.parameters).length := by
        clear hlabel
        induction hparts with
        | nil => rfl
        | cons hp _ ih' =>
          rw [List.flatMap_cons, List.flatMap_cons, List.length_append, List.length_append,
            ih _ List.mem_cons_self hp, ih' fun p hp => ih p (List.mem_cons_of_mem _ hp)]
      cases hf : f.isParameter with
      | false => rw [parameters_node hf, parameters_node (hlabel.symm.trans hf), hlengths]
      | true =>
        have hg : g.isParameter := hlabel.symm.trans hf
        cases f with
        | parameter j =>
          cases g with
          | parameter k => simp only [parameters, List.length_singleton]
          | _ => cases hg
        | _ => cases hf

namespace Script

variable {rest : List Token}

theorem faithful_loosely : Faithful Form.Loosely where
  call _ _ _ := rfl
  list := rfl
  leaf _ := rfl
  number _ _ _ := rfl

theorem Restored.forget (h : Restored Form.Loosely s rest xs ys s')
    (hxs : xs.flatMap Term.parameters = []) : Restored Form.Loosely s rest [] [] s' := by
  have hnone {zs qs : List Term} (halike : List.Forall₂ (Term.Alike Form.Loosely) zs qs)
      (hqs : qs.flatMap Term.parameters = []) :
      (zs.flatMap Term.parameters).length = 0 := by
    induction halike with
    | nil => rfl
    | cons h _ ih =>
      rw [List.flatMap_cons, List.append_eq_nil_iff] at hqs
      rw [List.flatMap_cons, List.length_append, ih hqs.2, h.length_parameters, hqs.1]
      rfl
  have hcount := h.count
  rw [hnone h.alike hxs] at hcount
  exact ⟨h.rest, h.ending, h.ordered, h.ext, nofun, .nil, hcount, rfl⟩

/-- A parameter is numbered by how many were read before it. -/
theorem restores_parameter : Restores ops F Form.Loosely (depth + 1) (.node (.parameter k) []) := by
  refine restores_single rfl rfl fun tok s hkind _ hs => ?_
  rw [readExpr, hkind]
  have hrun : (do
      let k := (← get).parameters
      modify fun s => { s with parameters := k + 1 }
      some <$> addNode (.parameter k) tok.span : ReadM Link) s =
      (some <$> addNode (.parameter s.parameters) tok.span : ReadM Link)
        { s with parameters := s.parameters + 1 } := rfl
  have hordered := Tree.ordered_add
    (n := { form := .parameter s.parameters, span := some tok.span }) hs (List.forall_mem_nil _)
  have hform := s.tree.form?_add { form := .parameter s.parameters, span := some tok.span }
  have hterm : [some s.tree.nodes.size].map
      (s.tree.add { form := .parameter s.parameters, span := some tok.span }).2.term =
      [.node (.parameter s.parameters) []] := congrArg (fun x => [x]) (hordered.term_of_form? hform)
  have hnumbers : ([some s.tree.nodes.size].map
    (s.tree.add { form := .parameter s.parameters, span := some tok.span }).2.term).flatMap
      Term.parameters = [(s.parameters : Int)] := by
    rw [hterm]
    simp [Term.parameters]
  refine .of_run (hrun.trans run_addNode) ⟨rfl, rfl, hordered, .add _ _,
    List.forall_mem_singleton.mpr (.of_form? hform), ?_, ?_, ?_⟩
  · rw [hterm]
    exact .cons (.node rfl .nil) .nil
  · rw [hnumbers]
    rfl
  · rw [hnumbers]
    rfl

theorem readWord_loosely (hs : s.tree.Ordered) (hrest : s.rest = rest) (h : tok.text ≠ "_")
    (hf : f.isParameter = false) : YieldsLeaf True Form.Loosely s (readWord tok) rest f := by
  have hleaf {g : Form} (hg : g.isLeaf) (hplain : g.isParameter = false) :
      YieldsLeaf True Form.Loosely s (some <$> addNode g tok.span) rest f :=
    (Restored.nil hs hrest).leaf hg (hplain.trans hf.symm) hplain _
  unfold readWord
  split
  · rename_i heq
    exact absurd heq h
  · exact hleaf rfl rfl
  · exact hleaf rfl rfl
  · exact hleaf rfl rfl
  · exact hleaf rfl rfl
  · refine .ite (fun _ => ?_) fun _ => .ite (fun _ => trivial) fun _ => hleaf rfl rfl
    unfold readNumber
    split
    · exact trivial
    · exact hleaf rfl rfl

theorem approximateText_ne (d : Decimal) : d.approximateText ≠ "_" := by
  intro h
  have hmark (sign : String) (ds : List Char) (power : Int) : 'E' ∈
      (sign ++ Binary64.scientific ds power).toList := by
    simp [Binary64.scientific]
  have hunder : 'E' ∉ "_".toList := by decide
  unfold Decimal.approximateText at h
  cases hd : Binary64.ofDecimal d with
  | infinite =>
    rw [hd] at h
    revert h
    cases d.isNegative <;> decide
  | finite m e =>
    rw [hd] at h
    cases m with
    | zero =>
      revert h
      cases d.isNegative <;> simp [Binary64.toText]
    | succ m =>
      rw [Binary64.toText] at h
      · rw [← h] at hunder
        exact hunder (hmark _ _ _)
      · rintro ⟨⟩

theorem restores_approximate :
    Restores ops True Form.Loosely (depth + 1) (.node (.literal (.approximate d)) []) := by
  refine restores_single rfl rfl fun tok s hkind htext hs => ?_
  rw [readExpr_word hkind]
  refine readWord_loosely hs rfl ?_ rfl
  rw [htext]
  exact approximateText_ne d

theorem readDatetime_loosely (hs : s.tree.Ordered) (hrest : s.rest = tok :: toks)
    (hkind : tok.kind = .string) (hf : f.isParameter = false) :
    YieldsLeaf True Form.Loosely s (readDatetime start kind) toks f := by
  refine .bind_run (run_readString hrest hkind) ?_
  dsimp only
  split
  · exact trivial
  · exact ((Restored.nil hs hrest).skip toks _).leaf rfl hf.symm rfl _

theorem readCharset_loosely (hs : s.tree.Ordered) (hrest : s.rest = tok :: name :: toks)
    (hkind : tok.kind = .string) (hf : f.isParameter = false) :
    YieldsLeaf True Form.Loosely s (readCharset start) toks f := by
  refine .bind_run (run_readString hrest hkind) ?_
  -- the table of names is not looked into
  generalize Charset.canonical = canonical
  refine .next rfl ?_
  split
  · exact trivial
  · exact ((Restored.nil hs hrest).skip toks _).leaf rfl hf.symm rfl _

theorem collated?_cases (h : collated? form c = some g) : g.isLeaf ∧ g.isParameter = false := by
  unfold collated? at h
  split at h <;> cases h <;> exact ⟨rfl, rfl⟩

/-- What a collation is put on is read before its name. -/
theorem readCollate_loosely {readExpr : Token → ReadM Link} (hs : s.tree.Ordered)
    (hrest : s.rest = tok :: name :: toks) (hf : f.isParameter = false)
    (hread : ∀ s : ReadState, s.rest = name :: toks → s.tree.Ordered →
      YieldsLeaf True Form.Loosely s (readExpr tok) (name :: toks) f) :
    YieldsLeaf True Form.Loosely s (readCollate readExpr start) toks f := by
  refine .next hrest (.bind (hread _ rfl hs) fun y s₁ h₁ => .next h₁.rest ?_)
  have hnone : [Term.node f []].flatMap Term.parameters = [] := by
    rw [List.flatMap_singleton, Term.parameters_node hf]
    rfl
  split
  · exact trivial
  · refine .bind_run rfl ?_
    split
    · exact trivial
    · rename_i hform
      obtain ⟨hleaf, hplain⟩ := collated?_cases hform
      exact ((h₁.moved.forget hnone).skip toks _).leaf hleaf (hplain.trans hf.symm) hplain _

theorem restores_datetime (hkind : kind ∈ ["DATE", "TIME", "TIMESTAMP"])
    (hpieces : literalPieces l = bracedPieces [(.word, kind), (.string, text)]) :
    Restores ops True Form.Loosely (depth + 1) (.node (.literal l) []) := by
  have hupper : ∀ kind ∈ ["DATE", "TIME", "TIMESTAMP"], Text.upper kind = kind := by decide
  refine restores_braced rfl hpieces (hupper kind hkind)
    fun start head brace toks rest s hhead htoks _ hrest hs => ?_
  obtain ⟨tok, rfl, htok, _⟩ := exists_last_token htoks
  rw [readNamed, hhead]
  simp only [List.mem_cons, List.not_mem_nil, or_false] at hkind
  rcases hkind with rfl | rfl | rfl <;> exact readDatetime_loosely hs hrest htok rfl

theorem restores_charset (charset : String) (hpieces : literalPieces
    (.char v) = bracedPieces [(.word, "CHARSET"), (.string, v.value), (.word, charset)]) :
    Restores ops True Form.Loosely (depth + 1) (.node (.literal (.char v)) []) := by
  refine restores_braced rfl hpieces (by decide)
    fun start head brace toks rest s hhead htoks _ hrest hs => ?_
  obtain ⟨tok, _, rfl, htok, _, htoks⟩ := exists_token htoks
  obtain ⟨name, rfl, _, _⟩ := exists_last_token htoks
  rw [readNamed, hhead]
  exact readCharset_loosely hs hrest htok rfl

theorem restores_collate (hleaf : f.isLeaf) (hf : f.isParameter = false)
    (hpieces : leafPieces f = bracedPieces [(.word, "COLLATE"), p, (.word, collation)])
    (hread : ∀ (tok : Token) (s : ReadState), tok.piece = p → s.tree.Ordered →
      YieldsLeaf True Form.Loosely s (readExpr ops depth tok) s.rest f) :
    Restores ops True Form.Loosely (depth + 1) (.node f []) := by
  refine restores_braced hleaf hpieces (by decide)
    fun start head brace toks rest s hhead htoks _ hrest hs => ?_
  obtain ⟨tok, _, rfl, htok, htoks⟩ := List.map_eq_cons_iff.mp htoks
  obtain ⟨name, rfl, _, _⟩ := exists_last_token htoks
  rw [readNamed, hhead]
  exact readCollate_loosely hs hrest hf fun s hs' hordered => hs' ▸ hread tok s htok hordered

end Script

end SqlAnalysis

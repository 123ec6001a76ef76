import Mathlib.Data.List.TakeWhile
import SqlAnalysis.Proofs.Tree.Nesting
import SqlAnalysis.Script.Reader

/-!
What a text is read as. The tree of a text is ordered, and every node is of one of the forms that
the notation has. A call has the operator that its name is bound to, with a place for each named
operand. A node stands in the text around its parts, and unless a node is left out, all nodes are
under the root.
-/

namespace SqlAnalysis.Script

/-! ### Tokens -/

/-- Words begin with no mark and no comment. -/
structure IsWord (cs : List Char) : Prop where
  ne_nil : cs ≠ []
  chars : ∀ c ∈ cs, isWordChar c
  unmarked : ∀ c, cs.head? = some c → c ≠ '?' ∧ c ≠ ':' ∧ c ≠ '#'
  no_comment : ¬ ['-', '-'] <+: cs

/-- The characters after the mark of a keyword or a symbol. -/
structure IsName (cs : List Char) : Prop where
  ne_nil : cs ≠ []
  chars : ∀ c ∈ cs, isWordChar c

def Token.Valid (tok : Token) : Prop :=
  match tok.kind with
  | .word => IsWord tok.text.toList
  | .keyword | .symbol => IsName tok.text.toList
  | _ => True

theorem skipBlanks_no_comment :
    ¬ ['-', '-'] <+: (skipBlanks inComment pos cs).2 := by
  fun_induction skipBlanks inComment pos cs with
  | case1 => exact fun h => absurd (List.prefix_nil.mp h) (by decide)
  | case2 _ _ cs ih => exact ih
  | case3 _ c cs _ ih => exact ih
  | case4 _ _ c cs _ _ _ ih => exact ih
  | case5 _ _ c cs hne _ _ =>
    rintro ⟨rest, hrest⟩
    cases hrest
    exact hne rest rfl rfl

theorem takeWhile_isWordChar (cs : List Char) : ∀ c ∈ cs.takeWhile isWordChar, isWordChar c :=
  fun _ hc => List.mem_takeWhile_imp hc

theorem skipBlanks_length (inComment : Bool) (pos : Nat) (cs : List Char) :
    pos ≤ (skipBlanks inComment pos cs).1 ∧ (skipBlanks inComment pos cs).1 +
      Text.byteLength (skipBlanks inComment pos cs).2 = pos + Text.byteLength cs := by
  have hdash : '-'.utf8Size = 1 := rfl
  fun_induction skipBlanks inComment pos cs with
  | case1 => exact ⟨Nat.le_refl _, rfl⟩
  | case5 => exact ⟨Nat.le_refl _, rfl⟩
  | _ =>
    simp only [Text.byteLength]
    omega

theorem scanString_length (h : scanString pos cs = some (text, stop, rest)) :
    pos < stop ∧ stop + Text.byteLength rest = pos + Text.byteLength cs := by
  have hquote : '\''.utf8Size = 1 := rfl
  fun_induction scanString pos cs generalizing text with
  | case1 => cases h
  | case3 =>
    cases h
    simp only [Text.byteLength]
    omega
  | _ =>
    rename_i ih
    obtain ⟨⟨text', r⟩, hr, heq⟩ := Option.map_eq_some_iff.mp h
    cases heq
    have := ih hr
    simp only [Text.byteLength]
    omega

theorem byteLength_word (cs : List Char) : Text.byteLength (cs.takeWhile isWordChar) +
      Text.byteLength (cs.dropWhile isWordChar) = Text.byteLength cs := by
  induction cs with
  | nil => rfl
  | cons c cs ih =>
    rw [List.takeWhile_cons, List.dropWhile_cons]
    split
    · simp only [Text.byteLength]
      omega
    · exact Nat.zero_add _

variable {tok : Token}

theorem scanToken_valid (hcs : ¬ ['-', '-'] <+: cs) (hblank : ∀ c, cs.head? = some c →
    isSeparator c = false) (h : scanToken pos cs = .ok (tok, stop, rest)) :
    (tok.Valid ∧ tok.kind ≠ .eof) ∧ tok.span = ⟨pos, stop⟩ ∧ pos < stop ∧
      stop + Text.byteLength rest = pos + Text.byteLength cs := by
  cases cs with
  | nil => cases h
  | cons c cs =>
    rw [scanToken] at h
    split at h
    · rename_i kind hk
      cases h
      have hone {c : Char} (hc : c.utf8Size = 1) (cs : List Char) :
          pos + 1 + Text.byteLength cs = pos + Text.byteLength (c :: cs) := by
          rw [Text.byteLength, hc, Nat.add_assoc]
      unfold bracket? at hk
      split at hk <;> cases hk <;> exact ⟨⟨trivial, nofun⟩, rfl, Nat.lt_succ_self _, hone rfl _⟩
    · rename_i hk
      have hpos := c.utf8Size_pos
      split at h
      · split at h
        · rename_i hquote _ _ _ _ hstring
          cases h
          have := scanString_length hstring
          have hone : c.utf8Size = 1 := by rw [hquote]; rfl
          exact ⟨⟨trivial, nofun⟩, rfl, by omega, by rw [Text.byteLength]; omega⟩
        · cases h
      · rename_i hquote
        split at h
        · rename_i hmark
          cases h
          have hone : c.utf8Size = 1 := by rw [hmark]; rfl
          exact ⟨⟨trivial, nofun⟩, rfl, by omega, by rw [Text.byteLength]; omega⟩
        · rename_i hmark
          split at h
          · split at h
            · cases h
            · rename_i hmarks _ hne
              cases h
              have hone : c.utf8Size = 1 := by obtain rfl | rfl := hmarks <;> rfl
              have := byteLength_word cs
              refine ⟨?_, rfl, by omega, by rw [Text.byteLength]; omega⟩
              have hname : IsName (String.ofList (cs.takeWhile isWordChar)).toList := by
                rw [String.toList_ofList]
                exact ⟨hne, takeWhile_isWordChar cs⟩
              split <;> exact ⟨hname, nofun⟩
          · rename_i hmarks
            cases h
            have hc : isWordChar c := by
              have hsep := hblank c rfl
              simp [isWordChar, hsep, hk, hquote]
            have hlen := byteLength_word (c :: cs)
            have htake : Text.byteLength ((c :: cs).takeWhile isWordChar) =
                c.utf8Size + Text.byteLength (cs.takeWhile isWordChar) := by
              rw [List.takeWhile_cons, if_pos hc, Text.byteLength]
            refine ⟨⟨?_, nofun⟩, rfl, by omega, by omega⟩
            unfold Token.Valid
            simp only [String.toList_ofList]
            refine ⟨?_, takeWhile_isWordChar _, ?_, ?_⟩
            · rw [List.takeWhile_cons, if_pos hc]
              exact nofun
            · rw [List.takeWhile_cons, if_pos hc]
              rintro _ ⟨⟩
              exact ⟨hmark, fun h => hmarks (.inl h), fun h => hmarks (.inr h)⟩
            · exact fun h => hcs (h.trans (List.takeWhile_prefix isWordChar))

theorem skipBlanks_not_separator (pos : Nat) (cs : List Char) :
    ∀ c, (skipBlanks false pos cs).2.head? = some c → isSeparator c = false := by
  have hgen (inComment : Bool) (pos : Nat) (cs : List Char) :
      ∀ c, (skipBlanks inComment pos cs).2.head? = some c → isSeparator c = false := by
    fun_induction skipBlanks inComment pos cs with
    | case1 => exact nofun
    | case2 _ _ cs ih => exact ih
    | case3 _ c cs _ ih => exact ih
    | case4 _ _ c cs _ _ _ ih => exact ih
    | case5 _ _ c cs _ _ hsep =>
      rintro _ ⟨⟩
      simpa using hsep
  exact hgen false pos cs

theorem scanUpTo_valid (most pos : Nat) (cs : List Char) :
    let T := scanUpTo most pos cs
    (∀ tok ∈ T.tokens, tok.Valid ∧ (tok.kind ≠ .eof ∧ tok.span.first < tok.span.last) ∧
      pos ≤ tok.span.first) ∧ (T.tokens.Pairwise fun tok tok' => tok.span.last ≤ tok'.span.first) ∧
      ∀ stop, T.ending = .endOfText stop →
        (pos ≤ stop ∧ stop ≤ pos + Text.byteLength cs) ∧ ∀ tok ∈ T.tokens,
        tok.span.last ≤ stop := by
  induction most generalizing pos cs with
  | zero =>
    refine ⟨nofun, .nil, ?_⟩
    rintro _ ⟨⟩
    exact ⟨⟨Nat.le_refl _, Nat.le_add_right _ _⟩, nofun⟩
  | succ most ih =>
    obtain ⟨hle, hlen⟩ := skipBlanks_length false pos cs
    rw [scanUpTo]
    dsimp only
    split
    · rename_i ending h
      refine ⟨nofun, .nil, ?_⟩
      rintro stop rfl
      have hstop : stop = (skipBlanks false pos cs).1 := by
        unfold scanToken at h
        repeat' split at h
        all_goals cases h
        rfl
      exact ⟨by omega, nofun⟩
    · rename_i tok stop rest h
      obtain ⟨hvalid, hspan, hlt, hrest⟩ :=
        scanToken_valid skipBlanks_no_comment (skipBlanks_not_separator _ _) h
      obtain ⟨htokens, hsorted, hending⟩ := ih stop rest
      refine ⟨List.forall_mem_cons.mpr ⟨⟨hvalid.1, ?_⟩, fun tok' h => ⟨(htokens tok' h).1,
        (htokens tok' h).2.1, ?_⟩⟩, .cons (fun tok' h => ?_) hsorted, fun pos' h => ?_⟩
      · rw [hspan]
        exact ⟨⟨hvalid.2, hlt⟩, hle⟩
      · exact (hle.trans_lt hlt).le.trans (htokens tok' h).2.2
      · rw [hspan]
        exact (htokens tok' h).2.2
      · obtain ⟨hbounds, hends⟩ := hending pos' h
        refine ⟨by omega, List.forall_mem_cons.mpr ⟨?_, hends⟩⟩
        rw [hspan]
        exact hbounds.1

/-! ### Forms -/

def candidates (ops : Registry) (head : String) : List Operator :=
  match ops.overloads head with
  | [] => ops.overloads (Text.replaceChar '_' ' ' head)
  | os => os

/-- The operator that a name is bound to for `n` operands in place; `slotted` if there are named
operands too. -/
inductive BoundTo (ops : Registry) (head : String) (n : Nat) : Bool → Operator → Prop where
  | waiting (site : Nat) (h : candidates ops head = []) : BoundTo ops head
    n false (.unresolved head site)
  | slotted {o : Operator} (h : (candidates ops head).find? (fun o => !o.slots.isEmpty) = some
    o) : BoundTo ops head n true o
  | chosen {o : Operator} (h : chooseOverload (candidates ops head) n = some o) : BoundTo
    ops head n false o

inductive ReadCall (ops : Registry) : Operator → List Link → Prop where
  | placed {head : String} {o : Operator} {operands : List Link} (hw : IsWord head.toList)
    (h : BoundTo ops head operands.length false o) :
    ReadCall ops o (operands ++ List.replicate (o.slots.length - operands.length) none)
  | named {head : String} {n : Nat} {o : Operator} {operands : List Link} (hw : IsWord head.toList)
    (h : BoundTo ops head n true o) (hlen : operands.length =
    o.slots.length) : ReadCall ops o operands

theorem candidates_eq (h : o ∈ candidates ops head) :
    candidates ops head = ops.overloads o.name := by
  have heq {key : String} (h : o ∈ ops.overloads key) : ops.overloads key =
      ops.overloads o.name := by
    have hkey := (List.mem_filter.mp h).2
    simp only [Registry.overloads, beq_iff_eq.mp hkey]
  unfold candidates at h ⊢
  split at h
  · exact heq h
  · exact heq h

theorem mem_of_chooseOverload (h : chooseOverload os n = some o) : o ∈ os := by
  have hordered {o : Operator} (h : o ∈ (preferredForms n).flatMap fun f =>
      os.filter fun o => o.form == f) : o ∈ os := by
    obtain ⟨_, _, h⟩ := List.mem_flatMap.mp h
    exact (List.mem_filter.mp h).1
  unfold chooseOverload at h
  dsimp only at h
  split at h
  · rename_i o' hfind
    cases h
    exact hordered (List.mem_of_find?_eq_some hfind)
  · rcases List.mem_append.mp (List.mem_of_mem_head? h) with h | h
    · exact hordered h
    · exact h

theorem ReadCall.mem_or_unresolved (h : ReadCall ops o operands) :
    o ∈ ops.operators ∨ ∃ name site, o = Operator.unresolved name site := by
  have hfound {head : String} (h : o ∈ candidates ops head) : o ∈ ops.operators :=
    (List.mem_filter.mp (candidates_eq h ▸ h)).1
  have hbound {head : String} {n : Nat} {slotted : Bool} (h : BoundTo ops head n slotted o) :
      o ∈ ops.operators ∨ ∃ name site, o = Operator.unresolved name site := by
    cases h with
    | waiting site _ => exact .inr ⟨head, site, rfl⟩
    | slotted h => exact .inl (hfound (List.mem_of_find?_eq_some h))
    | chosen h => exact .inl (hfound (mem_of_chooseOverload h))
  cases h with
  | placed _ h => exact hbound h
  | named _ h _ => exact hbound h

/-- The units of a qualifier are in order and all of years and months or all of less. -/
structure ReadQualifier (q : Qualifier) : Prop where
  ordered : q.first.rank ≤ q.last.rank
  kind : q.isYearMonth = decide (q.last.rank ≤ TimeUnit.month.rank)
  firstPrecision : q.firstPrecision = 0
  fractionPrecision : q.fractionPrecision = 0

structure ReadInterval (v : IntervalValue) : Prop where
  qualifier : ReadQualifier v.qualifier
  ne_nil : v.fields ≠ []
  nonneg : ∀ n ∈ v.fields, 0 ≤ n
  fits : ∀ n ∈ v.fields, Number.fits 64 n
  length_le : v.fields.length ≤ v.qualifier.last.rank - v.qualifier.first.rank + 2

def ReadLiteral : Literal → Prop
  | .exact d => d.exponent ≤ 0 ∧ Number.fits Decimal.exponentBits d.exponent
  | .symbol s => ∃ name : String, IsName name.toList ∧ s = Text.upper name
  | .binary bytes => ∀ b ∈ bytes, b < 256
  | .interval v => ReadInterval v
  | _ => True

/-- A name is a word that is no constant, taken apart at its points. -/
def ReadIdentifier (i : Identifier) : Prop :=
  ∃ text : String, IsWord text.toList ∧ i.names = Text.split '.' text ∧ "" ∉ i.names ∧
    isNumber text = false ∧ text ∉ ["_", "null", "true", "false", "unknown"]

structure ReadTypeSpec (s : TypeSpec) : Prop where
  ne_nil : s.names ≠ []
  names : ∀ name ∈ s.names, IsWord name.toList ∧ isNumber name = false ∧
    Text.sameLetters name "CHARSET" = false
  precision : s.precision = ScalarName.noPrecision → s.scale = ScalarName.noPrecision
  precision_fits : Number.fits 64 s.precision
  scale_fits : Number.fits 64 s.scale

/-- The forms that are read. -/
def ReadForm (ops : Registry) : Form → Prop
  | .call c => ReadCall ops c.operator c.operands
  | .identifier i => ReadIdentifier i
  | .literal l => ReadLiteral l
  | .list _ => True
  | .typeSpec s => ReadTypeSpec s
  | .parameter _ => True
  | .qualifier q => ReadQualifier q

/-! ### Steps of the reader -/

/-- The collation that a form has on it. -/
def collationOf : Form → Option Collation
  | .literal (.char v) => v.collation
  | .identifier i => i.collation
  | _ => none

/-- A named operand is put over one that stands in its place. -/
def Operands.Displaced (operands : Operands) (o : Operator) : Prop :=
  ∃ operand ∈ operands.named, ∃ k x, o.slot? operand.name = some k ∧
    operands.placed[k]? = some (some x)

/-- No node of a tree that is read from the tokens is left out: none is replaced by one with a
collation on it, and none by a named operand of a call. -/
structure Plain (ops : Registry) (toks : List Token) (t : Tree) : Prop where
  uncollated : ∀ {i f}, t.form? (some i) = some f → collationOf f = none
  undisplaced : ∀ {i c p start head s depth fuel operands stop s'}, t.call? (some i) = some c →
    t.span? (some i) = some p → start.span.first = p.first → start :: head :: s.rest <:+ toks →
    readOperands (readExpr ops depth) fuel {} s = .ok ((operands, stop), s') →
    ¬ operands.Displaced c.operator

theorem Plain.mono (h : Plain ops toks u) (htoks : toks' <:+ toks) (hu : t.Extends u) :
    Plain ops toks' t where
  uncollated hf := h.uncollated (hu.form? hf)
  undisplaced hc hp hstart hrest := h.undisplaced ((hu.call?_eq (.of_span? hp)).trans hc)
    ((hu.span?_eq (.of_span? hp)).trans hp) hstart (hrest.trans htoks)

/-- The tokens still to be read lie one after the other, and none ends before what has been seen. -/
structure ReadState.InLine (s : ReadState) : Prop where
  sorted : s.rest.Pairwise fun tok tok' => tok.span.last ≤ tok'.span.first
  tokens : ∀ tok ∈ s.rest, (tok.kind ≠ .eof ∧ tok.span.first < tok.span.last) ∧
    s.seen ≤ tok.span.last
  ending : ∀ stop, s.ending = .endOfText stop → s.seen ≤ stop ∧ ∀ tok ∈ s.rest, tok.span.last ≤ stop

/-- A tree as it is read, and the tokens still to be read. -/
structure ReadState.Good (ops : Registry) (s : ReadState) : Prop where
  ordered : s.tree.Ordered
  forms : ∀ i f, s.tree.form? (some i) = some f → ReadForm ops f
  tokens : ∀ tok ∈ s.rest, tok.Valid
  /-- Parameters are numbered in the order in which they are read. -/
  numbers : ∀ i k, s.tree.form? (some i) = some (.parameter k) →
    k < s.parameters ∧ ∀ j, s.tree.form? (some j) = some (.parameter k) → j = i
  line : s.InLine
  nests : s.tree.Nests
  ends : ∀ i p, s.tree.span? (some i) = some p → ∀ tok ∈ s.rest, p.last ≤ tok.span.last

def ReadState.Passed (s : ReadState) : Prop :=
  ∀ i p, s.tree.span? (some i) = some p → p.last ≤ s.seen

/-- What has been seen ends after all nodes and before all tokens. -/
structure ReadState.Clear (s : ReadState) : Prop where
  passed : s.Passed
  ahead : ∀ tok ∈ s.rest, s.seen ≤ tok.span.first

/-- The second state of the reader comes after the first. -/
structure ReadState.Continues (s s' : ReadState) : Prop where
  tree : s.tree.Extends s'.tree
  seen : s.seen ≤ s'.seen
  ending : s'.ending = s.ending
  rest : s'.rest <:+ s.rest

theorem ReadState.Continues.refl (s : ReadState) : s.Continues s :=
  ⟨.refl _, Nat.le_refl _, rfl, List.suffix_refl _⟩

/-- Whenever the step succeeds, `Q` holds of what it gives. -/
def Reads {α : Type} (ops : Registry) (s : ReadState) (m : ReadM α)
    (Q : α → ReadState → Prop) : Prop :=
  ∀ a s', m s = .ok (a, s') → s'.Good ops ∧ s.Continues s' ∧ Q a s'

namespace Reads

variable {s : ReadState}

theorem pure (hs : s.Good ops) (h : Q a s) : Reads ops s (pure a) Q := by
  rintro a s' ⟨⟩
  exact ⟨hs, .refl _, h⟩

theorem bind (hm : Reads ops s m Q)
    (hf : ∀ a s', s'.Good ops → s.Continues s' → Q a s' → Reads ops s' (f a) R) :
    Reads ops s (m >>= f) R := by
  intro b s'' h
  have hbind : (m >>= f) s = m s >>= fun p => f p.1 p.2 := rfl
  rw [hbind] at h
  cases hx : m s with
  | error e => rw [hx] at h; cases h
  | ok p =>
    rw [hx] at h
    obtain ⟨hgood, hext, hq⟩ := hm p.1 p.2 hx
    obtain ⟨hgood', hext', hr⟩ := hf p.1 p.2 hgood hext hq b s'' h
    exact ⟨hgood', ⟨hext.tree.trans hext'.tree, hext.seen.trans hext'.seen,
      hext'.ending.trans hext.ending, hext'.rest.trans hext.rest⟩, hr⟩

theorem weaken (hm : Reads ops s m Q) (h : ∀ a s', Q a s' → Q' a s') : Reads ops s m Q' := by
  intro a s' hrun
  obtain ⟨hgood, hext, hq⟩ := hm a s' hrun
  exact ⟨hgood, hext, h a s' hq⟩

theorem run (hm : Reads ops s m Q) : Reads ops s m fun a s' => m s = .ok (a, s') ∧ Q a s' := by
  intro a s' hrun
  obtain ⟨hgood, hext, hq⟩ := hm a s' hrun
  exact ⟨hgood, hext, hrun, hq⟩

theorem failAt (tok : Token) (cause : Cause) : Reads ops s (failAt tok cause : ReadM α) Q := nofun

theorem throw (e : Error) : Reads ops s (throw e : ReadM α) Q := nofun

theorem get {f : ReadState → ReadM β} (hf : Reads ops s (f s) R) :
    Reads ops s (MonadState.get >>= f) R := hf

theorem ite [Decidable c] (h : c → Reads ops s m Q) (h' : ¬ c → Reads ops s m' Q) :
    Reads ops s (if c then m else m') Q := by
  split
  · exact h ‹_›
  · exact h' ‹_›

end Reads

variable {s : ReadState}

theorem run_peek_cons (h : s.rest = tok :: toks) :
    peek s = .ok (tok, { s with seen := tok.span.last }) := by
  obtain ⟨rest, ending, seen, parameters, tree⟩ := s
  cases h
  rfl

theorem run_peek_end (h : s.rest = []) (he : s.ending = .endOfText pos) :
    peek s = .ok ({ kind := .eof, text := "", span := ⟨pos, pos⟩ }, { s with seen := pos }) := by
  obtain ⟨rest, ending, seen, parameters, tree⟩ := s
  cases h
  cases he
  rfl

theorem run_peek_bad (h : s.rest = []) (he : s.ending = .bad cause span) :
    peek s = .error { cause := .bad cause, span := some span } := by
  obtain ⟨rest, ending, seen, parameters, tree⟩ := s
  cases h
  cases he
  rfl

/-- The next token: the first of the rest, or the end. -/
def ReadState.Next (s : ReadState) (tok : Token) : Prop :=
  (∃ toks, s.rest = tok :: toks) ∨ s.rest = [] ∧ tok.kind = .eof ∧ ∃ pos, tok.span = ⟨pos, pos⟩ ∧
    s.ending = .endOfText pos

theorem peek_cases (h : peek s = .ok (tok, s')) :
    s' = { s with seen := tok.span.last } ∧ s.Next tok := by
  rcases s with ⟨_ | ⟨t, ts⟩, _ | _, seen, parameters, tree⟩
  · rw [run_peek_end rfl rfl] at h
    cases h
    exact ⟨rfl, .inr ⟨rfl, rfl, _, rfl, rfl⟩⟩
  · rw [run_peek_bad rfl rfl] at h
    cases h
  all_goals
    rw [run_peek_cons rfl] at h
    cases h
    exact ⟨rfl, .inl ⟨ts, rfl⟩⟩

theorem ReadState.InLine.next (hs : s.InLine) (h : s.Next tok) :
    (s.seen ≤ tok.span.last ∧ ∀ stop, s.ending = .endOfText stop → tok.span.last ≤ stop) ∧
      (∀ t ∈ s.rest, tok.span.last ≤ t.span.last) ∧ ∀ t ∈ s.rest.tail,
      tok.span.last ≤ t.span.first := by
  obtain ⟨toks, htok⟩ | ⟨hnil, _, pos, hspan, hending⟩ := h
  · have hmem : tok ∈ s.rest := htok ▸ List.mem_cons_self
    have hahead := (List.pairwise_cons.mp (htok ▸ hs.sorted)).1
    have hlater {t : Token} (ht : t ∈ toks) := (hs.tokens t (htok ▸ List.mem_cons_of_mem _ ht)).1.2
    refine ⟨⟨(hs.tokens tok hmem).2, fun stop h => (hs.ending stop h).2 tok hmem⟩, ?_⟩
    rw [htok]
    exact ⟨List.forall_mem_cons.mpr ⟨Nat.le_refl _, fun t ht => (hahead t ht).trans (hlater ht).le⟩,
      hahead⟩
  · rw [hnil, hspan]
    refine ⟨⟨(hs.ending _ hending).1, fun stop h => ?_⟩, nofun, nofun⟩
    cases hending.symm.trans h
    exact Nat.le_refl _

theorem ReadState.Next.valid (h : s.Next tok) (hs : s.Good ops) : tok.Valid := by
  obtain ⟨toks, htok⟩ | ⟨_, heof, _⟩ := h
  · exact hs.tokens tok (htok ▸ List.mem_cons_self)
  · rw [Token.Valid, heof]
    trivial

theorem peek_reads (hs : s.Good ops) : Reads ops s peek fun tok s' => tok.Valid ∧
      s' = { s with seen := tok.span.last } ∧ s.Next tok := by
  intro tok s' h
  obtain ⟨rfl, hnext⟩ := peek_cases h
  obtain ⟨⟨hseen, hending⟩, hrest, _⟩ := hs.line.next hnext
  have hline : ({ s with seen := tok.span.last } : ReadState).InLine := ⟨hs.line.sorted,
    fun t ht => ⟨(hs.line.tokens t ht).1, hrest t ht⟩, fun stop h =>
    ⟨hending stop h, (hs.line.ending stop h).2⟩⟩
  exact ⟨{ hs with line := hline }, ⟨.refl _, hseen, rfl, List.suffix_refl _⟩,
    hnext.valid hs, rfl, hnext⟩

/-- The token was the last to be read. -/
structure Token.Read (tok : Token) (s : ReadState) : Prop where
  valid : tok.Valid
  seen : s.seen = tok.span.last
  ahead : ∀ t ∈ s.rest, tok.span.last ≤ t.span.first
  passed : tok.kind ≠ .eof → tok.span.first < tok.span.last ∧ s.Passed
  ending : tok.kind = .eof → ∃ stop, s.ending = .endOfText stop

/-- The token is read between two states, and starts after what had been seen if that was before all
tokens. -/
structure Token.Taken (tok : Token) (s s' : ReadState) : Prop extends tok.Read s' where
  tree : s'.tree = s.tree
  rest : tok.kind ≠ .eof → s.rest = tok :: s'.rest
  after : s.Clear → s.seen ≤ tok.span.first

theorem next_reads (hs : s.Good ops) : Reads ops s next fun tok s' => tok.Taken s s' := by
  refine .bind (peek_reads hs) fun tok s' hs' _ ⟨htok, heq, hnext⟩ => ?_
  subst heq
  rintro _ s'' ⟨⟩
  have htail {t : Token} (h : t ∈ s.rest.tail) : t ∈ s.rest := List.mem_of_mem_tail h
  have hrest (hne : tok.kind ≠ .eof) : s.rest = tok :: s.rest.tail :=
    hnext.elim (fun ⟨_, h⟩ => h ▸ rfl) fun h => absurd h.2.1 hne
  have hmem (hne : tok.kind ≠ .eof) : tok ∈ s.rest := hrest hne ▸ List.mem_cons_self
  refine ⟨{ hs' with
      tokens := fun t ht => hs.tokens t (htail ht)
      line := ⟨hs.line.sorted.tail, fun t ht => hs'.line.tokens t (htail ht),
        fun stop h => (hs'.line.ending stop h).imp_right fun h t ht => h t (htail ht)⟩
      ends := fun i p hp t ht => hs.ends i p hp t (htail ht) },
    ⟨.refl _, Nat.le_refl _, rfl, List.tail_suffix _⟩,
    ⟨⟨htok, rfl, (hs.line.next hnext).2.2, fun hne => ?_, fun heof => ?_⟩,
      rfl, hrest, fun hclear => ?_⟩⟩
  · exact ⟨(hs.line.tokens tok (hmem hne)).1.2, fun i p hp => hs.ends i p hp tok (hmem hne)⟩
  · exact hnext.elim (fun ⟨_, h⟩ => absurd heof (hs.line.tokens tok (h ▸ List.mem_cons_self)).1.1)
      fun ⟨_, _, pos, _, h⟩ => ⟨pos, h⟩
  · obtain ⟨toks, h⟩ | ⟨_, _, pos, hspan, hending⟩ := hnext
    · exact hclear.ahead tok (h ▸ List.mem_cons_self)
    · rw [hspan]
      exact (hs.line.ending pos hending).1

theorem Token.Read.clear (h : tok.Read s) (hne : tok.kind ≠ .eof) : s.Clear :=
  ⟨(h.passed hne).2, fun t ht => h.seen ▸ h.ahead t ht⟩

theorem ReadState.Good.ends_seen (hs : s.Good ops) (hk : k < s.seen) :
    k < s.seen ∧ ∀ t ∈ s.rest, s.seen ≤ t.span.last := ⟨hk, fun t ht => (hs.line.tokens t ht).2⟩

/-- It may end with the last token, or one place after it. -/
theorem Token.Read.ends (h : tok.Read s) (hs : s.Good ops) (hk : k < s.seen) (hd : d ≤ 1) :
    k < tok.span.last + d ∧ ∀ t ∈ s.rest, tok.span.last + d ≤ t.span.last := by
  refine ⟨by have := h.seen; omega, fun t ht => ?_⟩
  have := h.ahead t ht
  have := (hs.line.tokens t ht).1.2
  omega

/-- A parameter has a number that no other has. -/
def ReadState.Numbers (s : ReadState) (form : Form) : Prop :=
  ∀ k, form = .parameter k → k < s.parameters ∧ ∀ i, s.tree.form? (some i) ≠ some (.parameter k)

/-- The node `y` starts at the place `k` or later, and unless a node is left out, what was added to
`t` is under it. -/
structure Part (ops : Registry) (toks : List Token) (k : Nat) (t : Tree)
    (y : Link) (s : ReadState) : Prop where
  has : s.tree.Has y
  first : ∀ p, s.tree.span? y = some p → k ≤ p.first
  whole : Plain ops toks s.tree → ∀ i, t.size ≤ i → i < s.tree.size → s.tree.Spans y i

theorem Part.congr (h : Part ops toks k t y s) (hs : s'.tree = s.tree) : Part ops toks k t y s' :=
  ⟨hs ▸ h.has, hs ▸ h.first, hs ▸ h.whole⟩

theorem addNode_reads (hs : s.Good ops) (hform : ReadForm ops form) {span : Span}
    (hrow : s.tree.Row span.first form.parts)
    (hlast : ∀ y ∈ form.parts, ∀ q, s.tree.span? y = some q → q.last < span.last)
    (hspan : span.first < span.last ∧ ∀ tok ∈ s.rest, span.last ≤ tok.span.last)
    (hnumber : s.Numbers form)
    (hwhole : Plain ops toks (s.tree.add { form, span := some span }).2 →
    ∀ i, t.size ≤ i → i < s.tree.size →
      ∃ y ∈ form.parts, s.tree.Spans y i) :
    Reads ops s (some <$> addNode form span) fun y s' =>
      Part ops toks span.first t y s' ∧ (s.Clear → span.last ≤ s.seen → s'.Clear) := by
  rintro id s' ⟨⟩
  have hext := Tree.Extends.add s.tree { form, span := some span }
  have hnew : (s.tree.add { form, span := some span }).2.form? (some s.tree.size) = some form :=
    s.tree.form?_add _
  have hspans {i : NodeId} {p : Span}
      (hp : (s.tree.add { form, span := some span }).2.span? (some i) = some p) :
      s.tree.span? (some i) = some p ∨ i = s.tree.size ∧ p = span := by
    obtain ⟨n, hn, hp⟩ := Option.bind_eq_some_iff.mp hp
    refine (Tree.node?_add_cases hn).imp (fun hn => by rw [Tree.span?, hn]; exact hp)
      fun ⟨hi, hn⟩ => ⟨hi, ?_⟩
    subst hn
    exact (Option.some.inj hp).symm
  refine ⟨⟨Tree.ordered_add hs.ordered hrow.has, fun i f hf => ?_, hs.tokens, fun i k hi => ?_,
    ⟨hs.line.sorted, hs.line.tokens, hs.line.ending⟩, hs.nests.add hs.ordered rfl hspan.1
    hrow hlast, fun i p hp => ?_⟩, ⟨hext, Nat.le_refl _, rfl, List.suffix_refl _⟩, ⟨.of_form? hnew,
    fun p hp => ?_, fun hplain i hi hlt => ?_⟩, fun hclear hle => ⟨fun i p hp => ?_, hclear.ahead⟩⟩
  · obtain hf | ⟨_, rfl⟩ := Tree.form?_add_cases hf
    · exact hs.forms i f hf
    · exact hform
  · obtain hold | ⟨rfl, rfl⟩ := Tree.form?_add_cases hi
    · refine ⟨(hs.numbers i k hold).1, fun j hj => ?_⟩
      obtain hj | ⟨_, rfl⟩ := Tree.form?_add_cases hj
      · exact (hs.numbers i k hold).2 j hj
      · exact absurd hold ((hnumber k rfl).2 i)
    · refine ⟨(hnumber k rfl).1, fun j hj => ?_⟩
      obtain hj | ⟨rfl, _⟩ := Tree.form?_add_cases hj
      · exact absurd hj ((hnumber k rfl).2 j)
      · rfl
  · obtain hp | ⟨_, rfl⟩ := hspans hp
    · exact hs.ends i p hp
    · exact hspan.2
  · obtain hp | ⟨_, rfl⟩ := hspans hp
    · exact absurd (Tree.Has.of_span? hp _ rfl) (Nat.lt_irrefl _)
    · exact Nat.le_refl _
  · rcases Nat.lt_succ_iff_lt_or_eq.mp
      ((Array.size_push _).subst hlt : i < s.tree.size + 1) with hlt | rfl
    · obtain ⟨y, hy, hyi⟩ := hwhole hplain i hi hlt
      exact .head ⟨form, hnew, hy⟩ ((hext.spans_iff hs.ordered (hrow.has y hy)).mpr hyi)
    · exact .refl
  · obtain hp | ⟨_, rfl⟩ := hspans hp
    · exact hclear.passed i p hp
    · exact hle

section Leaf

variable (hs : s.Good ops) (hform : ReadForm ops f) (hleaf : f.parts = []) (hnumber : s.Numbers f)
include hs hform hleaf hnumber

theorem leafNode_reads {span : Span}
    (hspan : span.first < span.last ∧ ∀ tok ∈ s.rest, span.last ≤ tok.span.last)
    (ht : s.tree = t) : Reads ops s (some <$> addNode f span) fun y s' =>
      Part ops toks span.first t y s' ∧ (s.Clear → span.last ≤ s.seen → s'.Clear) := by
  refine addNode_reads hs hform (hleaf ▸ ⟨nofun, nofun, .nil⟩) (hleaf ▸ nofun)
    hspan hnumber fun _ i hi hlt => ?_
  rw [ht] at hlt
  exact absurd hlt (Nat.not_lt.mpr hi)

theorem leaf_reads {span : Span}
    (hspan : span.first < span.last ∧ ∀ tok ∈ s.rest, span.last ≤ tok.span.last) (ht : s.tree = t) :
    Reads ops s (some <$> addNode f span) (Part ops toks span.first t) :=
  (leafNode_reads hs hform hleaf hnumber hspan ht).weaken fun _ _ h => h.1

/-- A node that is read from the token on, up to what has been seen. -/
structure Whole (ops : Registry) (tok : Token) (s : ReadState) (y : Link) (s' : ReadState) :
    Prop where
  kind : tok.kind ≠ .eof
  part : Part ops (tok :: s.rest) tok.span.first s.tree y s'
  clear : s'.Clear

theorem token_reads (htok : tok.Read s) (hne : tok.kind ≠ .eof) :
    Reads ops s (some <$> addNode f tok.span) (Whole ops tok s) :=
  (leafNode_reads hs hform hleaf hnumber ⟨(htok.passed hne).1,
    fun t ht => (htok.ahead t ht).trans (hs.line.tokens t ht).1.2.le⟩ rfl).weaken fun _ _ h =>
    ⟨hne, h.1, h.2 (htok.clear hne) htok.seen.ge⟩

end Leaf

theorem parse?_exponent (h : Decimal.parse? cs = some d)
    (hmark : ∀ c ∈ cs, Decimal.isExponentMark c = false) :
    d.exponent ≤ 0 ∧ Number.fits Decimal.exponentBits d.exponent := by
  have hdrop : cs.dropWhile (!Decimal.isExponentMark ·) = [] :=
    List.dropWhile_eq_nil_iff.mpr fun c hc => by simp [hmark c hc]
  unfold Decimal.parse? at h
  rw [hdrop] at h
  simp only [Option.bind_eq_bind, Option.bind_some] at h
  split at h
  · cases h
  · obtain ⟨n, _, h⟩ := Option.bind_eq_some_iff.mp h
    split at h
    · rename_i hfits
      cases h
      refine ⟨?_, hfits⟩
      dsimp only
      omega
    · cases h

theorem readNumber_reads (hs : s.Good ops) :
    Reads ops s (readNumber tok) fun l s' => ReadLiteral l ∧ s' = s := by
  unfold readNumber
  split
  · exact .failAt _ _
  · rename_i d hd
    refine .pure hs ⟨?_, rfl⟩
    split
    · trivial
    · rename_i hmark
      refine parse?_exponent hd fun c hc => ?_
      simp only [List.any_eq_true, not_exists, not_and] at hmark
      simpa using hmark c hc

theorem readWord_reads (hs : s.Good ops) (htok : tok.Read s) (hk : tok.kind = .word) :
    Reads ops s (readWord tok) (Whole ops tok s) := by
  have hword : IsWord tok.text.toList := by simpa only [Token.Valid, hk] using htok.valid
  have hne : tok.kind ≠ .eof := by rw [hk]; decide
  unfold readWord
  dsimp only
  split
  · exact .pure hs ⟨hne,
      ⟨.absent, by rintro _ ⟨⟩, fun _ i hi hlt => absurd hlt (Nat.not_lt.mpr hi)⟩, htok.clear hne⟩
  iterate 4 exact token_reads hs trivial rfl (by rintro _ ⟨⟩) htok hne
  · rename_i h₁ h₂ h₃ h₄ h₅
    refine .ite (fun _ => ?_) fun hnumber => .ite (fun _ => .failAt _ _) fun hnames => ?_
    · refine .bind (readNumber_reads hs) fun l s' hs' _ h => ?_
      obtain ⟨hl, rfl⟩ := h
      exact token_reads (f := .literal l) hs' hl rfl (by rintro _ ⟨⟩) htok hne
    · refine token_reads (f := .identifier _) hs ⟨tok.text, hword, rfl,
        ?_, ?_, ?_⟩ rfl (by rintro _ ⟨⟩) htok hne
      · simpa using hnames
      · simpa using hnumber
      · simp only [List.mem_cons, List.not_mem_nil, or_false, not_or]
        exact ⟨h₁, h₂, h₃, h₄, h₅⟩

theorem bindOperator_reads (hs : s.Good ops) (head : Token) :
    Reads ops s (bindOperator ops head n slotted) fun o s' =>
      BoundTo ops head.text n slotted o ∧ s' = s := by
  unfold bindOperator
  split
  rename_i name found heq
  obtain rfl : candidates ops head.text = found := by
    cases hover : ops.overloads head.text <;> rw [hover] at heq <;> cases heq <;>
      rw [candidates, hover]
  refine .ite (fun hempty => .ite (fun _ => .failAt _ _) fun hslotted =>
    .pure hs ⟨?_, rfl⟩) fun _ =>
    .ite (fun hslotted => ?_) fun hslotted => ?_
  · have hslotted : slotted = false := by simpa using hslotted
    exact hslotted ▸ .waiting _ (by simpa using hempty)
  · split
    · rename_i o ho
      exact .pure hs ⟨hslotted ▸ .slotted ho, rfl⟩
    · exact .failAt _ _
  · have hslotted : slotted = false := by simpa using hslotted
    dsimp only
    split
    · rename_i o ho
      exact .pure hs ⟨hslotted ▸ .chosen ho, rfl⟩
    · exact .failAt _ _

theorem slot?_eq_some {o : Operator} (h : o.slot? name = some k) : o.slots[k]? = some name := by
  obtain ⟨hk, hname, _⟩ := List.findIdx?_eq_some_iff_getElem.mp h
  rw [List.getElem?_eq_getElem hk, beq_iff_eq.mp hname]

theorem fillSlots_reads (hs : s.Good ops) {named : List NamedOperand} {out : List Link} :
    Reads ops s (fillSlots o named out) fun ys s' => s' = s ∧ ys.length = out.length ∧
      Among ys (out ++ named.map (·.value)) ∧ ((named.map (·.name)).Nodup →
      out.length = o.slots.length → (∀ operand ∈ named, ∀ k x, o.slot? operand.name = some k →
      out[k]? ≠ some (some x)) → ∀ x, some x ∈ out ++ named.map (·.value) → some x ∈ ys) := by
  induction named generalizing out with
  | nil =>
    refine .pure hs ⟨rfl, rfl, ?_⟩
    rw [List.map_nil, List.append_nil]
    exact ⟨fun _ => Nat.le_refl _, fun _ _ _ _ h => h⟩
  | cons operand named ih =>
    rw [fillSlots]
    split
    · exact .failAt _ _
    · rename_i k hk
      refine ih.weaken fun ys s' ⟨h, hlen, hamong, hkeeps⟩ => ⟨h, hlen.trans (List.length_set ..),
        fun i => (hamong i).trans (Among.set operand.value (named.map (·.value)) out k i),
        fun hnodup hslots hfree x hx => ?_⟩
      obtain ⟨hfirst, hnodup⟩ := List.nodup_cons.mp hnodup
      have hname := slot?_eq_some hk
      refine hkeeps hnodup ((List.length_set ..).trans hslots)
        (fun operand' hmem k' x' hk' => ?_) x ?_
      · have hne : k ≠ k' := by
          rintro rfl
          have hsame : operand.name = operand'.name :=
            Option.some.inj (hname.symm.trans (slot?_eq_some hk'))
          exact hfirst (List.mem_map.mpr ⟨operand', hmem, hsame.symm⟩)
        rw [List.getElem?_set_ne hne]
        exact hfree operand' (List.mem_cons_of_mem _ hmem) k' x' hk'
      · rw [List.map_cons, List.mem_append, List.mem_cons] at hx
        rw [List.mem_append]
        rcases hx with hx | hx | hx
        · obtain ⟨m, hm⟩ := List.getElem?_of_mem hx
          have hne : k ≠ m := fun h => hfree operand List.mem_cons_self k x hk (h ▸ hm)
          exact .inl (List.mem_of_getElem? ((List.getElem?_set_ne hne).trans hm))
        · rw [hx]
          exact .inl (List.mem_set (hslots ▸ (List.getElem?_eq_some_iff.mp hname).1) _)
        · exact .inr hx

def Operands.all (operands : Operands) : List Link :=
  operands.placed ++ operands.named.map (·.value)

theorem placeOperands_reads (hs : s.Good ops) {head : String}
    (hw : IsWord head.toList) (hnames : (operands.named.map (·.name)).Nodup)
    (ho : BoundTo ops head operands.placed.length (!operands.named.isEmpty) o) :
    Reads ops s (placeOperands o operands) fun ys s' => s' = s ∧ ReadCall ops o ys ∧ Among
      ys operands.all ∧ (¬ operands.Displaced o → ∀ x, some x ∈ operands.all → some x ∈ ys) := by
  have hpadded (n : Nat) : Among (operands.placed ++ List.replicate n none ++
      operands.named.map (·.value)) operands.all := by
    intro i
    grind [Operands.all]
  unfold placeOperands
  dsimp only
  refine .ite (fun hempty => .pure hs ⟨rfl, ?_, ?_, ?_⟩) fun hne =>
    .ite (fun _ => .throw _) fun hle => ?_
  · rw [hempty] at ho
    exact .placed hw ho
  · exact fun i => (List.Sublist.count_le _ (List.sublist_append_left _ _)).trans (hpadded _ i)
  · intro _ x hx
    rw [Operands.all, List.isEmpty_iff.mp hempty] at hx
    grind
  · have hnamed : operands.named.isEmpty = false := by simpa using hne
    rw [hnamed] at ho
    refine (fillSlots_reads hs).weaken fun ys s' ⟨h, hlen, hamong, hkeeps⟩ => ⟨h, .named hw ho ?_,
      fun i => (hamong i).trans (hpadded _ i), fun hfree x hx =>
      hkeeps hnames ?_ (fun operand hmem k x hk hx => hfree ?_) x ?_⟩
    · rw [hlen, List.length_append, List.length_replicate]
      omega
    · rw [List.length_append, List.length_replicate]
      omega
    · exact ⟨operand, hmem, k, x, hk, by grind⟩
    · grind [Operands.all]

variable {start : Token}

section Parts

/-- What the reader of parts gives is read from its token on. -/
def ReadsParts (ops : Registry) (depth : Nat) : Prop :=
  ∀ tok s, ReadState.Good ops s → tok.Read s →
    Reads ops s (readExpr ops depth tok) (Whole ops tok s)

/-- The nodes `xs` are read after the place `k`, and unless a node is left out, what was added to
`t` is under them. -/
structure Parts (ops : Registry) (toks : List Token) (k : Nat) (t : Tree)
    (xs : List Link) (s : ReadState) : Prop where
  row : s.tree.Row k xs
  whole : Plain ops toks s.tree → ∀ i, t.size ≤ i → i < s.tree.size → ∃ x ∈ xs, s.tree.Spans x i
  clear : s.Clear
  after : k < s.seen
  rest : s.rest <:+ toks

/-- The token is the last that was read and stands after all nodes. -/
structure Token.Closes (tok : Token) (kind : TokenKind) (s : ReadState) :
    Prop extends tok.Read s where
  kind_eq : tok.kind = kind
  after : ∀ i p, s.tree.span? (some i) = some p → p.last ≤ tok.span.first

theorem Parts.nil (hclear : s.Clear) (hk : k < s.seen) (hrest : s.rest <:+ toks) (ht : s.tree = t) :
    Parts ops toks k t [] s :=
  ⟨⟨nofun, nofun, .nil⟩, fun _ _ hi hlt => absurd hlt (Nat.not_lt.mpr (ht ▸ hi)), hclear, hk, hrest⟩

theorem Parts.perm (h : Parts ops toks k t xs s) (hys : xs.Perm ys) : Parts ops toks k t ys s :=
  { h with
    row := h.row.among (.of_perm hys.symm)
    whole := fun hplain i hi hlt => (h.whole hplain i hi hlt).imp fun _ hx =>
      hx.imp_left hys.mem_iff.mp }

section

variable (h : Parts ops toks k t xs s) (hc : s.Continues s₁) (htok : tok.Taken s s₁)
include h htok

theorem Parts.closes (hk : tok.kind = kind) : tok.Closes kind s₁ :=
  { htok.toRead with
    kind_eq := hk
    after := fun i p hp => (h.clear.passed i p (htok.tree ▸ hp)).trans (htok.after h.clear) }

include hc

theorem Parts.taken : Parts ops toks k t xs s₁ where
  row := htok.tree ▸ h.row
  whole := htok.tree ▸ h.whole
  clear := ⟨fun i p hp => (h.clear.passed i p (htok.tree ▸ hp)).trans hc.seen,
    fun t ht => htok.seen ▸ htok.ahead t ht⟩
  after := h.after.trans_le hc.seen
  rest := hc.rest.trans h.rest

variable (hread : ReadsParts ops depth) (hs₁ : s₁.Good ops)
include hread hs₁

theorem Parts.readExpr : Reads ops s₁ (readExpr ops depth tok) fun y s₂ =>
      Parts ops toks k t (xs ++ [y]) s₂ := by
  intro y s₂ hrun
  obtain ⟨hs₂, hc₂, hkind, hy, hclear⟩ := hread tok s₁ hs₁ htok.toRead y s₂ hrun
  have hafter := htok.after h.clear
  obtain ⟨hrow, hwhole, _, _, hrest⟩ := h.taken hc htok
  refine ⟨hs₂, hc₂, hrow.snoc hc₂.tree hy.has (h.after.trans_le hafter) (fun i p hp => ?_) hy.first,
    fun hplain i hi hlt => ?_, hclear, h.after.trans_le (hc.seen.trans hc₂.seen),
    hc₂.rest.trans hrest⟩
  · exact (h.clear.passed i p (htok.tree ▸ hp)).trans hafter
  · by_cases hold : i < s₁.tree.size
    · obtain ⟨x, hx, hxi⟩ := hwhole (hplain.mono (List.suffix_refl _) hc₂.tree) i hi hold
      exact ⟨x, List.mem_append_left _ hx, (hc₂.tree.spans_iff hs₁.ordered (hrow.has x hx)).mpr hxi⟩
    · have htoks : tok :: s₁.rest <:+ toks := htok.rest hkind ▸ h.rest
      exact ⟨y, List.mem_append_right _ List.mem_cons_self,
        hy.whole (hplain.mono htoks (.refl _)) i (Nat.not_lt.mp hold) hlt⟩

end

theorem closed_reads (hs : s.Good ops) (h : Parts ops toks k t xs s) (hstop : tok.Closes kind s)
    (hne : kind ≠ .eof) (hform : ReadForm ops f) (hamong : Among f.parts xs) (hnumber : s.Numbers f)
    (hkeeps : Plain ops toks (s.tree.add { form := f, span := some ⟨k, tok.span.last⟩ }).2 →
    ∀ x, some x ∈ xs → some x ∈ f.parts) :
    Reads ops s (some <$> addNode f ⟨k, tok.span.last⟩) fun y s' =>
      Part ops toks k t y s' ∧ s'.Clear := by
  have hlt := (hstop.passed (hstop.kind_eq ▸ hne)).1
  refine (addNode_reads hs hform (h.row.among hamong) (fun y hy q hq => ?_)
    (hstop.ends hs h.after (Nat.zero_le 1)) hnumber fun hplain i hi hlt => ?_).weaken fun y s' h' =>
    ⟨h'.1, h'.2 h.clear hstop.seen.ge⟩
  · cases y with
    | none => cases hq
    | some i => exact (hstop.after i q hq).trans_lt hlt
  · obtain ⟨x, hx, hxi⟩ := h.whole (hplain.mono (List.suffix_refl _) (.add _ _)) i hi hlt
    cases x with
    | none => exact absurd hxi Tree.not_spans_none
    | some x => exact ⟨some x, hkeeps hplain x hx, hxi⟩

variable (hread : ReadsParts ops depth) (hs : s.Good ops)
include hread hs

theorem readOperands_reads (h : Parts ops toks k t operands.all s)
    (hnames : (operands.named.map (·.name)).Nodup) :
    Reads ops s (readOperands (readExpr ops depth) fuel operands) fun r s' =>
      Parts ops toks k t r.1.all s' ∧ (r.1.named.map (·.name)).Nodup ∧ r.2.Closes .closing s' := by
  induction fuel generalizing operands s with
  | zero => exact .bind (peek_reads hs) fun tok _ _ _ _ => .failAt _ _
  | succ fuel ih =>
    rw [readOperands]
    refine .bind (next_reads hs) fun tok s₁ hs₁ hc₁ htok => ?_
    split
    · exact .pure hs₁ ⟨h.taken hc₁ htok, hnames, h.closes htok ‹_›⟩
    · refine .bind (next_reads hs₁) fun tok' s₂ hs₂ hc₂ htok' => ?_
      refine .bind ((h.taken hc₁ htok).readExpr hc₂ htok' hread hs₂) fun value s₃ hs₃ _ h => ?_
      dsimp only
      refine .ite (fun _ => .failAt _ _) fun hnew => ih hs₃ (h.perm (.of_eq ?_)) ?_
      · simp only [Operands.all, List.map_append, List.map_cons, List.map_nil, List.append_assoc]
      · rw [List.map_append, List.map_cons, List.map_nil, List.nodup_append_comm,
          List.singleton_append, List.nodup_cons]
        refine ⟨fun hmem => hnew ?_, hnames⟩
        obtain ⟨o, ho, hname⟩ := List.mem_map.mp hmem
        exact List.any_eq_true.mpr ⟨o, ho, beq_iff_eq.mpr hname⟩
    · refine .bind (h.readExpr hc₁ htok hread hs₁) fun value s₂ hs₂ _ h => ih hs₂ (h.perm ?_) hnames
      simp only [Operands.all, List.append_assoc]
      exact List.perm_append_comm.append_left _

theorem readItems_reads (h : Parts ops toks k t items s) :
    Reads ops s (readItems (readExpr ops depth) fuel items) fun r s' =>
    Parts ops toks k t r.1 s' ∧ r.2.Closes .closeList s' := by
  induction fuel generalizing items s with
  | zero => exact .bind (peek_reads hs) fun tok _ _ _ _ => .failAt _ _
  | succ fuel ih =>
    rw [readItems]
    refine .bind (next_reads hs) fun tok s₁ hs₁ hc₁ htok => ?_
    split
    · exact .pure hs₁ ⟨h.taken hc₁ htok, h.closes htok ‹_›⟩
    · exact .bind (h.readExpr hc₁ htok hread hs₁) fun item s₂ hs₂ _ h => ih hs₂ h

variable (hstart : start.Read s) (hne : start.kind ≠ .eof)
include hstart hne

theorem readCall_reads :
    Reads ops s (readCall ops (readExpr ops depth) start) (Whole ops start s) := by
  have hfirst : start.span.first < s.seen := hstart.seen ▸ (hstart.passed hne).1
  refine .bind (next_reads hs) fun head s₁ hs₁ hc₁ hhead =>
    .ite (fun _ => .failAt _ _) fun hkind => .get ?_
  have hkind : head.kind = .word := by simpa using hkind
  have hne₁ : head.kind ≠ .eof := by rw [hkind]; nofun
  have hword : IsWord head.text.toList := by simpa only [Token.Valid, hkind] using hhead.valid
  have hparts : Parts ops (start :: s.rest) start.span.first s.tree ({} : Operands).all s₁ :=
    .nil (hhead.clear hne₁) (hfirst.trans_le hc₁.seen)
      (hc₁.rest.trans (List.suffix_cons _ _)) hhead.tree
  refine .bind (readOperands_reads hread hs₁ hparts .nil).run fun r s₂ hs₂ _ ⟨hrun,
    hparts, hnames, hstop⟩ => ?_
  refine .bind (bindOperator_reads hs₂ _) fun o s₃ hs₃ _ ⟨ho, hs₂₃⟩ => ?_
  subst hs₂₃
  refine .bind (placeOperands_reads hs₃ hword hnames ho) fun placed s₄ hs₄ _ ⟨hs₃₄,
    hcall, hamong, hkeeps⟩ => ?_
  subst hs₃₄
  refine (closed_reads (f := .call { operator := o, operands := placed }) hs₄ hparts
    hstop nofun hcall hamong nofun fun hplain => hkeeps ?_).weaken fun _ _ h => ⟨hne, h.1, h.2⟩
  have htoks : start :: head :: s₁.rest <:+ start :: s.rest := hhead.rest hne₁ ▸ List.suffix_refl _
  exact hplain.undisplaced (i := s₄.tree.size) (c := { operator := o, operands := placed })
    (Tree.call?_of_form? (s₄.tree.form?_add _)) (s₄.tree.span?_add _) rfl htoks hrun

theorem readList_reads : Reads ops s (readList (readExpr ops depth) start) (Whole ops start s) := by
  have hfirst : start.span.first < s.seen := hstart.seen ▸ (hstart.passed hne).1
  have hparts : Parts ops (start :: s.rest) start.span.first s.tree [] s :=
    .nil (hstart.clear hne) hfirst (List.suffix_cons _ _) rfl
  refine .get (.bind (readItems_reads hread hs hparts) fun r s₁ hs₁ _ ⟨hitems, hstop⟩ => ?_)
  exact (closed_reads (f := .list r.1) hs₁ hitems hstop nofun trivial (fun _ => Nat.le_refl _)
    nofun fun _ x hx => hx).weaken fun _ _ h => ⟨hne, h.1, h.2⟩

end Parts

/-! ### Forms in braces -/

theorem readString_reads (hs : s.Good ops) : Reads ops s readString fun tok s' => tok.Taken s s' :=
  .bind (next_reads hs) fun _ _ hs₁ _ h => .ite (fun _ => .failAt _ _) fun _ => .pure hs₁ h

theorem readDatetime_reads (hs : s.Good ops) (hstart : start.span.first < s.seen) :
    Reads ops s (readDatetime start kind) (Part ops toks start.span.first s.tree) := by
  refine .bind (readString_reads hs) fun tok s₁ hs₁ hc htok => ?_
  dsimp only
  split
  · exact .failAt _ _
  · rename_i l hl
    refine leaf_reads (f := .literal l) hs₁ ?_
      rfl nofun (htok.ends hs₁ (hstart.trans_le hc.seen) (Nat.le_refl 1)) htok.tree
    have hmoment : (∃ m p, l = .time m p) ∨ (∃ m p, l = .timestamp m p) ∨ ∃ m, l = .date m := by
      split at hl
      · obtain ⟨m, _, rfl⟩ := Option.map_eq_some_iff.mp hl
        exact .inl ⟨m, _, rfl⟩
      · split at hl
        · obtain ⟨m, _, rfl⟩ := Option.map_eq_some_iff.mp hl
          exact .inr (.inl ⟨m, _, rfl⟩)
        · obtain ⟨m, _, rfl⟩ := Option.map_eq_some_iff.mp hl
          exact .inr (.inr ⟨m, rfl⟩)
    rcases hmoment with ⟨m, p, rfl⟩ | ⟨m, p, rfl⟩ | ⟨m, rfl⟩ <;> trivial

theorem hexValue?_lt (h : hexValue? c = some n) : n < 16 := by
  have hle {d : Char} {k : Nat} (hd : d.toNat = k) (h : c ≤ d) : c.toNat ≤ k :=
    hd ▸ UInt32.le_iff_toNat_le.mp h
  unfold hexValue? at h
  split at h
  · cases h
    have := hle (k := 57) rfl ‹_ ∧ _›.2
    omega
  split at h
  · cases h
    have := hle (k := 102) rfl ‹_ ∧ _›.2
    omega
  split at h
  · cases h
    have := hle (k := 70) rfl ‹_ ∧ _›.2
    omega
  · cases h

theorem readBytes?_lt (h : readBytes? cs = some bytes) : ∀ b ∈ bytes, b < 256 := by
  fun_induction readBytes? cs generalizing bytes with
  | case1 =>
    cases h
    exact nofun
  | case2 a b cs ih =>
    simp only [Option.bind_eq_bind, Option.bind_eq_some_iff, Option.pure_def,
      Option.some.injEq] at h
    obtain ⟨high, hhigh, low, hlow, rest, hrest, rfl⟩ := h
    have := hexValue?_lt hhigh
    have := hexValue?_lt hlow
    exact List.forall_mem_cons.mpr ⟨by omega, ih hrest⟩
  | case3 => cases h

theorem readBinary_reads (hs : s.Good ops) (hstart : start.span.first < s.seen) :
    Reads ops s (readBinary start) (Part ops toks start.span.first s.tree) := by
  refine .bind (readString_reads hs) fun tok s₁ hs₁ hc htok => ?_
  split
  · exact .failAt _ _
  · rename_i bytes hbytes
    exact leaf_reads (f := .literal (.binary bytes)) hs₁ (readBytes?_lt hbytes) rfl nofun
      (htok.ends hs₁ (hstart.trans_le hc.seen) (Nat.le_refl 1)) htok.tree

theorem readUnit_reads (hs : s.Good ops) : Reads ops s readUnit fun _ s' => s'.tree = s.tree := by
  refine .bind (next_reads hs) fun tok s₁ hs₁ _ htok => ?_
  split
  · exact .pure hs₁ htok.tree
  · exact .failAt _ _

theorem readQualifier_reads (hs : s.Good ops) :
    Reads ops s readQualifier fun q s' => ReadQualifier q ∧ s'.tree = s.tree := by
  refine .bind (readUnit_reads hs) fun first s₁ hs₁ _ h₁ => ?_
  refine .bind (peek_reads hs₁) fun tok s₂ hs₂ _ ⟨_, h₂, _⟩ => ?_
  subst h₂
  refine .ite (fun _ => ?_) fun _ => ?_
  · refine .bind (next_reads hs₂) fun _ s₃ hs₃ _ h₃ =>
      .bind (readUnit_reads hs₃) fun last s₄ hs₄ _ h₄ => ?_
    dsimp only
    refine .ite (fun _ => .failAt _ _) fun h => .pure hs₄ ⟨?_, h₄.trans (h₃.tree.trans h₁)⟩
    rw [not_or, Nat.not_lt, not_not] at h
    exact ⟨h.1, h.2, rfl, rfl⟩
  · exact .pure hs₂ ⟨⟨Nat.le_refl _, rfl, rfl, rfl⟩, h₁⟩

theorem readInterval_of_intervalValue? (hq : ReadQualifier q) (h : intervalValue? q text = some v) :
    ReadInterval v := by
  have hbody {negative : Bool} {fields : List Int} (hnonneg : ∀ n ∈ fields, 0 ≤ n)
      (h : (do
        if fields.isEmpty || fields.any (!Number.fits 64 ·) || fields.length >
          q.last.rank - q.first.rank + 2 then none
        return { negative, fields, qualifier := q } : Option IntervalValue) = some v) : ReadInterval
          v := by
    split at h
    · cases h
    · rename_i hcond
      cases h
      simp only [Bool.or_eq_true, decide_eq_true_eq, not_or, List.any_eq_true,
        not_exists, not_and] at hcond
      obtain ⟨⟨hne, hfits⟩, hlen⟩ := hcond
      refine ⟨hq, ?_, hnonneg, fun n hn => ?_, Nat.le_of_not_lt hlen⟩
      · simpa [List.isEmpty_iff] using hne
      · simpa using hfits n hn
  have hdigits (cs : List Char) :
      ∀ n ∈ (Text.runsOf Number.isDigit cs).map fun ds => (Number.ofDigits ds : Int), 0 ≤ n := by
    intro n hn
    obtain ⟨ds, _, rfl⟩ := List.mem_map.mp hn
    exact Int.natCast_nonneg _
  unfold intervalValue? at h
  dsimp only at h
  split at h
  · exact hbody (hdigits _) h
  · exact hbody (hdigits _) h

theorem readInterval_reads (hs : s.Good ops) (hstart : start.span.first < s.seen) :
    Reads ops s (readInterval start) (Part ops toks start.span.first s.tree) := by
  refine .bind (readString_reads hs) fun tok s₁ hs₁ hc₁ htok =>
    .bind (readQualifier_reads hs₁) fun q s₂ hs₂ hc₂ ⟨hq, htree⟩ => ?_
  split
  · exact .failAt _ _
  · rename_i v hv
    exact .get (leaf_reads (f := .literal (.interval v)) hs₂ (readInterval_of_intervalValue? hq hv)
      rfl nofun (hs₂.ends_seen (hstart.trans_le (hc₁.seen.trans hc₂.seen))) (htree.trans htok.tree))

/-- A type whose words have been read so far. -/
structure ReadTypeSoFar (spec : TypeSpec) : Prop where
  names : ∀ name ∈ spec.names, IsWord name.toList ∧ isNumber name = false ∧
    Text.sameLetters name "CHARSET" = false
  precision : spec.precision = ScalarName.noPrecision → spec.scale = ScalarName.noPrecision
  precision_fits : Number.fits 64 spec.precision
  scale_fits : Number.fits 64 spec.scale

theorem readTypeWords_reads (hs : s.Good ops) {spec : TypeSpec} (hspec : ReadTypeSoFar spec) :
    Reads ops s (readTypeWords fuel spec) fun spec' s' =>
      ReadTypeSoFar spec' ∧ s'.tree = s.tree := by
  induction fuel generalizing s spec with
  | zero => exact .pure hs ⟨hspec, rfl⟩
  | succ fuel ih =>
    rw [readTypeWords]
    refine .bind (peek_reads hs) fun tok s₁ hs₁ _ ⟨htok, heq, _⟩ => ?_
    subst heq
    refine .ite (fun _ => .pure hs₁ ⟨hspec, rfl⟩) fun hkind => ?_
    have hword : IsWord tok.text.toList := by
      have hkind : tok.kind = .word := by simpa using hkind
      simpa only [Token.Valid, hkind] using htok
    refine .bind (next_reads hs₁) fun _ s₂ hs₂ _ h₂ => ?_
    have hnext {spec : TypeSpec} (hspec : ReadTypeSoFar spec) :
        Reads ops s₂ (readTypeWords fuel spec) fun spec' s' => ReadTypeSoFar spec' ∧
        s'.tree = s.tree :=
      (ih hs₂ hspec).weaken fun _ _ h => ⟨h.1, h.2.trans h₂.tree⟩
    refine .ite (fun _ => ?_) fun hcharset => .ite (fun _ => ?_) fun hnumber => ?_
    · refine .bind (next_reads hs₂) fun charset s₃ hs₃ _ h₃ => (ih hs₃ ?_).weaken fun _ _ h =>
        ⟨h.1, h.2.trans (h₃.tree.trans h₂.tree)⟩
      exact ⟨hspec.names, hspec.precision, hspec.precision_fits, hspec.scale_fits⟩
    · split
      · exact .failAt _ _
      · rename_i n hn
        have hfits : Number.fits 64 n := (Option.filter_eq_some_iff.mp hn).2
        refine .ite (fun hnone => hnext ⟨hspec.names, fun _ => ?_, hfits, hspec.scale_fits⟩)
          fun hsome =>
          hnext ⟨hspec.names, fun hnone => absurd hnone hsome, hspec.precision_fits, hfits⟩
        exact hspec.precision hnone
    · refine hnext ⟨?_, hspec.precision, hspec.precision_fits, hspec.scale_fits⟩
      refine List.forall_mem_append.mpr ⟨hspec.names, List.forall_mem_singleton.mpr ⟨hword, ?_, ?_⟩⟩
      · simpa using hnumber
      · simpa using hcharset

theorem readTypeSpec_reads (hs : s.Good ops) (hstart : start.span.first < s.seen) :
    Reads ops s (readTypeSpec start) (Part ops toks start.span.first s.tree) := by
  refine .get (.bind (readTypeWords_reads hs ⟨nofun, fun _ => rfl, rfl, rfl⟩)
    fun spec s₁ hs₁ hc ⟨hspec, htree⟩ => ?_)
  refine .ite (fun _ => .failAt _ _) fun hne =>
    .get (leaf_reads (f := .typeSpec spec) hs₁ ?_
      rfl nofun (hs₁.ends_seen (hstart.trans_le hc.seen)) htree)
  have hne : spec.names ≠ [] := by simpa [List.isEmpty_iff] using hne
  exact ⟨hne, hspec.names, hspec.precision, hspec.precision_fits, hspec.scale_fits⟩

theorem readCharset_reads (hs : s.Good ops) (hstart : start.span.first < s.seen) :
    Reads ops s (readCharset start) (Part ops toks start.span.first s.tree) := by
  refine .bind (readString_reads hs) fun tok s₁ hs₁ hc₁ htok =>
    .bind (next_reads hs₁) fun name s₂ hs₂ hc₂ hname => ?_
  split
  · exact .failAt _ _
  · exact leaf_reads (f := .literal (.char _)) hs₂ trivial rfl nofun
      (hname.ends hs₂ (hstart.trans_le (hc₁.seen.trans hc₂.seen)) (Nat.le_refl 1))
      (hname.tree.trans htok.tree)

theorem readForm_of_collated? (hform : ∀ f, form = some f → ReadForm ops f)
    (h : collated? form c = some f) :
    ReadForm ops f ∧ f.parts = [] ∧ s.Numbers f ∧ collationOf f = some c := by
  unfold collated? at h
  split at h
  · cases h
    exact ⟨trivial, rfl, nofun, rfl⟩
  · cases h
    rename_i i
    have hi : ReadIdentifier i := hform _ rfl
    exact ⟨hi, rfl, nofun, rfl⟩
  · cases h

section Parts

variable (hread : ReadsParts ops depth)
include hread

theorem readCollate_reads (hs : s.Good ops) (hstart : start.span.first < s.seen) :
    Reads ops s (readCollate (readExpr ops depth) start)
      (Part ops toks start.span.first s.tree) := by
  refine .bind (next_reads hs) fun tok s₁ hs₁ hc₁ htok =>
    .bind (hread tok s₁ hs₁ htok.toRead) fun operand s₂ hs₂ hc₂ _ => ?_
  refine .bind (next_reads hs₂) fun name s₃ hs₃ hc₃ hname => ?_
  split
  · exact .failAt _ _
  · refine .get ?_
    split
    · exact .failAt _ _
    · rename_i c _ _ form hform
      have hforms : ∀ f, s₃.tree.form? operand = some f → ReadForm ops f := by
        cases operand with
        | none => exact fun _ h => nomatch h
        | some i => exact hs₃.forms i
      obtain ⟨hread, hleaf, hnumber, hcollated⟩ := readForm_of_collated? hforms hform
      refine (addNode_reads hs₃ hread (hleaf ▸ ⟨nofun, nofun, .nil⟩) (hleaf ▸ nofun)
        (hname.ends hs₃ (hstart.trans_le (hc₁.seen.trans (hc₂.seen.trans hc₃.seen)))
        (Nat.le_refl 1)) hnumber fun hplain => ?_).weaken fun _ _ h => h.1
      -- the operand is left out
      cases hcollated.symm.trans (hplain.uncollated (s₃.tree.form?_add _))

theorem readNamed_reads (toks : List Token) (hs : s.Good ops) (hstart : start.span.first < s.seen)
    (head : Token) :
    Reads ops s (readNamed (readExpr ops depth) start head)
      (Part ops toks start.span.first s.tree) := by
  unfold readNamed
  split
  · exact readDatetime_reads hs hstart
  · exact readDatetime_reads hs hstart
  · exact readDatetime_reads hs hstart
  · exact readBinary_reads hs hstart
  · exact readInterval_reads hs hstart
  · exact .bind (readQualifier_reads hs) fun q s₁ hs₁ hc ⟨hq, htree⟩ =>
      .get (leaf_reads (f := .qualifier q) hs₁ hq
        rfl nofun (hs₁.ends_seen (hstart.trans_le hc.seen)) htree)
  · exact readTypeSpec_reads hs hstart
  · exact readCharset_reads hs hstart
  · exact readCollate_reads hread hs hstart
  · exact .failAt _ _

/-- A node may end one place after the last token, but the brace that follows ends no earlier. -/
theorem readForm_reads (hs : s.Good ops) (hstart : start.Read s) (hne : start.kind ≠ .eof) :
    Reads ops s (readForm (readExpr ops depth) start) (Whole ops start s) := by
  have hfirst : start.span.first < s.seen := hstart.seen ▸ (hstart.passed hne).1
  refine .bind (next_reads hs) fun head s₁ hs₁ hc hhead => .bind (readNamed_reads
    hread (start :: s.rest) hs₁ (hfirst.trans_le hc.seen) head) fun id s₂ hs₂ _ hid => ?_
  refine .bind (next_reads hs₂) fun tok s₃ hs₃ _ htok =>
    .ite (fun _ => .failAt _ _) fun hbrace => ?_
  have hclose : tok.kind ≠ .eof := by rw [Decidable.not_not.mp hbrace]; nofun
  rw [hhead.tree] at hid
  exact .pure hs₃ ⟨hne, hid.congr htok.tree, htok.clear hclose⟩

end Parts

/-! ### Statements -/

theorem readExpr_reads : ReadsParts ops depth := by
  induction depth with
  | zero => exact fun _ _ _ _ => .failAt _ _
  | succ depth ih =>
    intro tok s hs htok
    rw [readExpr]
    split
    · rename_i hk
      exact readCall_reads ih hs htok (by rw [hk]; nofun)
    · rename_i hk
      exact readList_reads ih hs htok (by rw [hk]; nofun)
    · rename_i hk
      exact readForm_reads ih hs htok (by rw [hk]; nofun)
    · rename_i hk
      exact token_reads (f := .literal (.char _)) hs trivial rfl nofun htok (by rw [hk]; nofun)
    · rename_i hk
      have hname : IsName tok.text.toList := by simpa only [Token.Valid, hk] using htok.valid
      exact token_reads (f := .literal (.symbol _)) hs ⟨tok.text, hname,
        rfl⟩ rfl nofun htok (by rw [hk]; nofun)
    · rename_i hk
      refine .get ?_
      dsimp only
      intro y s' h
      have hs₁ : ({ s with parameters := s.parameters + 1 } : ReadState).Good ops := by
        refine { hs with
          line := ⟨hs.line.sorted, hs.line.tokens, hs.line.ending⟩
          numbers := fun i k hi => ⟨?_, (hs.numbers i k hi).2⟩ }
        have := (hs.numbers i k hi).1
        dsimp only
        omega
      have htok₁ : tok.Read { s with parameters := s.parameters + 1 } :=
        ⟨htok.valid, htok.seen, htok.ahead, htok.passed, htok.ending⟩
      have hnumber : ({ s with parameters := s.parameters + 1 } : ReadState).Numbers
        (.parameter s.parameters) := ?_
      · obtain ⟨hs', hc, hy⟩ := token_reads (f := .parameter s.parameters)
          hs₁ trivial rfl hnumber htok₁ (by rw [hk]; nofun) y s' h
        exact ⟨hs', ⟨hc.tree, hc.seen, hc.ending, hc.rest⟩, ⟨hy.kind, hy.part, hy.clear⟩⟩
      rintro k ⟨⟩
      refine ⟨by dsimp only; omega, fun i hi => ?_⟩
      exact absurd (hs.numbers i _ hi).1 (Int.lt_irrefl _)
    · rename_i hk
      exact readWord_reads hs htok hk
    · exact .failAt _ _
    · exact .failAt _ _

theorem readStatement_reads (hs : s.Good ops) : Reads ops s (readStatement ops) fun root s' =>
    Part ops s.rest 0 s.tree root s' ∧ s'.Passed ∧ ∃ stop, s'.ending = .endOfText stop := by
  refine .get (.bind (next_reads hs) fun tok s₁ hs₁ _ htok =>
    .ite (fun _ => .failAt _ _) fun _ => ?_)
  refine .bind (readExpr_reads tok s₁ hs₁ htok.toRead) fun root s₂ hs₂ _ ⟨hne, hroot, hclear⟩ => ?_
  refine .bind (next_reads hs₂) fun tok' s₃ hs₃ hc htok' =>
    .ite (fun _ => .failAt _ _) fun heof => ?_
  rw [htok.tree, ← htok.rest hne] at hroot
  obtain ⟨hhas, _, hwhole⟩ := hroot.congr htok'.tree
  exact .pure hs₃ ⟨⟨hhas, fun _ _ => Nat.zero_le _, hwhole⟩, fun i p hp =>
    (hclear.passed i p (htok'.tree ▸ hp)).trans hc.seen, htok'.ending (Decidable.not_not.mp heof)⟩

theorem exists_good_of_parse {text : String} (h : parse ops text = .ok st) :
    ∃ s : ReadState, s.Good ops ∧ (s.Passed ∧ s.seen ≤ Text.byteLength text.toList) ∧
      st.tree = s.tree ∧ Part ops (scan text).tokens 0 {} st.root s := by
  unfold parse at h
  dsimp only at h
  obtain ⟨htokens, hsorted, hending⟩ := scanUpTo_valid (text.toList.length + 1) 0 text.toList
  rw [Nat.zero_add] at hending
  have hstart : ({ rest := (scan text).tokens, ending := (scan text).ending } : ReadState).Good
      ops := by
    refine ⟨fun i j hpart => ?_, fun i f hf => ?_, fun tok h => (htokens tok h).1, fun i k hi => ?_,
      ⟨hsorted, fun tok h => ⟨(htokens tok h).2.1, Nat.zero_le _⟩, fun stop h => ⟨Nat.zero_le _,
      (hending stop h).2⟩⟩, ⟨nofun, fun {x} _ _ _ _ hp => ?_, fun {x} _ hf => ?_⟩, fun i p hp => ?_⟩
    · obtain ⟨f, hf, _⟩ := hpart
      cases hf
    · cases hf
    · cases hi
    · cases x <;> cases hp
    · cases x <;> cases hf
    · cases hp
  cases hrun : (readStatement ops).run
    { rest := (scan text).tokens, ending := (scan text).ending } with
  | error e => rw [hrun] at h; cases h
  | ok p =>
    rw [hrun] at h
    cases h
    obtain ⟨hgood, hc, hroot, hpassed, stop, hstop⟩ := readStatement_reads hstart p.1 p.2 hrun
    exact ⟨p.2, hgood, ⟨hpassed, (hgood.line.ending stop hstop).1.trans
      (hending stop (hc.ending.symm.trans hstop)).1.2⟩, rfl, hroot⟩

theorem parse_reads (h : parse ops text = .ok st) : st.tree.Ordered ∧ st.tree.Has st.root ∧
      ∀ i f, st.tree.form? (some i) = some f → ReadForm ops f := by
  obtain ⟨s, hgood, _, hst, hroot⟩ := exists_good_of_parse h
  rw [hst]
  exact ⟨hgood.ordered, hroot.has, hgood.forms⟩

theorem parse_numbers (h : parse ops text = .ok st)
    (hi : st.tree.form? (some i) = some (.parameter n))
    (hj : st.tree.form? (some j) = some (.parameter n)) : j = i := by
  obtain ⟨s, hgood, _, hst, _⟩ := exists_good_of_parse h
  rw [hst] at hi hj
  exact (hgood.numbers i n hi).2 j hj

theorem parse_nests (h : parse ops text = .ok st) : st.tree.Nests := by
  obtain ⟨s, hgood, _, hst, _⟩ := exists_good_of_parse h
  exact hst ▸ hgood.nests

theorem parse_spans {text : String} (h : parse ops text = .ok st)
    (hn : st.tree.node? (some i) = some n) :
    ∃ p, n.span = some p ∧ p.first < p.last ∧ p.last ≤ Text.byteLength text.toList := by
  obtain ⟨s, hgood, ⟨hpassed, hends⟩, hst, _⟩ := exists_good_of_parse h
  rw [hst] at hn
  obtain ⟨p, hp, hlt⟩ := hgood.nests.placed (Array.getElem?_eq_some_iff.mp hn).1
  refine ⟨p, ?_, hlt, (hpassed i p hp).trans hends⟩
  rwa [Tree.span?, hn] at hp

theorem parse_whole (h : parse ops text = .ok st) (hplain : Plain ops (scan text).tokens st.tree)
    (hi : i < st.tree.size) : st.tree.Spans st.root i := by
  obtain ⟨s, _, _, hst, hroot⟩ := exists_good_of_parse h
  rw [hst] at hplain hi ⊢
  exact hroot.whole hplain i (Nat.zero_le _) hi

end SqlAnalysis.Script

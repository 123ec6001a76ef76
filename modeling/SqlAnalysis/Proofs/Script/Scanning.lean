import SqlAnalysis.Proofs.Script.Reading
import SqlAnalysis.Script.Writer

/-!
Texts that are put together from tokens. `Spells cs ps` says that the characters `cs` are read as
the tokens `ps` wherever what follows them cannot be taken for more of the last token, so that the
tokens of a text are found piece by piece.
-/

namespace SqlAnalysis.Script

abbrev Piece := TokenKind × String

def Token.piece (tok : Token) : Piece := (tok.kind, tok.text)

/-- The whole text consists of these tokens. -/
def Scans (cs : List Char) (ps : List Piece) : Prop :=
  ∀ most pos, cs.length < most → (scanUpTo most pos cs).tokens.map Token.piece = ps ∧
    ∃ stop, (scanUpTo most pos cs).ending = .endOfText stop

/-- A text that does not go on with the token before it. -/
def Apart (rest : List Char) : Prop := ∀ c, rest.head? = some c → isWordChar c = false ∧ c ≠ '\''

def Spells (cs : List Char) (ps : List Piece) : Prop :=
  ∀ rest qs, Apart rest → Scans rest qs → Scans (cs ++ rest) (ps ++ qs)

theorem skipBlanks_eq_self (hblank : ∀ c, cs.head? = some c → isSeparator c = false)
    (hcomment : ¬ ['-', '-'] <+: cs) (pos : Nat) : skipBlanks false pos cs = (pos, cs) := by
  fun_cases skipBlanks false pos cs with
  | case1 => rfl
  | case2 cs => exact absurd ⟨cs, rfl⟩ hcomment
  | case3 c cs => rename_i h; cases h
  | case4 c cs _ _ hsep => rw [hblank c rfl] at hsep; cases hsep
  | case5 => rfl

namespace Scans

theorem nil : Scans [] [] := by
  intro most pos h
  cases most with
  | zero => cases h
  | succ most => exact ⟨rfl, pos, rfl⟩

theorem separator (hc : isSeparator c) (h : Scans rest qs) : Scans (c :: rest) qs := by
  intro most pos hmost
  cases most with
  | zero => cases hmost
  | succ most =>
    have hskip : skipBlanks false pos (c :: rest) = skipBlanks false (pos + c.utf8Size) rest := by
      rw [skipBlanks, if_neg Bool.false_ne_true, if_pos hc]
      rintro _ rfl _
      exact absurd hc (by decide)
    have heq : scanUpTo (most + 1) pos (c :: rest) =
        scanUpTo (most + 1) (pos + c.utf8Size) rest := by
      rw [scanUpTo, scanUpTo, hskip]
    rw [heq]
    exact h _ _ (Nat.lt_trans (Nat.lt_succ_self _) hmost)

theorem token (hblank : ∀ c, cs.head? = some c → isSeparator c = false)
    (hcomment : ¬ ['-', '-'] <+: cs) (hlen : rest.length < cs.length)
    (hscan : ∀ pos, ∃ span stop, scanToken pos cs = .ok ({ kind, text, span }, stop, rest))
    (h : Scans rest qs) : Scans cs ((kind, text) :: qs) := by
  intro most pos hmost
  cases most with
  | zero => cases hmost
  | succ most =>
    obtain ⟨span, stop, hscan⟩ := hscan pos
    obtain ⟨htokens, last, hending⟩ :=
      h most stop (Nat.lt_of_lt_of_le hlen (Nat.le_of_lt_succ hmost))
    simp only [scanUpTo, skipBlanks_eq_self hblank hcomment, hscan]
    exact ⟨congrArg _ htokens, last, hending⟩

theorem bracket (hc : bracket? c = some kind) (h : Scans rest qs) :
    Scans (c :: rest) ((kind, String.singleton c) :: qs) := by
  have hsep : isSeparator c = false ∧ c ≠ '-' := by
    unfold bracket? at hc
    split at hc <;> cases hc <;> exact ⟨by decide, by decide⟩
  refine token ?_ ?_ (Nat.lt_succ_self _) (fun pos => ⟨⟨pos, pos + 1⟩, pos + 1, ?_⟩) h
  · rintro _ ⟨⟩
    exact hsep.1
  · rintro ⟨_, hprefix⟩
    exact hsep.2 (List.cons.inj hprefix).1.symm
  · simp only [scanToken, hc]

end Scans

theorem Apart.takeWhile (hw : ∀ c ∈ w, isWordChar c) (h : Apart rest) :
    (w ++ rest).takeWhile isWordChar = w ∧ (w ++ rest).dropWhile isWordChar = rest := by
  have hrest : rest.takeWhile isWordChar = [] ∧ rest.dropWhile isWordChar = rest := by
    cases rest with
    | nil => exact ⟨rfl, rfl⟩
    | cons c rest =>
      have hc := (h c rfl).1
      simp [hc]
  rw [List.takeWhile_append_of_pos hw, List.dropWhile_append_of_pos hw,
    hrest.1, hrest.2, List.append_nil]
  exact ⟨rfl, rfl⟩

theorem isWordChar_iff : isWordChar c ↔ isSeparator c = false ∧ bracket? c = none ∧ c ≠ '\'' := by
  simp [isWordChar, and_assoc]

namespace Spells

theorem scans (h : Spells cs ps) : Scans cs ps := by
  have hnil := h [] [] nofun .nil
  rwa [List.append_nil, List.append_nil] at hnil

theorem word (hw : IsWord w.toList) : Spells w.toList [(.word, w)] := by
  intro rest qs hrest hscans
  obtain ⟨c, cs, hcs⟩ : ∃ c cs, w.toList = c :: cs := List.exists_cons_of_ne_nil hw.ne_nil
  obtain ⟨hquestion, hcolon, hhash⟩ := hw.unmarked c (by rw [hcs]; rfl)
  obtain ⟨hsep, hbracket, hquote⟩ :=
    isWordChar_iff.mp (hw.chars c (by rw [hcs]; exact List.mem_cons_self))
  obtain ⟨htake, hdrop⟩ := hrest.takeWhile hw.chars
  refine .token ?_ ?_ ?_ (fun pos => ?_) hscans
  · rw [hcs]
    rintro _ ⟨⟩
    exact hsep
  · -- the text after a word of one hyphen is apart from it, so no comment begins
    rintro ⟨_, hprefix⟩
    simp only [hcs, List.cons_append, List.nil_append, List.cons.injEq] at hprefix
    obtain ⟨rfl, hprefix⟩ := hprefix
    cases cs with
    | nil =>
      cases rest with
      | nil => cases hprefix
      | cons d rest =>
        obtain ⟨rfl, -⟩ := List.cons.inj hprefix
        exact absurd (hrest _ rfl).1 (by decide)
    | cons d cs =>
      obtain ⟨rfl, -⟩ := List.cons.inj hprefix
      exact hw.no_comment (by rw [hcs]; exact ⟨cs, rfl⟩)
  · rw [hcs, List.length_append, List.length_cons]
    omega
  · rw [hcs] at htake hdrop ⊢
    rw [List.cons_append] at htake hdrop ⊢
    refine ⟨⟨pos, pos + Text.byteLength (c :: cs)⟩, pos + Text.byteLength (c :: cs), ?_⟩
    simp only [scanToken, hbracket, if_neg hquote, if_neg hquestion, hcolon,
      hhash, or_self, if_false, scanWord, htake, hdrop]
    rw [← hcs, String.ofList_toList]

theorem marked {name : String} (hname : IsName name.toList)
    (hc : c = ':' ∧ kind = .keyword ∨ c = '#' ∧ kind = .symbol) :
    Spells (c :: name.toList) [(kind, name)] := by
  intro rest qs hrest hscans
  obtain ⟨htake, hdrop⟩ := hrest.takeWhile hname.chars
  obtain ⟨d, ds, hds⟩ : ∃ d ds, name.toList = d :: ds := List.exists_cons_of_ne_nil hname.ne_nil
  refine .token ?_ ?_ ?_ (fun pos => ?_) hscans
  · rintro _ ⟨⟩
    obtain ⟨rfl, -⟩ | ⟨rfl, -⟩ := hc <;> decide
  · rintro ⟨_, hprefix⟩
    obtain ⟨rfl, -⟩ := List.cons.inj hprefix
    obtain ⟨h, -⟩ | ⟨h, -⟩ := hc <;> cases h
  · rw [List.cons_append, List.length_cons, List.length_append]
    omega
  · refine ⟨⟨pos, pos + 1 + Text.byteLength name.toList⟩, pos + 1 + Text.byteLength name.toList, ?_⟩
    obtain ⟨rfl, rfl⟩ | ⟨rfl, rfl⟩ := hc <;>
    · simp only [List.cons_append, scanToken, scanWord, htake, hdrop]
      rw [hds]
      simp only [bracket?, ← hds, String.ofList_toList]
      rfl

theorem parameter : Spells ['?'] [(.parameter, "?")] := by
  intro rest qs _ hscans
  refine .token ?_ ?_ (Nat.lt_succ_self _) (fun pos => ⟨_, _, rfl⟩) hscans
  · rintro _ ⟨⟩
    decide
  · rintro ⟨_, hprefix⟩
    cases (List.cons.inj hprefix).1

theorem scanString_cons (hc : c ≠ '\'') (pos : Nat) (cs : List Char) : scanString pos (c :: cs) =
      (scanString (pos + c.utf8Size) cs).map fun (text, r) => (c :: text, r) := by
  rw [scanString.eq_def]
  split
  · rename_i h
    cases h
  · rename_i h
    exact absurd (List.cons.inj h).1 hc
  · rename_i h
    exact absurd (List.cons.inj h).1 hc
  · rename_i h
    cases h
    rfl

theorem scanString_quoted (cs : List Char) (hrest : Apart rest) (pos : Nat) :
    ∃ stop, scanString pos (cs.flatMap (fun c => if c = '\'' then ['\'', '\''] else [c]) ++
      '\'' :: rest) = some (cs, stop, rest) := by
  induction cs generalizing pos with
  | nil =>
    cases rest with
    | nil => exact ⟨_, rfl⟩
    | cons c rest =>
      have hc := (hrest c rfl).2
      refine ⟨pos + 1, ?_⟩
      rw [List.flatMap_nil, List.nil_append, scanString]
      rintro _ h
      exact hc (List.cons.inj h).1
  | cons c cs ih =>
    by_cases hc : c = '\''
    · obtain ⟨stop, ih⟩ := ih (pos + 2)
      refine ⟨stop, ?_⟩
      simp only [List.flatMap_cons, hc, if_true, List.cons_append, List.nil_append,
        scanString, ih, Option.map_some]
    · obtain ⟨stop, ih⟩ := ih (pos + c.utf8Size)
      refine ⟨stop, ?_⟩
      rw [List.flatMap_cons, if_neg hc, List.cons_append, List.cons_append,
        List.nil_append, scanString_cons hc, ih, Option.map_some]

theorem string (text : String) : Spells (Literal.quoted text).toList [(.string, text)] := by
  intro rest qs hrest hscans
  have htext : (Literal.quoted text).toList ++ rest =
      '\'' ::
      (text.toList.flatMap (fun c => if c = '\'' then ['\'', '\''] else [c]) ++ '\'' :: rest) := by
    simp [Literal.quoted]
  rw [htext]
  refine .token ?_ ?_ ?_ (fun pos => ?_) hscans
  · rintro _ ⟨⟩
    decide
  · rintro ⟨_, hprefix⟩
    cases (List.cons.inj hprefix).1
  · rw [List.length_cons, List.length_append, List.length_cons]
    omega
  · obtain ⟨stop, hstop⟩ := scanString_quoted text.toList hrest (pos + 1)
    refine ⟨⟨pos, stop⟩, stop, ?_⟩
    simp only [scanToken, hstop, String.ofList_toList]
    rfl

theorem nil : Spells [] [] := fun _ _ _ h => h

theorem enclosed (hl : bracket? l = some k) (hr : bracket? r = some m) (h : Spells cs ps) :
    Spells (l :: (cs ++ [r])) ((k, String.singleton l) :: (ps ++ [(m, String.singleton r)])) := by
  intro rest qs _ hscans
  rw [List.cons_append, List.cons_append, List.append_assoc, List.append_assoc]
  refine .bracket hl (h _ _ ?_ (.bracket hr hscans))
  rintro _ ⟨⟩
  refine ⟨?_, ?_⟩
  · simp [isWordChar, hr]
  · rintro rfl
    cases hr

theorem spaced (h : Spells cs ps) (h' : Spells ds qs) : Spells (cs ++ ' ' :: ds) (ps ++ qs) := by
  intro rest rs hrest hscans
  rw [List.append_assoc, List.append_assoc]
  refine h _ _ ?_ (.separator (by decide) (h' _ _ hrest hscans))
  rintro _ ⟨⟩
  decide

end Spells

end SqlAnalysis.Script

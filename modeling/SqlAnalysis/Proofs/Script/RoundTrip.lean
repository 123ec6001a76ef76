import SqlAnalysis.Proofs.Canonical.Form
import SqlAnalysis.Proofs.Script.Leaves

/-!
Writing and reading. A tree that was read is written as a text that is read as the same tree, if it
has no numbers with a power of ten, no dates, no character sets and collations, no parameters and no
operands without a place. Where it has parameters, reading numbers them in the order in which they
are written.
-/

namespace SqlAnalysis

/-- Labels that agree up to the place of a call that waits for its function, and the zeros at the
end of a fraction. -/
def Form.Same : Form → Form → Prop
  | .call c, .call d => c.operator.unplaced = d.operator.unplaced
  | .literal (.exact d), .literal (.exact e) => d.sameValue e
  | f, g => f = g

namespace Form

/-- The operands of a call have places, where they have names. -/
def isRoomy : Form → Bool
  | .call c => c.operator.slots.isEmpty || c.operands.length ≤ c.operator.slots.length
  | _ => true

/-- The forms of which nothing is lost when they are written. -/
def isPlain : Form → Bool
  | .identifier i => i.collation.isNone
  | .literal (.char v) => v.collation.isNone && v.charset = ""
  | .literal (.approximate _) | .literal (.date _) | .literal (.time _ _)
    | .literal (.timestamp _ _) => false
  | .parameter _ => false
  | f => f.wordy && f.isRoomy

theorem wordy_of_isPlain {f : Form} (h : f.isPlain) : f.wordy := by
  cases f with
  | identifier i =>
    rw [isPlain, Option.isNone_iff_eq_none] at h
    simp [wordy, h]
  | literal l =>
    cases l with
    | char v =>
      simp only [isPlain, Bool.and_eq_true, Option.isNone_iff_eq_none, decide_eq_true_eq] at h
      simp [wordy, h]
    | _ => rfl
  | typeSpec s => exact (Bool.and_eq_true_iff.mp h).1
  | _ => rfl

theorem isRoomy_of_isPlain {f : Form} (h : f.isPlain) : f.isRoomy := by
  cases f with
  | call c =>
    have h' : ((call c).wordy && (call c).isRoomy) := h
    exact (Bool.and_eq_true_iff.mp h').2
  | _ => rfl

end Form

namespace Statement

/-- Nothing is lost when the statement is written. -/
def isPlain (s : Statement) : Bool := s.tree.nodes.all fun n => n.form.isPlain

/-- The tokens that are written are those of the nodes: names of character sets and collations are
words, and all operands have places. -/
def isLegible (s : Statement) : Bool := s.tree.nodes.all fun n => n.form.wordy && n.form.isRoomy

end Statement

theorem Tree.of_nodes_all {t : Tree} {p : Form → Bool} (h : (t.nodes.all fun n => p n.form))
    (hf : t.form? x = some f) : p f := by
  obtain ⟨n, hn, rfl⟩ := Option.map_eq_some_iff.mp hf
  obtain ⟨i, _, hi⟩ := Option.bind_eq_some_iff.mp hn
  exact Array.all_eq_true'.mp h n (Array.mem_of_getElem? hi)

namespace Script

theorem faithful_same : Faithful Form.Same where
  call _ _ h := h
  list := rfl
  leaf f := by
    cases f with
    | call c => rfl
    | literal l =>
      cases l with
      | exact d => simp [Form.Same, Decimal.sameValue, Decimal.le]
      | _ => rfl
    | _ => rfl
  number _ _ h := h

/-! ### Leaves -/

theorem restores_plain (hR : Faithful R) (h : ReadForm ops f) (hplain : f.isPlain)
    (hleaf : f.isLeaf) (hdepth : 0 < depth) : Restores ops F R depth (.node f []) := by
  obtain ⟨depth, rfl⟩ := Nat.exists_eq_succ_of_ne_zero (Nat.ne_of_gt hdepth)
  cases f with
  | call c => cases hleaf
  | list l => cases hleaf
  | identifier i => exact restores_identifier hR.leaf h (Option.isNone_iff_eq_none.mp hplain)
  | typeSpec s => exact restores_typeSpec hR.leaf h
  | parameter k => cases hplain
  | qualifier q => exact restores_qualifier hR.leaf h
  | literal l =>
    cases l with
    | null => exact restores_constant hR.leaf rfl fun tok htext => by rw [readWord, htext]; rfl
    | boolean t =>
      cases t with
      | false => exact restores_constant hR.leaf rfl fun tok htext => by rw [readWord, htext]; rfl
      | true => exact restores_constant hR.leaf rfl fun tok htext => by rw [readWord, htext]; rfl
      | unknown => exact restores_constant hR.leaf rfl fun tok htext => by rw [readWord, htext]; rfl
    | exact d => exact restores_number hR h
    | symbol text => exact restores_symbol hR.leaf h
    | char v =>
      obtain ⟨value, charset, collation⟩ := v
      simp only [Form.isPlain, Bool.and_eq_true, Option.isNone_iff_eq_none,
        decide_eq_true_eq] at hplain
      obtain ⟨rfl, rfl⟩ := hplain
      exact restores_string hR.leaf
    | binary bytes => exact restores_binary hR.leaf h
    | interval v => exact restores_interval hR.leaf h
    | _ => cases hplain

/-- Any leaf is refused or read as a leaf; parameters are read as parameters, and nothing else
is. -/
theorem restores_loosely (h : ReadForm ops f)
    (hleaf : f.isLeaf) (hdepth : (leafPieces f).length ≤ depth) :
    Restores ops True Form.Loosely depth (.node f []) := by
  have hpos : 0 < depth := by
    have := isBegun_leafPieces hleaf
    cases hp : leafPieces f with
    | nil =>
      rw [hp] at this
      cases this
    | cons p ps =>
      rw [hp, List.length_cons] at hdepth
      omega
  have hplain (h' : f.isPlain) := restores_plain (F := True) faithful_loosely h h' hleaf hpos
  obtain ⟨depth, rfl⟩ := Nat.exists_eq_succ_of_ne_zero (Nat.ne_of_gt hpos)
  -- what stands under a collation is read one level deeper
  have hdeep (ps : List Piece) (h : leafPieces f = bracedPieces ps) (hlen : 1 ≤ ps.length) : ∃ k,
      depth = k + 1 := by
    rw [h, bracedPieces, List.length_cons, List.length_append] at hdepth
    exact ⟨depth - 1, by simp at hdepth; omega⟩
  cases f with
  | parameter k => exact restores_parameter
  | identifier i =>
    cases hc : i.collation with
    | none => exact hplain (by rw [Form.isPlain, hc]; rfl)
    | some c =>
      have hpieces : leafPieces (.identifier i) =
          bracedPieces [(.word, "COLLATE"), (.word, i.toText), (.word, c.name)] := by
        rw [leafPieces, identifierPieces, hc]
      obtain ⟨k, rfl⟩ := hdeep _ hpieces (by simp)
      refine restores_collate rfl rfl hpieces fun tok s htok hs => ?_
      obtain ⟨hkind, htext⟩ := Prod.mk.inj htok
      rw [readExpr_word hkind]
      refine readWord_loosely hs rfl ?_ rfl
      obtain ⟨text, _, hnames, _, _, hconstant⟩ := h
      rw [htext, Identifier.toText, hnames, join_split]
      exact fun heq => hconstant (heq ▸ List.mem_cons_self)
  | literal l =>
    cases l with
    | approximate d => exact restores_approximate
    | date m => exact restores_datetime (by simp) rfl
    | time m p => exact restores_datetime (by simp) rfl
    | timestamp m p => exact restores_datetime (by simp) rfl
    | char v =>
      cases hc : v.collation with
      | some c =>
        have hpieces : leafPieces (.literal (.char v)) =
            bracedPieces [(.word, "COLLATE"), (.string, v.value), (.word, c.name)] := by
          rw [leafPieces, literalPieces, hc]
        obtain ⟨k, rfl⟩ := hdeep _ hpieces (by simp)
        refine restores_collate rfl rfl hpieces fun tok s htok hs => ?_
        obtain ⟨hkind, _⟩ := Prod.mk.inj htok
        rw [readExpr, hkind]
        have hlabel : Form.Loosely (.literal (.char { value := tok.text })) (.literal (.char v)) :=
          rfl
        exact (Restored.nil hs rfl).leaf rfl hlabel rfl _
      | none =>
        by_cases hcharset : v.charset = ""
        · exact hplain (by simp [Form.isPlain, hc, hcharset])
        · refine restores_charset v.charset ?_
          rw [literalPieces, hc]
          exact if_neg hcharset
    | _ => exact hplain rfl
  | typeSpec s => exact restores_typeSpec faithful_loosely.leaf h
  | _ => first | exact hplain rfl | cases hleaf

/-! ### Statements -/

theorem readStatement_restores (hx : ∀ depth, x.pieces.length ≤ depth → Restores ops F R depth x)
    (htoks : s.rest.map Token.piece = x.pieces)
    (hending : s.ending = .endOfText pos) (hs : s.tree.Ordered) :
    Yields F s (readStatement ops) fun y s' => Restored R s [] [x] [y] s' := by
  have hlen : x.pieces.length ≤ s.rest.length + 1 := by
    rw [← htoks, List.length_map]
    exact Nat.le_succ _
  have hread := hx _ hlen
  obtain ⟨tok, ts, us, hrest, hts, hus, _, _, _, hne⟩ :=
    exists_tokens (htoks.trans (List.append_nil _).symm)
  cases List.map_eq_nil_iff.mp hus
  refine .bind_run (m := get) rfl ?_
  refine .next hrest (.ite (fun h => absurd h hne) fun _ => ?_)
  refine .bind (hread tok ts [] _ hts rfl hs) fun root s₁ h₁ => ?_
  refine .bind_run (run_next_end h₁.rest (h₁.ending.trans hending))
    (.ite (fun h => absurd rfl h) fun _ => .pure ?_)
  exact ⟨h₁.rest, h₁.ending, h₁.ordered, h₁.ext, h₁.has, h₁.alike, h₁.count, h₁.numbers⟩

theorem parse_write_of {L : Form → Prop} (hR : Lenient R) (h : parse .standard text = .ok st)
    (hforms : ∀ i f, st.tree.form? (some i) = some f → f.wordy ∧ f.isRoomy ∧ L f)
    (hleaf : ∀ f depth, ReadForm .standard f ∧ L f → f.isLeaf → (leafPieces f).length ≤ depth →
    Restores .standard F R depth (.node f [])) : match parse .standard (write st.tree st.root) with
    | .ok st' => Term.Alike R (st'.tree.term st'.root) (st.tree.term st.root) ∧
      (st'.tree.term st'.root).parameters =
        (List.range (st'.tree.term st'.root).parameters.length).map Int.ofNat
    | .error _ => F := by
  obtain ⟨hordered, hhas, hread⟩ := parse_reads h
  have hrebinds {i : NodeId} {c : Call} (hc : st.tree.form? (some i) = some (.call c)) :
      Rebinds .standard c.operator c.operands.length := by
    have hroom : (c.operator.slots.isEmpty ||
      decide (c.operands.length ≤ c.operator.slots.length)) := (hforms i _ hc).2.1
    refine ReadCall.rebinds (fun o => notated_standard) (hread i _ hc) ?_
    simpa using hroom
  have hspells : Spells (write st.tree st.root).toList (st.tree.term st.root).pieces := by
    refine spells_writeUpTo hordered (fun i f hf => spells_leaf (hread i f hf) (hforms i f hf).1)
      (fun i c hc => ?_) (fun i hi => ?_) hhas
    · exact (hrebinds (Tree.form?_of_call? hc)).toLegible
    · rw [hi]
      exact Nat.lt_succ_self i
  have hevery : (st.tree.term st.root).Every (Restorable .standard fun f =>
      ReadForm .standard f ∧ L f) := by
    refine .of_forms hordered fun i f _ hf => ?_
    cases f with
    | call c => exact ⟨rfl, by rw [List.length_map]; exact hrebinds hf⟩
    | list l => exact rfl
    | _ => exact ⟨rfl, hread i _ hf, (hforms i _ hf).2.2⟩
  obtain ⟨htoks, pos, hending⟩ := hspells.scans _ 0 (Nat.lt_succ_self _)
  have hyields := readStatement_restores (fun depth hdepth => restores hR hleaf hevery hdepth)
    (s := { rest := (scan (write st.tree st.root)).tokens
            ending := (scan (write st.tree st.root)).ending })
    htoks hending (fun i j hpart => by obtain ⟨f, hf, _⟩ := hpart; cases hf)
  unfold Yields at hyields
  unfold parse
  dsimp only
  cases hrun : (readStatement .standard).run
      { rest := (scan (write st.tree st.root)).tokens,
        ending := (scan (write st.tree st.root)).ending } with
  | error e =>
    rw [StateT.run] at hrun
    rw [hrun] at hyields
    exact hyields
  | ok p =>
    rw [StateT.run] at hrun
    rw [hrun] at hyields
    obtain ⟨root, s'⟩ := p
    have hnumbers := hyields.numbers
    simp only [List.map_cons, List.map_nil, List.flatMap_cons, List.flatMap_nil,
      List.append_nil, ← List.range_eq_range'] at hnumbers
    exact ⟨(List.forall₂_cons.mp hyields.alike).1, hnumbers⟩

/-- A plain statement is written as a text that is read as the same statement. -/
theorem parse_write {text : String} {st : Statement} (h : parse .standard text = .ok st)
    (hplain : st.isPlain = true) :
    ∃ st', parse .standard (write st.tree st.root) = .ok st' ∧
      Term.Alike Form.Same (st'.tree.term st'.root) (st.tree.term st.root) := by
  have hforms {i : NodeId} {f : Form} (hf : st.tree.form? (some i) = some f) : f.isPlain = true :=
    Tree.of_nodes_all hplain hf
  have hread := parse_write_of (F := False) (L := fun f => f.isPlain = true)
    faithful_same.toLenient h (fun i f hf => ⟨Form.wordy_of_isPlain (hforms hf),
    Form.isRoomy_of_isPlain (hforms hf), hforms hf⟩) fun f depth hf hleaf hdepth =>
    restores_plain faithful_same hf.1 hf.2 hleaf (Nat.lt_of_lt_of_le ?_ hdepth)
  · cases hst' : parse .standard (write st.tree st.root) with
    | error e =>
      rw [hst'] at hread
      exact hread.elim
    | ok st' =>
      rw [hst'] at hread
      exact ⟨st', rfl, hread.1⟩
  · rw [← pieces_leaf hleaf []]
    exact length_pieces_pos _

/-- Operands out of their order, a function that is not known, quotes, bytes, an interval and a
type. -/
def orders : String :=
  "(SELECT :where (LIKE NAME 'it''s') :list [(AS (+ A.SAL 1.50) BONUS)
    (my_rank #row _ \x7bBINARY 'f00d'\x7d)
    (CAST \x7bINTERVAL '-3 04:05' DAY TO MINUTE\x7d \x7bTYPE DECIMAL 5 2\x7d)] :from (AS ORDERS A))"

theorem parse_write_of_orders : ∃ st st' : Statement,
    parse .standard orders = .ok st ∧ st.isPlain = true ∧
    parse .standard (write st.tree st.root) = .ok st' ∧
      Term.Alike Form.Same (st'.tree.term st'.root) (st.tree.term st.root) := by
  have hrun : (parse .standard orders).toOption.any Statement.isPlain = true := by
    decide +kernel
  obtain ⟨st, hst, hplain⟩ := exists_of_any hrun
  obtain ⟨st', hst', halike⟩ := parse_write hst hplain
  exact ⟨st, st', hst, hplain, hst', halike⟩

/-- Where a written statement is read, its parameters are numbered in preorder, from zero on. So
their numbers are kept only if they were numbered so before. -/
theorem parameters_of_write {text : String} {st st' : Statement} (h : parse .standard text = .ok st)
    (hlegible : st.isLegible = true) (h' : parse .standard (write st.tree st.root) = .ok st') :
    (st'.tree.term st'.root).parameters =
      (List.range (st.tree.term st.root).parameters.length).map Int.ofNat := by
  have hforms {i : NodeId} {f : Form} (hf : st.tree.form? (some i) = some f) : f.wordy = true ∧
      f.isRoomy = true :=
    Bool.and_eq_true_iff.mp (Tree.of_nodes_all (p := fun f => f.wordy && f.isRoomy) hlegible hf)
  have hread := parse_write_of (F := True) (L := fun _ => True) faithful_loosely.toLenient h
    (fun i f hf => ⟨(hforms hf).1, (hforms hf).2, trivial⟩) fun f depth hf hleaf hdepth =>
    restores_loosely hf.1 hleaf hdepth
  rw [h'] at hread
  obtain ⟨halike, hnumbers⟩ := hread
  rw [hnumbers, halike.length_parameters]

/-- The condition is written after the list, but its parameter was read first. -/
theorem parameters_of_write_of_condition :
    ∃ st st' : Statement, parse .standard "(SELECT :where (= A ?) :list [?])" = .ok st ∧
      st.isLegible = true ∧ (st.tree.term st.root).parameters = [1, 0] ∧
      parse .standard (write st.tree st.root) = .ok st' ∧
      (st'.tree.term st'.root).parameters = [0, 1] := by
  have hrun : (parse .standard "(SELECT :where (= A ?) :list [?])").toOption.any
    (fun st => st.isLegible &&
      (st.tree.term st.root).parameters == [1, 0] && write st.tree st.root ==
      "(SELECT :list [?] :where (= A ?))") = true := by
    decide +kernel
  have hagain : (parse .standard "(SELECT :list [?] :where (= A ?))").toOption.any (fun _ => true) =
    true := by decide +kernel
  obtain ⟨st, hst, hrun⟩ := exists_of_any hrun
  obtain ⟨st', hst', _⟩ := exists_of_any hagain
  simp only [Bool.and_eq_true, beq_iff_eq] at hrun
  obtain ⟨⟨hlegible, hbefore⟩, hwrite⟩ := hrun
  rw [← hwrite] at hst'
  refine ⟨st, st', hst, hlegible, hbefore, hst', ?_⟩
  rw [parameters_of_write hst hlegible hst', hbefore]
  rfl

end Script

end SqlAnalysis

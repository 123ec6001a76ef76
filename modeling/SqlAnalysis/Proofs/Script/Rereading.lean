import SqlAnalysis.Proofs.Script.Binding

/-!
Reading the tokens of a term. If the reader takes the tokens of each leaf of a term for a leaf like
it, and the name of each operator is bound to it again, then it takes the tokens of the whole term
for a term like it. Parameters are numbered in the order in which they are written.
-/

namespace SqlAnalysis

/-- Two terms of the same shape with labels that `R` relates. -/
inductive Term.Alike (R : Form → Form → Prop) : Term → Term → Prop where
  | absent : Alike R .absent .absent
  | node {f g : Form} {ps qs : List Term} (label : R f g) (parts : List.Forall₂ (Alike R) ps qs) :
    Alike R (.node f ps) (.node g qs)

mutual

def Term.parameters : Term → List Int
  | .absent => []
  | .node (.parameter k) _ => [k]
  | .node _ ps => Term.parametersOf ps

def Term.parametersOf : List Term → List Int
  | [] => []
  | p :: ps => p.parameters ++ Term.parametersOf ps

end

theorem Term.parametersOf_eq : parametersOf ps = ps.flatMap parameters := by
  induction ps with
  | nil => rfl
  | cons p ps ih => rw [parametersOf, List.flatMap_cons, ih]

def Form.isParameter : Form → Bool
  | .parameter _ => true
  | _ => false

@[simp] theorem Form.isParameter_label (f : Form) :
    f.label.isParameter = f.isParameter := by cases f <;> rfl

theorem Term.parameters_node (h : f.isParameter = false) (ps : List Term) :
    (Term.node f ps).parameters = ps.flatMap Term.parameters := by
  cases f with
  | parameter k => cases h
  | _ => simp only [Term.parameters, Term.parametersOf_eq]

namespace Script

/-! ### Steps -/

/-- The step gives what `Q` says, or it fails, which it does only under `F`. -/
def Yields {α : Type} (F : Prop) (s : ReadState) (m : ReadM α) (Q : α → ReadState → Prop) : Prop :=
  match m s with
  | .ok (a, s') => Q a s'
  | .error _ => F

namespace Yields

theorem pure (h : Q a s) : Yields F s (pure a) Q := h

theorem of_run (hm : m s = .ok (a, s')) (h : Q a s') : Yields F s m Q := by
  rw [Yields, hm]
  exact h

theorem bind (hm : Yields F s m Q) (hf : ∀ a s', Q a s' → Yields F s' (f a) R) :
    Yields F s (m >>= f) R := by
  have hbind : (m >>= f) s = m s >>= fun p => f p.1 p.2 := rfl
  unfold Yields at hm ⊢
  rw [hbind]
  cases hx : m s with
  | error e =>
    rw [hx] at hm
    exact hm
  | ok p =>
    rw [hx] at hm
    exact hf p.1 p.2 hm

theorem bind_run (hm : m s = .ok (a, s')) (hf : Yields F s' (f a) R) : Yields F s (m >>= f) R :=
  .bind (Q := fun b t => b = a ∧ t = s') (.of_run hm ⟨rfl, rfl⟩) fun _ _ ⟨hb, ht⟩ => hb ▸ ht ▸ hf

theorem weaken (hm : Yields F s m Q) (h : ∀ a s', Q a s' → Q' a s') : Yields F s m Q' := by
  unfold Yields at hm ⊢
  cases hx : m s with
  | error e =>
    rw [hx] at hm
    exact hm
  | ok p =>
    rw [hx] at hm
    exact h p.1 p.2 hm

theorem ite [Decidable c] (h : c → Yields F s m Q) (h' : ¬ c → Yields F s m' Q) :
    Yields F s (if c then m else m') Q := by
  split
  · exact h ‹_›
  · exact h' ‹_›

end Yields

theorem run_bind_ok {f : α → ReadM β} (h : m s = .ok (v, s')) : (m >>= f) s = f v s' := by
  simp only [bind, StateT.bind, h, Except.bind]

theorem run_next_cons (h : s.rest = tok :: toks) :
    next s = .ok (tok, { s with rest := toks, seen := tok.span.last }) := by
  obtain ⟨rest, ending, seen, parameters, tree⟩ := s
  cases h
  rfl

theorem run_next_end (h : s.rest = []) (he : s.ending = .endOfText pos) :
    next s = .ok ({ kind := .eof, text := "", span := ⟨pos, pos⟩ }, { s with seen := pos }) := by
  obtain ⟨rest, ending, seen, parameters, tree⟩ := s
  cases h
  cases he
  rfl

theorem run_addNode : (some <$> addNode f span : ReadM Link) s = .ok (some s.tree.nodes.size,
      { s with tree := (s.tree.add { form := f, span := some span }).2 }) := rfl

theorem Yields.next (h : s.rest = tok :: toks)
    (hf : Yields F { s with rest := toks, seen := tok.span.last } (f tok) R) :
    Yields F s (Script.next >>= f) R :=
  .bind_run (run_next_cons h) hf

/-! ### What is read again -/

variable {rest : List Token}

/-- From state `s` nodes `ys` were read that stand for terms like `xs`; `rest` is still to be
read. -/
structure Restored (R : Form → Form → Prop) (s : ReadState) (rest : List Token)
    (xs : List Term) (ys : List Link) (s' : ReadState) : Prop where
  rest : s'.rest = rest
  ending : s'.ending = s.ending
  ordered : s'.tree.Ordered
  ext : s.tree.Extends s'.tree
  has : ∀ y ∈ ys, s'.tree.Has y
  alike : List.Forall₂ (Term.Alike R) (ys.map s'.tree.term) xs
  count : s'.parameters = s.parameters + ((ys.map s'.tree.term).flatMap Term.parameters).length
  /-- Parameters are numbered as they are met. -/
  numbers : (ys.map s'.tree.term).flatMap Term.parameters =
    (List.range' s.parameters ((ys.map s'.tree.term).flatMap Term.parameters).length).map Int.ofNat

variable {x : Term}

namespace Restored

theorem nil (hs : s.tree.Ordered) (hrest : s.rest = rest) : Restored R s rest [] [] s where
  rest := hrest
  ending := rfl
  ordered := hs
  ext := .refl _
  has := nofun
  alike := .nil
  count := rfl
  numbers := rfl

theorem absent (hs : s.tree.Ordered) (hrest : s.rest = rest) :
    Restored R s rest [.absent] [none] s where
  rest := hrest
  ending := rfl
  ordered := hs
  ext := .refl _
  has := List.forall_mem_singleton.mpr .absent
  alike := .cons .absent .nil
  count := by simp [Term.parameters]
  numbers := by simp [Term.parameters]

/-- Which tokens there were, and which was looked at, does not matter. -/
theorem moved (h : Restored R { s with rest := toks, seen } rest xs ys s') :
    Restored R s rest xs ys s' :=
  ⟨h.rest, h.ending, h.ordered, h.ext, h.has, h.alike, h.count, h.numbers⟩

theorem skip (h : Restored R s rest' xs ys s') (rest : List Token) (seen : Nat) :
    Restored R s rest xs ys { s' with rest, seen } :=
  ⟨rfl, h.ending, h.ordered, h.ext, h.has, h.alike, h.count, h.numbers⟩

theorem append (h : Restored R s rest' xs ys s') (h' : Restored R s' rest xs' ys' s'') :
    Restored R s rest (xs ++ xs') (ys ++ ys') s'' := by
  have hterms : ys.map s''.tree.term = ys.map s'.tree.term :=
    h'.ext.map_term_eq h.ordered h'.ordered h.has
  refine ⟨h'.rest, h'.ending.trans h.ending, h'.ordered, h.ext.trans h'.ext,
    List.forall_mem_append.mpr ⟨fun y hy => (h.has y hy).mono h'.ext, h'.has⟩, ?_, ?_, ?_⟩
  · rw [List.map_append, hterms]
    exact List.rel_append h.alike h'.alike
  · rw [h'.count, h.count, List.map_append, hterms, List.flatMap_append,
      List.length_append, Nat.add_assoc]
  · rw [List.map_append, hterms, List.flatMap_append, List.length_append,
      ← List.range'_append_1, List.map_append, ← h.count, ← h.numbers, ← h'.numbers]

theorem add (h : Restored R s rest xs ys s') (hparts : f.parts = ys) (hlabel : R f.label g)
    (hplain : f.isParameter = false) (span : Span) :
    Yields F s' (some <$> addNode f span) fun y s'' => Restored R s rest [.node g xs] [y] s'' := by
  subst hparts
  have hext := Tree.Extends.add s'.tree { form := f, span := some span }
  have hordered := Tree.ordered_add (n := { form := f, span := some span }) h.ordered h.has
  have hform := s'.tree.form?_add { form := f, span := some span }
  have hparts : f.parts.map (s'.tree.add { form := f, span := some span }).2.term =
      f.parts.map s'.tree.term :=
    hext.map_term_eq h.ordered hordered h.has
  have hterm : [some s'.tree.nodes.size].map (s'.tree.add { form := f, span := some span }).2.term =
      [.node f.label (f.parts.map s'.tree.term)] := by
    rw [← hparts]
    exact congrArg (fun x => [x]) (hordered.term_of_form? hform)
  have hnumbers : [Term.node f.label (f.parts.map s'.tree.term)].flatMap Term.parameters =
      (f.parts.map s'.tree.term).flatMap Term.parameters := by
    rw [List.flatMap_singleton, Term.parameters_node (f.isParameter_label.trans hplain)]
  refine .of_run run_addNode ⟨h.rest, h.ending, hordered,
    h.ext.trans hext, List.forall_mem_singleton.mpr (.of_form? hform), ?_, ?_, ?_⟩
  · rw [hterm]
    exact .cons (.node hlabel h.alike) .nil
  · rw [hterm, hnumbers]
    exact h.count
  · rw [hterm, hnumbers]
    exact h.numbers

theorem length_eq (h : Restored R s rest xs ys s') : ys.length = xs.length := by
  rw [← h.alike.length_eq, List.length_map]

theorem exists_node (h : Restored R s rest [x] [y] s') (hx : x.isAbsent = false) :
    ∃ i, y = some i := by
  cases y with
  | some i => exact ⟨i, rfl⟩
  | none =>
    cases h.alike with
    | cons h _ =>
      cases h
      cases hx

end Restored

/-- The reader takes the tokens of the term for a term like it. -/
def Restores (ops : Registry) (F : Prop) (R : Form → Form → Prop) (depth : Nat) (x : Term) : Prop :=
  ∀ (tok : Token) (toks rest : List Token) (s : ReadState),
    (tok :: toks).map Token.piece = x.pieces → s.rest = toks ++ rest →
    s.tree.Ordered → Yields F s (readExpr ops depth tok) fun y s' => Restored R s rest [x] [y] s'

/-! ### The first token -/

/-- The first token ends nothing and is no name of an operand. -/
def isBegun : List Piece → Bool
  | (k, _) :: _ => k != .closing && k != .closeList && k != .keyword && k != .eof
  | [] => false

theorem isBegun_leafPieces (h : f.isLeaf) : isBegun (leafPieces f) := by
  cases f with
  | call c => cases h
  | list l => cases h
  | identifier i =>
    rw [leafPieces, identifierPieces]
    split <;> rfl
  | literal l =>
    cases l with
    | char v =>
      rw [leafPieces, literalPieces]
      split
      · rfl
      · split <;> rfl
    | _ => rfl
  | _ => rfl

theorem isBegun_pieces (x : Term) : isBegun x.pieces := by
  cases x with
  | absent =>
    rw [Term.pieces]
    rfl
  | node f ps =>
    cases f with
    | call c =>
      rw [Term.pieces]
      rfl
    | list l =>
      rw [Term.pieces]
      rfl
    | _ =>
      rw [Term.pieces]
      · exact isBegun_leafPieces rfl
      all_goals rintro _ ⟨⟩

theorem exists_tokens (h : toks.map Token.piece = x.pieces ++ qs) : ∃ tok ts us,
      toks = tok :: (ts ++ us) ∧ (tok :: ts).map Token.piece = x.pieces ∧ us.map Token.piece = qs ∧
      tok.kind ≠ .closing ∧ tok.kind ≠ .closeList ∧ tok.kind ≠ .keyword ∧ tok.kind ≠ .eof := by
  have hbegun := isBegun_pieces x
  obtain ⟨ts, us, rfl, hts, hus⟩ := List.map_eq_append_iff.mp h
  rw [← hts] at hbegun
  cases ts with
  | nil => cases hbegun
  | cons tok ts =>
    simp only [List.map_cons, isBegun, Bool.and_eq_true, bne_iff_ne] at hbegun
    exact ⟨tok, ts, us, rfl, hts, hus, hbegun.1.1.1, hbegun.1.1.2, hbegun.1.2, hbegun.2⟩

theorem exists_token (h : toks.map Token.piece = p :: qs) :
    ∃ tok ts, toks = tok :: ts ∧ tok.kind = p.1 ∧ tok.text = p.2 ∧ ts.map Token.piece = qs := by
  obtain ⟨tok, ts, rfl, rfl, hts⟩ := List.map_eq_cons_iff.mp h
  exact ⟨tok, ts, rfl, rfl, rfl, hts⟩

theorem exists_last_token (h : toks.map Token.piece = [p]) :
    ∃ tok, toks = [tok] ∧ tok.kind = p.1 ∧ tok.text = p.2 := by
  obtain ⟨tok, _, rfl, hkind, htext, hnil⟩ := exists_token h
  exact ⟨tok, by rw [List.map_eq_nil_iff.mp hnil], hkind, htext⟩

/-! ### Lists -/

variable {ps : List Term}

theorem readItems_restores (hps : ∀ p ∈ ps, Restores ops F R depth p) (items : List Link)
    (htoks : toks.map Token.piece = (ps.map Term.pieces).flatten ++ [(.closeList, "]")])
    (hrest : s.rest = toks ++ rest) (hs : s.tree.Ordered) (hfuel : toks.length ≤ fuel) :
    Yields F s (readItems (readExpr ops depth) fuel items) fun r s' =>
      ∃ ys, r.1 = items ++ ys ∧ Restored R s rest ps ys s' := by
  induction ps generalizing fuel items toks s with
  | nil =>
    obtain ⟨tok, rfl, hkind, _⟩ := exists_last_token htoks
    cases fuel with
    | zero => cases hfuel
    | succ fuel =>
      rw [readItems]
      refine .next hrest ?_
      rw [hkind]
      exact ⟨[], (List.append_nil _).symm, Restored.moved (.nil hs rfl)⟩
  | cons p ps ih =>
    obtain ⟨hp, hps⟩ := List.forall_mem_cons.mp hps
    rw [List.map_cons, List.flatten_cons, List.append_assoc] at htoks
    obtain ⟨tok, ts, us, rfl, hts, hus, _, hkind, _⟩ := exists_tokens htoks
    rw [List.length_cons, List.length_append] at hfuel
    cases fuel with
    | zero => cases hfuel
    | succ fuel =>
      rw [readItems]
      refine .next hrest ?_
      split
      · rename_i h
        exact absurd h hkind
      · refine .bind (hp tok ts (us ++ rest) _ hts (List.append_assoc ..) hs) fun y s₁ h₁ => ?_
        refine (ih hps (items ++ [y]) hus h₁.rest h₁.ordered (by omega)).weaken ?_
        rintro r s₂ ⟨ys, hys, h₂⟩
        exact ⟨y :: ys, by rw [hys, List.append_assoc]; rfl, h₁.moved.append h₂⟩

theorem restores_list (hlabel : R (.list []) (.list []))
    (hps : ∀ p ∈ ps, Restores ops F R depth p) : Restores ops F R (depth + 1) (.list ps) := by
  intro tok toks rest s htoks hrest hs
  rw [pieces_list] at htoks
  obtain ⟨_, _, ⟨⟩, hkind, _, htoks⟩ := exists_token htoks
  rw [readExpr]
  rw [hkind]
  refine .bind_run rfl ?_
  refine .bind (readItems_restores hps [] htoks hrest hs ?_) ?_
  · rw [hrest, List.length_append]
    omega
  · rintro ⟨items, stop⟩ s₁ ⟨ys, rfl, h₁⟩
    exact h₁.add (f := .list _) rfl hlabel rfl _

/-! ### Calls -/

theorem readOperands_closing (operands : Operands)
    (htoks : toks.map Token.piece = [(.closing, ")")]) (hrest : s.rest = toks ++ rest)
    (hs : s.tree.Ordered) (hfuel : toks.length ≤ fuel) :
    Yields F s (readOperands (readExpr ops depth) fuel operands) fun r s' =>
      r.1 = operands ∧ Restored R s rest [] [] s' := by
  obtain ⟨tok, rfl, hkind, _⟩ := exists_last_token htoks
  cases fuel with
  | zero => cases hfuel
  | succ fuel =>
    rw [readOperands]
    refine .next hrest ?_
    rw [hkind]
    exact ⟨rfl, Restored.moved (.nil hs rfl)⟩

theorem readOperands_placed (hps : ∀ p ∈ ps, Restores ops F R depth p) (operands : Operands)
    (htoks : toks.map Token.piece = (ps.map Term.pieces).flatten ++ [(.closing, ")")])
    (hrest : s.rest = toks ++ rest)
    (hs : s.tree.Ordered) (hfuel : toks.length ≤ fuel) :
    Yields F s (readOperands (readExpr ops depth) fuel operands) fun r s' =>
      ∃ ys, r.1 = { operands with placed := operands.placed ++ ys } ∧
        Restored R s rest ps ys s' := by
  induction ps generalizing fuel operands toks s with
  | nil =>
    exact (readOperands_closing operands htoks hrest hs hfuel).weaken fun _ _ ⟨hr, h⟩ =>
      ⟨[], by rw [hr, List.append_nil], h⟩
  | cons p ps ih =>
    obtain ⟨hp, hps⟩ := List.forall_mem_cons.mp hps
    rw [List.map_cons, List.flatten_cons, List.append_assoc] at htoks
    obtain ⟨tok, ts, us, rfl, hts, hus, hclosing, _, hkeyword, _⟩ := exists_tokens htoks
    rw [List.length_cons, List.length_append] at hfuel
    cases fuel with
    | zero => cases hfuel
    | succ fuel =>
      rw [readOperands]
      refine .next hrest ?_
      split
      · rename_i h
        exact absurd h hclosing
      · rename_i h
        exact absurd h hkeyword
      · refine .bind (hp tok ts (us ++ rest) _ hts (List.append_assoc ..) hs) fun y s₁ h₁ => ?_
        refine (ih hps _ hus h₁.rest h₁.ordered (by omega)).weaken ?_
        rintro r s₂ ⟨ys, hys, h₂⟩
        exact ⟨y :: ys, by rw [hys, List.append_assoc]; rfl, h₁.moved.append h₂⟩

/-- The named operands are those of `ys` that are there, each with its name. -/
def Names (named : List NamedOperand) (slots : List String) (ys : List Link) : Prop :=
  named.map (fun o => (o.name, o.value)) = (slots.zip ys).filter (·.2.isSome)

theorem readOperands_named (hlen : ps.length = slots.length)
    (hlower : ∀ slot ∈ slots, Text.lower slot = slot)
    (hnodup : slots.Nodup) (hps : ∀ p ∈ ps, Restores ops F R depth p) (operands : Operands)
    (hnew : ∀ o ∈ operands.named, o.name ∉ slots) (htoks : toks.map Token.piece =
      slotPieces slots (ps.map fun p => if p.isAbsent then none else some p.pieces) ++
        [(.closing, ")")])
    (hrest : s.rest = toks ++ rest) (hs : s.tree.Ordered) (hfuel : toks.length ≤ fuel) :
    Yields F s (readOperands (readExpr ops depth) fuel operands) fun r s' =>
      ∃ ys named, r.1 = { operands with named := operands.named ++ named } ∧
        Names named slots ys ∧ Restored R s rest ps ys s' := by
  induction slots generalizing fuel operands toks ps s with
  | nil =>
    cases List.length_eq_zero_iff.mp hlen
    exact (readOperands_closing operands htoks hrest hs hfuel).weaken fun _ _ ⟨hr, h⟩ =>
      ⟨[], [], by rw [hr, List.append_nil], rfl, h⟩
  | cons slot slots ih =>
    obtain ⟨p, ps, rfl⟩ := List.exists_cons_of_length_eq_add_one hlen
    obtain ⟨hp, hps'⟩ := List.forall_mem_cons.mp hps
    obtain ⟨hslot, hlower⟩ := List.forall_mem_cons.mp hlower
    obtain ⟨hfresh, hnodup⟩ := List.nodup_cons.mp hnodup
    have hlen' : ps.length = slots.length := Nat.succ.inj hlen
    have hnew' : ∀ o ∈ operands.named, o.name ∉ slots :=
      fun o ho h => hnew o ho (List.mem_cons_of_mem _ h)
    cases p with
    | absent =>
      -- nothing is written for an operand that is not there
      refine (ih hlen' hlower hnodup hps' operands hnew' htoks hrest hs hfuel).weaken ?_
      rintro r s₁ ⟨ys, named, hr, hnamed, h₁⟩
      exact ⟨none :: ys, named, hr, hnamed, (Restored.absent hs hrest).append h₁⟩
    | node f qs =>
      rw [List.map_cons, Term.isAbsent, if_neg Bool.false_ne_true, slotPieces,
        List.cons_append, List.append_assoc] at htoks
      obtain ⟨keyword, ts, rfl, hkind, htext, htoks⟩ := exists_token htoks
      obtain ⟨tok, ts, us, rfl, hts, hus, _⟩ := exists_tokens htoks
      rw [List.length_cons, List.length_cons, List.length_append] at hfuel
      cases fuel with
      | zero => cases hfuel
      | succ fuel =>
        have hname : Text.lower keyword.text = slot := by rw [htext, hslot]
        rw [readOperands]
        refine .next hrest ?_
        rw [hkind]
        refine .next rfl ?_
        refine .bind (hp tok ts (us ++ rest) _ hts (List.append_assoc ..) hs) fun y s₁ h₁ => ?_
        obtain ⟨i, rfl⟩ := h₁.exists_node rfl
        refine .ite (fun hdup => ?_) fun _ => ?_
        · obtain ⟨o, ho, heq⟩ := List.any_eq_true.mp hdup
          rw [beq_iff_eq, hname] at heq
          exact absurd (heq ▸ List.mem_cons_self) (hnew o ho)
        · refine (ih hlen' hlower hnodup hps' _ ?_ hus h₁.rest h₁.ordered (by omega)).weaken ?_
          · refine List.forall_mem_append.mpr ⟨hnew', List.forall_mem_singleton.mpr ?_⟩
            rw [hname]
            exact hfresh
          · rintro r s₂ ⟨ys, named, hr, hnamed, h₂⟩
            refine ⟨some i :: ys, _ :: named,
              by rw [hr, List.append_assoc]; rfl, ?_, h₁.moved.moved.append h₂⟩
            rw [Names, List.map_cons, hname, hnamed]
            rfl

theorem run_fillSlots (hnodup : o.slots.Nodup) (done : List String)
    (hslots : o.slots = done ++ slots) (out : List Link) (hout : out.length = done.length)
    (hlen : ys.length = slots.length) (hnamed : Names named slots ys) (s : ReadState) :
    fillSlots o named (out ++ List.replicate slots.length none) s = .ok (out ++ ys, s) := by
  induction slots generalizing done out named ys with
  | nil =>
    cases List.length_eq_zero_iff.mp hlen
    cases List.map_eq_nil_iff.mp hnamed
    rfl
  | cons slot slots ih =>
    obtain ⟨y, ys, rfl⟩ := List.exists_cons_of_length_eq_add_one hlen
    have hlen := Nat.succ.inj hlen
    have hslots' : o.slots = (done ++ [slot]) ++ slots := by rw [hslots, List.append_assoc]; rfl
    have hstep {named : List NamedOperand} (h : Names named slots ys) :
        fillSlots o named (out ++ y :: List.replicate slots.length none) s =
        .ok (out ++ y :: ys, s) := by
      have := ih _ hslots' (out ++ [y]) (by simp [hout]) hlen h
      simpa only [List.append_assoc, List.singleton_append] using this
    cases y with
    | none => exact hstep hnamed
    | some i =>
      obtain ⟨operand, named, rfl, hoperand, hnamed⟩ := List.map_eq_cons_iff.mp hnamed
      obtain ⟨hname, hvalue⟩ := Prod.mk.inj hoperand
      have hfresh : slot ∉ done := by
        rw [hslots] at hnodup
        exact fun h => (List.disjoint_of_nodup_append hnodup) h List.mem_cons_self
      have hplace : o.slot? operand.name = some out.length := by
        rw [Operator.slot?, hname, hslots, hout, List.findIdx?_append,
          List.findIdx?_eq_none_iff.mpr, List.findIdx?_cons]
        · simp
        · intro name hmem
          exact beq_false_of_ne fun heq => hfresh (heq ▸ hmem)
      have hset : (out ++ List.replicate (slot :: slots).length none).set out.length operand.value =
          out ++ some i :: List.replicate slots.length none := by
        rw [List.set_append_right _ _ (Nat.le_refl _), Nat.sub_self, hvalue]
        rfl
      rw [fillSlots, hplace]
      dsimp only
      rw [hset]
      exact hstep hnamed

theorem run_placeOperands (hnodup : o.slots.Nodup) (hlen : ys.length = o.slots.length)
    (hnamed : Names named o.slots ys) : placeOperands o { named } s = .ok (ys, s) := by
  have hfill := run_fillSlots hnodup [] rfl [] rfl hlen hnamed s
  cases named with
  | nil => exact hfill
  | cons operand named => exact hfill

theorem restores_call (hlabel : ∀ o o' : Operator, o'.unplaced = o.unplaced →
      R (.call { operator := o', operands := [] }) (.call { operator := o, operands := [] }))
    (ho : Rebinds ops o ps.length) (hps : ∀ p ∈ ps, Restores ops F R depth p) :
    Restores ops F R (depth + 1) (.call o ps) := by
  intro tok toks rest s htoks hrest hs
  rw [pieces_call] at htoks
  obtain ⟨_, _, ⟨⟩, hkind, _, htoks⟩ := exists_token htoks
  obtain ⟨head, toks, rfl, hword, htext, htoks⟩ := exists_token htoks
  have hunplaced {o' : Operator} (h : o'.unplaced = o.unplaced) : o'.slots = o.slots :=
    show o'.unplaced.slots = o.unplaced.slots from congrArg Operator.slots h
  rw [readExpr]
  rw [hkind]
  refine .next hrest (.ite (fun h => absurd hword h) fun _ => .bind_run rfl ?_)
  have hfuel : toks.length ≤ (toks ++ rest).length + 1 := by
    rw [List.length_append]
    omega
  by_cases hslots : o.slots = []
  · rw [hslots] at htoks
    refine .bind (readOperands_placed hps {} htoks rfl hs hfuel) ?_
    rintro ⟨operands, stop⟩ s₁ ⟨ys, rfl, h₁⟩
    have hbound : BoundTo ops head.text ys.length false o := by
      rw [htext, h₁.length_eq]
      exact ho.placed hslots
    obtain ⟨o', hrun, ho'⟩ := bindOperator_of_boundTo hbound
    have hplaced : placeOperands o' { placed := ys } s₁ = .ok (ys, s₁) := by
      rw [placeOperands, hunplaced ho', hslots, List.length_nil, Nat.zero_sub,
        List.replicate_zero, List.append_nil]
      rfl
    refine .bind_run hrun (.bind_run hplaced ?_)
    exact h₁.moved.add (f := .call { operator := o', operands := ys }) rfl (hlabel o o' ho') rfl _
  · obtain ⟨hlen, hnamedBound, hbound⟩ := ho.named hslots
    rw [if_neg (by simpa using hslots)] at htoks
    refine .bind (readOperands_named hlen ho.lower ho.nodup hps {} (List.forall_mem_nil _)
      htoks rfl hs hfuel) ?_
    rintro ⟨operands, stop⟩ s₁ ⟨ys, named, rfl, hnamed, h₁⟩
    have hbound : BoundTo ops head.text 0 (!named.isEmpty) o := by
      rw [htext]
      cases named with
      | nil => exact hbound
      | cons operand named => exact hnamedBound
    obtain ⟨o', hrun, ho'⟩ := bindOperator_of_boundTo hbound
    have hsame := hunplaced ho'
    have hplaced : placeOperands o' { named } s₁ = .ok (ys, s₁) :=
      run_placeOperands (hsame ▸ ho.nodup) (by rw [h₁.length_eq, hlen, hsame]) (hsame ▸ hnamed)
    refine .bind_run hrun (.bind_run hplaced ?_)
    exact h₁.moved.add (f := .call { operator := o', operands := ys }) rfl (hlabel o o' ho') rfl _

/-! ### Terms -/

/-- A node whose tokens are read again, if those of its parts are: a call that is bound again, a
list, or a leaf for which `L` holds. -/
def Restorable (ops : Registry) (L : Form → Prop) : Form → List Term → Prop
  | .call c, ps => c.operands = [] ∧ Rebinds ops c.operator ps.length
  | .list l, _ => l = []
  | f, ps => ps = [] ∧ L f

theorem restores_absent : Restores ops F R (depth + 1) .absent := by
  intro tok toks rest s htoks hrest hs
  rw [Term.pieces] at htoks
  obtain ⟨_, _, ⟨⟩, hkind, htext, hnil⟩ := exists_token htoks
  cases List.map_eq_nil_iff.mp hnil
  rw [readExpr, hkind]
  rw [readWord, htext]
  exact Restored.absent hs hrest

theorem length_slotPieces (hlen : ps.length = slots.length)
    (hp : p ∈ ps) (hpresent : p.isAbsent = false) : p.pieces.length ≤
      (slotPieces slots (ps.map fun p => if p.isAbsent then none else some p.pieces)).length := by
  induction slots generalizing ps with
  | nil =>
    cases List.length_eq_zero_iff.mp hlen
    cases hp
  | cons slot slots ih =>
    obtain ⟨q, ps, rfl⟩ := List.exists_cons_of_length_eq_add_one hlen
    have hlen := Nat.succ.inj hlen
    rcases List.mem_cons.mp hp with rfl | hp
    · simp only [List.map_cons, hpresent, Bool.false_eq_true, if_false,
        slotPieces, List.length_cons, List.length_append]
      omega
    · have hle := ih hlen hp
      cases hq : q.isAbsent with
      | true => simpa only [List.map_cons, hq, if_true, slotPieces] using hle
      | false =>
        simp only [List.map_cons, hq, Bool.false_eq_true, if_false, slotPieces,
          List.length_cons, List.length_append]
        omega

theorem length_flatten (hp : p ∈ ps) : p.pieces.length ≤ ((ps.map Term.pieces).flatten).length :=
  (List.sublist_flatten_of_mem (List.mem_map_of_mem hp)).length_le

theorem length_pieces_pos (x : Term) : 0 < x.pieces.length := by
  have hbegun := isBegun_pieces x
  cases h : x.pieces with
  | nil =>
    rw [h] at hbegun
    cases hbegun
  | cons p ps => exact Nat.succ_pos _

theorem length_call (ho : Rebinds ops o ps.length) (hp : p ∈ ps) :
    p.pieces.length < (Term.call o ps).pieces.length := by
  rw [pieces_call]
  simp only [List.length_cons, List.length_append]
  split
  · have := length_flatten hp
    omega
  · rename_i hslots
    obtain ⟨hlen, _⟩ := ho.named (by simpa using hslots)
    cases habsent : p.isAbsent with
    | true =>
      rw [Term.isAbsent_iff.mp habsent, Term.pieces, List.length_singleton]
      omega
    | false =>
      have := length_slotPieces hlen hp habsent
      omega

theorem length_list (hp : p ∈ ps) : p.pieces.length < (Term.list ps).pieces.length := by
  rw [pieces_list]
  have := length_flatten hp
  simp only [List.length_cons, List.length_append]
  omega

/-- What `R` has to relate besides leaves. -/
structure Lenient (R : Form → Form → Prop) : Prop where
  call : ∀ o o' : Operator, o'.unplaced = o.unplaced →
    R (.call { operator := o', operands := [] }) (.call { operator := o, operands := [] })
  list : R (.list []) (.list [])

/-- The tokens of a term are read as a term like it, if those of its leaves are. -/
theorem restores (hR : Lenient R) (hleaf : ∀ f depth, L f → f.isLeaf →
    (leafPieces f).length ≤ depth → Restores ops F R depth (.node f []))
    (hx : x.Every (Restorable ops L)) (hdepth : x.pieces.length ≤ depth) :
    Restores ops F R depth x := by
  induction x generalizing depth with
  | absent =>
    cases depth with
    | zero => exact absurd (length_pieces_pos .absent) (by omega)
    | succ depth => exact restores_absent
  | node f ps ih =>
    cases depth with
    | zero => exact absurd (length_pieces_pos (.node f ps)) (by omega)
    | succ depth =>
      cases f with
      | call c =>
        obtain ⟨o, operands⟩ := c
        obtain ⟨rfl, ho⟩ := hx.here
        refine restores_call hR.call ho fun p hp => ih p hp (hx.under p hp) ?_
        exact Nat.le_of_lt_succ (Nat.lt_of_lt_of_le (length_call ho hp) hdepth)
      | list l =>
        obtain rfl := hx.here
        refine restores_list hR.list fun p hp => ih p hp (hx.under p hp) ?_
        exact Nat.le_of_lt_succ (Nat.lt_of_lt_of_le (length_list hp) hdepth)
      | _ =>
        obtain ⟨rfl, hf⟩ := hx.here
        refine hleaf _ _ hf rfl ?_
        rwa [← pieces_leaf rfl []]

end Script

end SqlAnalysis

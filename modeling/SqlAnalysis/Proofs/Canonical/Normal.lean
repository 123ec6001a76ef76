import SqlAnalysis.Operator.Standard
import SqlAnalysis.Proofs.Tree.Term

/-!
The canonical form of terms. Sharing aside, the canonical form of a statement is a function of the
term that the statement stands for. A term is normal if no rule of the canonical form changes it;
the canonical form of a term is normal, and that of a normal term is the term itself.
-/

namespace SqlAnalysis

namespace Term

/-- Every node in the term satisfies `P`, which may speak of its label and its parts. -/
inductive Every (P : Form → List Term → Prop) : Term → Prop where
  | absent : Every P .absent
  | node {label : Form} {parts : List Term} (here : P label parts) (under : ∀ p ∈ parts,
    Every P p) : Every P (.node label parts)

namespace Every

theorem here (h : Every P (.node label ps)) : P label ps := by cases h; assumption

theorem under (h : Every P (.node label ps)) : ∀ p ∈ ps, Every P p := by cases h; assumption

theorem termAt (h : ∀ p ∈ ps, Every P p) (k : Nat) : Every P (termAt ps k) := by
  unfold SqlAnalysis.termAt
  cases hk : ps[k]? with
  | none => exact .absent
  | some p => exact h p (List.mem_of_getElem? hk)

theorem items (h : Every P x) : ∀ p ∈ x.items, Every P p := by
  intro p hp
  cases x with
  | absent => cases hp
  | node label ps =>
    cases label with
    | list _ => exact h.under p hp
    | _ => cases hp

theorem imp (h : Every P x) (hP : ∀ label ps, P label ps → P' label ps) : Every P' x := by
  induction h with
  | absent => exact .absent
  | node here _ ih => exact .node (hP _ _ here) ih

theorem of_forall (h : ∀ label ps, P label ps) (x : Term) : Every P x := by
  induction x with
  | absent => exact .absent
  | node label ps ih => exact .node (h label ps) ih

end Every

theorem Every.of_forms {t : Tree} (ht : t.Ordered)
    (h : ∀ i f, t.Spans x i → t.form? (some i) = some f → P f.label (f.parts.map t.term)) :
    Every P (t.term x) := by
  cases x with
  | none => exact .absent
  | some i =>
    induction i using Nat.strong_induction_on with
    | _ i ih =>
      cases hf : t.form? (some i) with
      | none => exact Tree.term_of_form?_eq_none hf ▸ .absent
      | some f =>
        rw [ht.term_of_form? hf]
        refine .node (h i f .refl hf) fun p hp => ?_
        obtain ⟨y, hy, rfl⟩ := List.mem_map.mp hp
        cases y with
        | none => exact .absent
        | some j => exact ih j (ht i j ⟨f, hf, hy⟩) fun l g hl => h l g (.head ⟨f, hf, hy⟩ hl)

def isAbsent : Term → Bool
  | .absent => true
  | .node _ _ => false

@[simp] theorem isAbsent_iff {x : Term} : x.isAbsent ↔ x = .absent := by cases x <;> simp [isAbsent]

end Term

theorem eq_termAt_append_drop_four (h : 4 ≤ ps.length) :
    ps = [termAt ps 0, termAt ps 1, termAt ps 2, termAt ps 3] ++ ps.drop 4 := by
  obtain ⟨a, b, c, d, rest, rfl⟩ : ∃ a b c d rest, ps = a :: b :: c :: d :: rest := by
    match ps, h with
    | a :: b :: c :: d :: rest, _ => exact ⟨a, b, c, d, rest, rfl⟩
  rfl

theorem eq_termAt_append_drop_six (h : 6 ≤ ps.length) : ps = [termAt ps 0,
      termAt ps 1, termAt ps 2, termAt ps 3, termAt ps 4, termAt ps 5] ++ ps.drop 6 := by
  obtain ⟨a, b, c, d, e, f, rest, rfl⟩ : ∃ a b c d e f rest,
    ps = a :: b :: c :: d :: e :: f :: rest := by
    match ps, h with
    | a :: b :: c :: d :: e :: f :: rest, _ => exact ⟨a, b, c, d, e, f, rest, rfl⟩
  rfl

namespace Canonical

section Rules

variable (v : Vocabulary)

def blockTerm (list source condition order : Term) : Term :=
  .call v.select [.absent, list, source, condition, .absent, .absent, .absent, order]

def star : Term := .identifier ["*"]

def selectAllTerm (source order : Term) : Term := blockTerm v (.list [star]) source .absent order

def orderedTerm (query order : Term) : Term :=
  match query with
  | .node (.call c) ps =>
    if c.kind = .select ∧ (termAt ps 7).isAbsent then
      .call c.operator ([termAt ps 0, termAt ps 1, termAt ps 2, termAt ps 3,
        termAt ps 4, termAt ps 5, termAt ps 6, order] ++ ps.drop 8)
    else selectAllTerm v query order
  | _ => selectAllTerm v query order

theorem orderedTerm_call (o : Operator) (ps : List Term) (order : Term) :
    orderedTerm v (.call o ps) order =
      if o.kind = .select ∧ (termAt ps 7).isAbsent then
        .call o ([termAt ps 0, termAt ps 1, termAt ps 2, termAt ps 3, termAt ps 4,
          termAt ps 5, termAt ps 6, order] ++
          ps.drop 8) else selectAllTerm v (.call o ps) order :=
  rfl

theorem orderedTerm_of_operator?_eq_none {query : Term} (h : query.operator? = none)
    (order : Term) : orderedTerm v query order = selectAllTerm v query order := by
  unfold orderedTerm
  split
  · cases h
  · rfl

def targetTerm (table name : Term) : Term :=
  if name.isAbsent then table else .call v.naming [table, name]

def deletedRowsTerm (table condition name : Term) : Term :=
  blockTerm v (.list [star]) (targetTerm v table name) condition .absent

def assignmentTerms : Nat → List Term → List Term
  | _, [] => []
  | k, source :: rest =>
    .call v.naming [source, .identifier ["EXPR$" ++ Number.natText k]] ::
      assignmentTerms (k + 1) rest

def updatedRowsTerm (table sources condition name : Term) : Term :=
  blockTerm v (.list (star :: assignmentTerms v 0 sources.items)) (targetTerm v table name)
    condition .absent

def testTerms (value : Term) (whens : List Term) : List Term :=
  whens.map fun w => .call v.equals [value, w]

/-- The canonical form of a call of terms that are canonical already. -/
def callTerm (o : Operator) (ps : List Term) (top : Bool) : Term :=
  match o.kind with
  | .orderBy => orderedTerm v (termAt ps 0) (termAt ps 1)
  | .explicitTable => selectAllTerm v (termAt ps 0) .absent
  | .values | .union | .except | .intersect =>
    if top then selectAllTerm v (.call o ps) .absent else .call o ps
  | .insert => .call o ([termAt ps 0, termAt ps 1, termAt ps 2, termAt ps 1] ++ ps.drop 4)
  | .delete =>
    .call o ([termAt ps 0, termAt ps 1, termAt ps 2,
      deletedRowsTerm v (termAt ps 0) (termAt ps 1) (termAt ps 2)] ++ ps.drop 4)
  | .update =>
    .call o ([termAt ps 0, termAt ps 1, termAt ps 2, termAt ps 3, termAt ps 4,
      updatedRowsTerm v (termAt ps 0) (termAt ps 2) (termAt ps 3) (termAt ps 4)] ++ ps.drop 6)
  | .caseOf =>
    if (termAt ps 0).isAbsent then .call o ps
    else
      .call o (([.absent, .list (testTerms v (termAt ps 0) (termAt ps 1).items),
        termAt ps 2, termAt ps 3] ++ ps.drop 4).take ps.length)
  | _ => .call o ps

def paddedTerms (slots : List String) (ps : List Term) : List Term :=
  ps ++ List.replicate (slots.length - ps.length) .absent

/-- The canonical form of a term; `top` says that it is the whole statement. -/
def canonicalTerm (ops : Registry) (top : Bool) : Term → Term
  | .absent => .absent
  | .node (.call c) ps =>
    callTerm v (bound ops c.operator)
      (paddedTerms c.operator.slots (ps.map (canonicalTerm ops false))) top
  | .node label ps => .node label (ps.map (canonicalTerm ops false))

theorem canonicalTerm_of_ne_call (h : ∀ c, label ≠ .call c) (ops : Registry)
    (top : Bool) (ps : List Term) : canonicalTerm v ops top (.node label ps) =
      .node label (ps.map (canonicalTerm v ops false)) := by
  cases label with
  | call c => exact absurd rfl (h c)
  | _ =>
    rw [canonicalTerm]
    exact h

/-- No rule of the canonical form applies to a call, or the one that applies has nothing to
change. -/
def SettledCall (o : Operator) (ps : List Term) : Prop :=
  match o.kind with
  | .orderBy | .explicitTable => False
  | .insert => 4 ≤ ps.length ∧ termAt ps 3 = termAt ps 1
  | .delete => 4 ≤ ps.length ∧
    termAt ps 3 = deletedRowsTerm v (termAt ps 0) (termAt ps 1) (termAt ps 2)
  | .update =>
    6 ≤ ps.length ∧
      termAt ps 5 = updatedRowsTerm v (termAt ps 0) (termAt ps 2) (termAt ps 3) (termAt ps 4)
  | .caseOf => termAt ps 0 = .absent
  | _ => True

def Settled (ops : Registry) (label : Form) (ps : List Term) : Prop :=
  ∀ c, label = .call c → c.operands = [] ∧ bound ops c.operator = c.operator ∧
    c.operator.slots.length ≤ ps.length ∧ SettledCall v c.operator ps

abbrev Normal (ops : Registry) : Term → Prop := Term.Every (Settled v ops)

/-- A query that is not a block; as a whole statement it is put into one. -/
def isBare (k : Kind) : Bool :=
  match k with
  | .values | .union | .except | .intersect => true
  | _ => false

end Rules

/-- What the canonical form asks of a registry: its operators are bound, functions have no named
operands, and blocks, names and comparisons have no more named operands than they are given. -/
structure Regular (ops : Registry) : Prop where
  resolved : ∀ o ∈ ops.operators, o.isUnresolved = false
  functions : ∀ o ∈ ops.operators, Registry.formMatches .function o.form → o.slots = []
  selects : ∀ o ∈ ops.operators, o.kind = .select → o.slots.length ≤ 8
  pairs : ∀ o ∈ ops.operators, o.kind = .naming ∨ o.kind = .equals → o.slots.length ≤ 2

theorem regular_standard : Regular .standard where
  resolved := by decide
  functions := by decide
  selects := by decide
  pairs := by decide

variable {v : Vocabulary} {ops : Registry}

theorem bound_eq_or_mem (ops : Registry) (o : Operator) : bound ops o = o ∨
      bound ops o ∈ ops.operators ∧ Registry.formMatches .function (bound ops o).form := by
  unfold bound
  split
  · split
    · rename_i only h
      have hmem : only ∈ ops.lookup o.name .function := h ▸ List.mem_singleton.mpr rfl
      obtain ⟨hover, hform⟩ := List.mem_filter.mp hmem
      exact .inr ⟨(List.mem_filter.mp hover).1, hform⟩
    · exact .inl rfl
  · exact .inl rfl

theorem bound_of_resolved (h : o.isUnresolved = false) : bound ops o = o := by
  rw [bound, if_neg (by simp [h])]

theorem bound_bound (hops : Regular ops) (o : Operator) :
    bound ops (bound ops o) = bound ops o := by
  obtain h | ⟨hmem, _⟩ := bound_eq_or_mem ops o
  · rw [h, h]
  · exact bound_of_resolved (hops.resolved _ hmem)

theorem slots_bound_le (hops : Regular ops) :
    (bound ops o).slots.length ≤ (paddedTerms o.slots ps).length := by
  have hlen : (paddedTerms o.slots ps).length = ps.length + (o.slots.length - ps.length) := by
    simp only [paddedTerms, List.length_append, List.length_replicate]
  obtain h | ⟨hmem, hform⟩ := bound_eq_or_mem ops o
  · rw [h, hlen]
    omega
  · rw [hops.functions _ hmem hform]
    exact Nat.zero_le _

/-- The operators that the canonical form is written with are those of the registry. -/
structure Vocabulary.Fits (v : Vocabulary) (ops : Registry) : Prop where
  select : v.select ∈ ops.operators ∧ v.select.kind = .select
  naming : v.naming ∈ ops.operators ∧ v.naming.kind = .naming
  equals : v.equals ∈ ops.operators ∧ v.equals.kind = .equals

theorem mem_of_ofKind? (h : ops.ofKind? k = some o) : o ∈ ops.operators ∧ o.kind = k :=
  ⟨List.mem_of_find?_eq_some h, by simpa using List.find?_some h⟩

theorem Vocabulary.fits_of_ofRegistry (h : Vocabulary.ofRegistry ops = .ok v) : v.Fits ops := by
  unfold Vocabulary.ofRegistry at h
  dsimp only at h
  cases hs : ops.ofKind? .select with
  | none => rw [hs] at h; cases h
  | some select =>
    cases hn : ops.ofKind? .naming with
    | none => rw [hs, hn] at h; cases h
    | some naming =>
      cases he : ops.ofKind? .equals with
      | none => rw [hs, hn, he] at h; cases h
      | some equals =>
        rw [hs, hn, he] at h
        cases h
        exact ⟨mem_of_ofKind? hs, mem_of_ofKind? hn, mem_of_ofKind? he⟩

section Written

/-- What is true of all lists and names, and of all blocks, aliases and tests that the canonical
form is written with. -/
structure Writes (v : Vocabulary) (Q : Form → List Term → Prop) : Prop where
  list : ∀ items, Q (.list []) items
  identifier : ∀ names, Q (.identifier { names }) []
  block : ∀ ps, ps.length = 8 → Q (.call { operator := v.select, operands := [] }) ps
  pair : ∀ o ps, o = v.naming ∨ o = v.equals → ps.length = 2 →
    Q (.call { operator := o, operands := [] }) ps
  reorder : ∀ c ps ps', c.kind = .select → ps.length ≤ ps'.length → Q (.call c) ps →
    Q (.call { operator := c.operator, operands := [] }) ps'

variable (hQ : Writes v Q)
include hQ

theorem every_block {list source condition order : Term} (hl : list.Every Q)
    (hs : source.Every Q) (hc : condition.Every Q) (ho : order.Every Q) :
    (blockTerm v list source condition order).Every Q := by
  refine .node (hQ.block _ rfl) ?_
  simp only [List.forall_mem_cons, List.not_mem_nil, false_implies, implies_true, and_true]
  exact ⟨.absent, hl, hs, hc, .absent, .absent, .absent, ho⟩

theorem every_pair (ho : o = v.naming ∨ o = v.equals) (hx : x.Every Q) (hy : y.Every Q) :
    (Term.call o [x, y]).Every Q :=
  .node (hQ.pair o _ ho rfl) (List.forall_mem_cons.mpr ⟨hx, List.forall_mem_singleton.mpr hy⟩)

theorem every_identifier (names : List String) : (Term.identifier names).Every Q :=
  .node (hQ.identifier names) nofun

theorem every_selectAll {source order : Term} (hs : source.Every Q) (ho : order.Every Q) :
    (selectAllTerm v source order).Every Q :=
  every_block hQ (.node (hQ.list _) (List.forall_mem_singleton.mpr (every_identifier hQ _)))
    hs .absent ho

theorem every_ordered {query order : Term} (hq : query.Every Q) (ho : order.Every Q) :
    (orderedTerm v query order).Every Q := by
  unfold orderedTerm
  split
  · split
    · rename_i h
      refine .node (hQ.reorder _ _ _ h.1 ?_ hq.here) ?_
      · simp only [List.length_append, List.length_cons, List.length_drop]
        omega
      · simp only [List.forall_mem_append, List.forall_mem_cons, List.not_mem_nil,
          false_implies, implies_true, and_true]
        have hat := Term.Every.termAt hq.under
        exact ⟨⟨hat 0, hat 1, hat 2, hat 3, hat 4, hat 5, hat 6, ho⟩,
          fun p hp => hq.under p (List.mem_of_mem_drop hp)⟩
    · exact every_selectAll hQ hq ho
  · exact every_selectAll hQ hq ho

theorem every_target {table name : Term} (ht : table.Every Q) (hn : name.Every Q) :
    (targetTerm v table name).Every Q := by
  unfold targetTerm
  split
  · exact ht
  · exact every_pair hQ (.inl rfl) ht hn

theorem every_assignments (h : ∀ p ∈ sources, p.Every Q) (k : Nat) :
    ∀ p ∈ assignmentTerms v k sources, p.Every Q := by
  induction sources generalizing k with
  | nil => exact nofun
  | cons source rest ih =>
    obtain ⟨hsource, hrest⟩ := List.forall_mem_cons.mp h
    exact List.forall_mem_cons.mpr ⟨every_pair hQ (.inl rfl) hsource (every_identifier hQ _),
      ih hrest (k + 1)⟩

theorem every_callTerm (ho : ∀ qs, ps.length ≤ qs.length → SettledCall v o qs →
    Q (.call { operator := o, operands := [] }) qs)
    (hps : ∀ p ∈ ps, p.Every Q) (top : Bool) : (callTerm v o ps top).Every Q := by
  have hat := Term.Every.termAt hps
  have hdrop (k : Nat) : ∀ p ∈ ps.drop k, p.Every Q := fun p hp => hps p (List.mem_of_mem_drop hp)
  have hstar : star.Every Q := every_identifier hQ _
  have hbare (hk : SettledCall v o ps) :
      (if top = true then selectAllTerm v (.call o ps) .absent else .call o ps).Every Q := by
    have hcall : (Term.call o ps).Every Q := .node (ho ps (Nat.le_refl _) hk) hps
    split
    · exact every_selectAll hQ hcall .absent
    · exact hcall
  have hchange {qs : List Term} {k : Nat} (hqs : ∀ p ∈ qs, p.Every Q) (hlen : k = qs.length)
      (hk : SettledCall v o (qs ++ ps.drop k)) :
      (Term.call o (qs ++ ps.drop k)).Every Q := by
    refine .node (ho _ ?_ hk) (List.forall_mem_append.mpr ⟨hqs, hdrop k⟩)
    rw [List.length_append, List.length_drop]
    omega
  unfold callTerm
  split
  · exact every_ordered hQ (hat 0) (hat 1)
  · exact every_selectAll hQ (hat 0) .absent
  iterate 4
    rename_i hk
    exact hbare (by simp only [SettledCall, hk])
  · rename_i hk
    refine hchange ?_ rfl ?_
    · simp only [List.forall_mem_cons, List.not_mem_nil, false_implies, implies_true, and_true]
      exact ⟨hat 0, hat 1, hat 2, hat 1⟩
    · simp only [SettledCall, hk]
      exact ⟨by simp, rfl⟩
  · rename_i hk
    have hrows : (deletedRowsTerm v (termAt ps 0) (termAt ps 1) (termAt ps 2)).Every Q :=
      every_block hQ (.node (hQ.list _) (List.forall_mem_singleton.mpr hstar))
        (every_target hQ (hat 0) (hat 2)) (hat 1) .absent
    refine hchange ?_ rfl ?_
    · simp only [List.forall_mem_cons, List.not_mem_nil, false_implies, implies_true, and_true]
      exact ⟨hat 0, hat 1, hat 2, hrows⟩
    · simp only [SettledCall, hk]
      exact ⟨by simp, rfl⟩
  · rename_i hk
    have hrows : (updatedRowsTerm v (termAt ps 0) (termAt ps 2) (termAt ps 3) (termAt ps 4)).Every
        Q :=
      every_block hQ (.node (hQ.list _) (List.forall_mem_cons.mpr ⟨hstar,
        every_assignments hQ (hat 2).items 0⟩)) (every_target hQ (hat 0) (hat 4)) (hat 3) .absent
    refine hchange ?_ rfl ?_
    · simp only [List.forall_mem_cons, List.not_mem_nil, false_implies, implies_true, and_true]
      exact ⟨hat 0, hat 1, hat 2, hat 3, hat 4, hrows⟩
    · simp only [SettledCall, hk]
      exact ⟨by simp, rfl⟩
  · rename_i hk
    split
    · rename_i hvalue
      refine .node (ho ps (Nat.le_refl _) ?_) hps
      simp only [SettledCall, hk]
      exact Term.isAbsent_iff.mp hvalue
    · have htests : ∀ q ∈ testTerms v (termAt ps 0) (termAt ps 1).items, q.Every Q := by
        intro q hq
        obtain ⟨w, hw, rfl⟩ := List.mem_map.mp hq
        exact every_pair hQ (.inr rfl) (hat 0) ((hat 1).items w hw)
      refine .node (ho _ ?_ ?_) fun p hp => (?_ : ∀ q ∈ _, q.Every Q) p (List.mem_of_mem_take hp)
      · simp only [List.length_take, List.length_append, List.length_cons, List.length_drop]
        omega
      · simp only [SettledCall, hk]
        cases ps <;> rfl
      · simp only [List.forall_mem_append, List.forall_mem_cons, List.not_mem_nil,
          false_implies, implies_true, and_true]
        exact ⟨⟨.absent, .node (hQ.list _) htests, hat 2, hat 3⟩, hdrop 4⟩
  · refine .node (ho ps (Nat.le_refl _) ?_) hps
    -- the kinds with a rule of their own are done
    unfold SettledCall
    split
    any_goals contradiction
    trivial

theorem every_canonicalTerm
    (ho : ∀ o ps qs, (paddedTerms o.slots ps).length ≤ qs.length → SettledCall v (bound ops o) qs →
      Q (.call { operator := bound ops o, operands := [] }) qs)
    (hx : x.Every fun label _ => (∀ c, label ≠ .call c) → ∀ ps, Q label ps)
      (top : Bool) : (canonicalTerm v ops top x).Every Q := by
  induction x generalizing top with
  | absent => rw [canonicalTerm]; exact .absent
  | node label ps ih =>
    have hps : ∀ p ∈ ps.map (canonicalTerm v ops false), p.Every Q := by
      intro p hp
      obtain ⟨q, hq, rfl⟩ := List.mem_map.mp hp
      exact ih q hq (hx.under q hq) false
    by_cases hlabel : ∃ c, label = .call c
    · obtain ⟨c, rfl⟩ := hlabel
      rw [canonicalTerm]
      refine every_callTerm hQ (ho _ _) (fun p hp => ?_) top
      obtain hp | hp := List.mem_append.mp hp
      · exact hps p hp
      · rw [List.eq_of_mem_replicate hp]
        exact .absent
    · rw [canonicalTerm_of_ne_call v (fun c hc => hlabel ⟨c, hc⟩)]
      exact .node (hx.here (fun c hc => hlabel ⟨c, hc⟩) _) hps

end Written

section Normal

variable (hops : Regular ops) (hv : v.Fits ops)
include hops hv

theorem writes_settled : Writes v (Settled v ops) where
  list _ _ hc := by cases hc
  identifier _ _ hc := by cases hc
  block ps hlen := by
    obtain ⟨hmem, hkind⟩ := hv.select
    rintro _ ⟨⟩
    refine ⟨rfl, bound_of_resolved (hops.resolved _ hmem), hlen ▸ hops.selects _ hmem hkind, ?_⟩
    simp only [SettledCall, hkind]
  pair o ps ho hlen := by
    have ⟨hmem, hkind⟩ : o ∈ ops.operators ∧ (o.kind = .naming ∨ o.kind = .equals) := by
      obtain rfl | rfl := ho
      · exact ⟨hv.naming.1, .inl hv.naming.2⟩
      · exact ⟨hv.equals.1, .inr hv.equals.2⟩
    rintro _ ⟨⟩
    refine ⟨rfl, bound_of_resolved (hops.resolved _ hmem), hlen ▸ hops.pairs _ hmem hkind, ?_⟩
    obtain hkind | hkind := hkind <;> simp only [SettledCall, hkind]
  reorder c ps ps' hk hle h := by
    obtain ⟨_, hb, hs, _⟩ := h c rfl
    have hkind : c.operator.kind = .select := hk
    rintro _ ⟨⟩
    refine ⟨rfl, hb, hs.trans hle, ?_⟩
    simp only [SettledCall, hkind]

theorem normal_canonicalTerm : Normal v ops (canonicalTerm v ops top x) := by
  refine every_canonicalTerm (writes_settled hops hv) (fun o ps qs hlen hk => ?_)
    (.of_forall (fun _ _ h _ c hc => absurd hc (h c)) x) top
  rintro _ ⟨⟩
  exact ⟨rfl, bound_bound hops o, (slots_bound_le hops).trans hlen, hk⟩

end Normal

theorem callTerm_of_settled (h : SettledCall v o ps)
    (htop : top = true → isBare o.kind = false) : callTerm v o ps top = .call o ps := by
  unfold SettledCall at h
  unfold callTerm
  split
  · rename_i hk
    simp only [hk] at h
  · rename_i hk
    simp only [hk] at h
  iterate 4
    rename_i hk
    rw [if_neg fun htrue => by simpa [hk, isBare] using htop htrue]
  · rename_i hk
    simp only [hk] at h
    nth_rewrite 2 [← h.2]
    rw [← eq_termAt_append_drop_four h.1]
  · rename_i hk
    simp only [hk] at h
    rw [← h.2, ← eq_termAt_append_drop_four h.1]
  · rename_i hk
    simp only [hk] at h
    rw [← h.2, ← eq_termAt_append_drop_six h.1]
  · rename_i hk
    simp only [hk] at h
    rw [if_pos (Term.isAbsent_iff.mpr h)]
  · rfl

theorem canonicalTerm_of_normal (h : Normal v ops x) (htop : top = true → isBare x.kind = false) :
    canonicalTerm v ops top x = x := by
  induction x generalizing top with
  | absent => rw [canonicalTerm]
  | node label ps ih =>
    have hps : ps.map (canonicalTerm v ops false) = ps := by
      rw [List.map_congr_left (g := id) fun p hp => ih p hp (h.under p hp) (by simp), List.map_id]
    cases label with
    | call c =>
      obtain ⟨hlabel, hb, hs, hk⟩ := h.here c rfl
      have hpad : paddedTerms c.operator.slots ps = ps := by
        rw [paddedTerms, Nat.sub_eq_zero_of_le hs, List.replicate_zero, List.append_nil]
      rw [canonicalTerm, hps, hb, hpad, callTerm_of_settled hk htop, Term.call, ← hlabel]
    | _ => rw [canonicalTerm_of_ne_call v (fun c hc => by cases hc), hps]

theorem isBare_selectAllTerm (hv : v.Fits ops) :
    isBare (selectAllTerm v source order).kind = false := by
  have hk : (selectAllTerm v source order).kind = v.select.kind := rfl
  rw [hk, hv.select.2]
  rfl

theorem isBare_callTerm (hv : v.Fits ops) : isBare (callTerm v o ps true).kind = false := by
  have hkeep {k : Kind} (hk : o.kind = k) (h : isBare k = false) (qs : List Term) : isBare
      (Term.call o qs).kind = false :=
    (congrArg isBare hk).trans h
  unfold callTerm
  split
  · unfold orderedTerm
    split
    · split
      · rename_i h
        exact congrArg isBare h.1
      · exact isBare_selectAllTerm hv
    · exact isBare_selectAllTerm hv
  · exact isBare_selectAllTerm hv
  iterate 4
    exact isBare_selectAllTerm hv
  · exact hkeep ‹_› rfl _
  · exact hkeep ‹_› rfl _
  · exact hkeep ‹_› rfl _
  · split
    · exact hkeep ‹_› rfl _
    · exact hkeep ‹_› rfl _
  · refine hkeep rfl ?_ _
    unfold isBare
    split
    any_goals contradiction
    rfl

theorem isBare_canonicalTerm (hv : v.Fits ops) (x : Term) :
    isBare (canonicalTerm v ops true x).kind = false := by
  cases x with
  | absent => rw [canonicalTerm]; rfl
  | node label ps =>
    cases label with
    | call c => rw [canonicalTerm]; exact isBare_callTerm hv
    | _ =>
      rw [canonicalTerm_of_ne_call v (fun c hc => by cases hc)]
      rfl

theorem canonicalTerm_canonicalTerm (hops : Regular ops) (hv : v.Fits ops) (x : Term) :
    canonicalTerm v ops true (canonicalTerm v ops true x) = canonicalTerm v ops true x :=
  canonicalTerm_of_normal (normal_canonicalTerm hops hv) fun _ => isBare_canonicalTerm hv x

end Canonical

end SqlAnalysis

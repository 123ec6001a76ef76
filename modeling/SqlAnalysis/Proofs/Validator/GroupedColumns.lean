import SqlAnalysis.Proofs.Analysis.QueryBlock
import SqlAnalysis.Proofs.Validator.JoinColumns

/-!
The columns of a query that groups. Outside of aggregates, an expression of its select list or of
its `HAVING` clause refers to a column of the query only inside an expression that the query groups
by. The keys of a window that another window starts from do not belong to the expression, since they
are not looked at.
-/

namespace SqlAnalysis.Validator

open Analysis

variable {v : Validator} {text : String} {ops : Registry} {st st' : Statement} {r : Result}

/-- Every name in the expression that means a column of the block is inside an expression that the
block groups by. -/
def Grouped (s : Setting) (fin : Analysis) (id : NamespaceId) (b : Block)
    (groups : List Link) (x : Link) : Prop :=
  ∀ i name names, Relation.ReflTransGen fin.tree.Enters x (some i) →
    fin.tree.form? (some i) = some (.identifier name) → fin.qualified.get? i = some names →
    ∀ steps res d w, resolve (engine steps) b.list (some i) name s fin = (.ok res, d) →
      res.source = some w → w.scope = b.source →
      ∃ y, Relation.ReflTransGen fin.tree.Enters x y ∧ Relation.ReflTransGen
        fin.tree.Enters y (some i) ∧ EqualsGroup s ⟨b.list, some b.source, groups⟩ id y fin

theorem functionsApart_of_blank {types : TypeTable} (h : a.record = record { tree := {}, types }) :
    FunctionsApart s a where
  overloads i o hi := by
    rw [show a.overloads = {} from congrArg Analysis.overloads h] at hi
    cases hi
  qualified i names hi := by
    rw [show a.qualified = {} from congrArg Analysis.qualified h] at hi
    cases hi

/-- In a query that groups, the items of the select list, the columns that its stars stand for and
the `HAVING` clause refer to columns of the query only inside expressions that the query groups
by. -/
theorem columns_grouped (hparse : Script.parse ops text = .ok st)
    (hcanonical : st.canonical v.setting.operators = .ok st')
    (hr : (validate st v).1 = .ok r) {id : NamespaceId} {n : Namespace}
    (hn : r.analysis.store.namespace? id = some n)
    (hk : n.kind = .select) {row : SqlType} (hrow : n.status = .valid row)
    (hagg : st'.tree.isAggregating (some n.node) = true) :
    ∃ block parts, (∀ c, r.analysis.clauses.get? (n.node, c) = some (block.scope c)) ∧
      r.analysis.selectLists.get? n.node = some parts.flatten ∧
      List.Forall₂ (fun x part =>
          (st'.tree.isStar x = true → ∀ item ∈ part, ∃ col,
          r.analysis.tree.operand (some item) 0 = some col ∧
            Grouped v.setting r.analysis id block
              (st'.tree.elements (st'.tree.select (some n.node)).groups) (some col)) ∧
          (st'.tree.isStar x = false →
            Grouped v.setting r.analysis id block
              (st'.tree.elements (st'.tree.select (some n.node)).groups) (bareItem st'.tree x)))
        (st'.tree.elements (st'.tree.select (some n.node)).list) parts ∧
      Grouped v.setting r.analysis id block
        (st'.tree.elements (st'.tree.select (some n.node)).groups)
        (st'.tree.select (some n.node)).having := by
  obtain ⟨st'', a₀, hcanonical', ho, _, hbegun⟩ := exists_begun hparse hr
  cases hcanonical.symm.trans hcanonical'
  have hattested := hbegun.attested (P := FunctionsApart v.setting)
    (fun _ id st h => functionsApart_withStatus h) (functionsApart_of_blank hbegun.blank)
  obtain ⟨steps, target, b, a₁, a₂, a₃, a₄, a₅, a₆, c, hrun⟩ := hattested.exists_blockRun hn hk hrow
  have he := engine_functionsApart v.setting steps
  have hp := hbegun.placed
  obtain ⟨block, hblock⟩ := hrun.exists_block hp hbegun.registered
  obtain ⟨agg, own, hgroups, hgrouped⟩ :=
    hrun.exists_groupedBlock hp hbegun.registered hbegun.shows ho hagg hblock
  have hsource : FunctionsApart v.setting a₁ := (hrun.passes_source he).1 hrun.holds
  -- an expression that passes the check on the way has its columns grouped in the end
  have hchecked {x : Link} {e : Analysis} {e₁ : Analysis}
    (hpass : Passes (FunctionsApart v.setting) a₁ e₁)
      (hlater : Later e r.analysis)
      (h : PassesCheck v.setting steps (FunctionsApart v.setting) r.analysis.tree
        block.list e₁ e x) :
      Grouped v.setting r.analysis id block
        (st'.tree.elements (st'.tree.select (some n.node)).groups) x := by
    obtain ⟨c₁, d₁, hc₁, hholds, hcheck, hd₁⟩ := h
    have hbefore := hpass.trans hc₁
    intro i name names hi hname hqual k res d w hres hw hσ
    rw [← hgroups]
    exact (hgrouped.proceeds hbefore.2).grouped hholds (hbefore.1 hsource)
      hattested.holds hcheck (hd₁.2.later.trans hlater) hi hname hqual hres hw hσ
  obtain ⟨parts, e, hlist, hlater, hall⟩ := hrun.exists_recorded hp he ho hblock
  refine ⟨block, parts, fun c => hattested.same.clauses ▸ hblock.clauses c,
    hlist, hall.imp fun x part hx => ?_, ?_⟩
  · cases hx with
    | columns hstar hcols =>
      refine ⟨fun _ item hitem => ?_, fun hfalse => absurd (hstar.symm.trans hfalse) nofun⟩
      obtain ⟨col, hcol, hcheck⟩ := hcols item hitem
      exact ⟨col, hcol, hchecked (hrun.passes_to_list he) hlater hcheck⟩
    | expression hstar hcheck =>
      exact ⟨fun htrue => absurd (hstar.symm.trans htrue) nofun,
        fun _ => hchecked (hrun.passes_to_list he) hlater hcheck⟩
  · cases hhaving : (st'.tree.select (some n.node)).having with
    | none =>
      intro i _ _ hi
      obtain ⟨_, hi⟩ := Tree.exists_of_reflTransGen_enters hi
      cases hi
    | some x =>
      obtain ⟨e, hlater, hcheck⟩ :=
        hrun.exists_checked_having hp he ho hblock (by rw [hhaving]; rfl)
      exact hhaving ▸ hchecked (.refl a₁) hlater hcheck

/-- A column that is selected beside an aggregate is one that the query groups by. -/
theorem columns_grouped_beside_aggregate :
    ∃ (st st' : Statement) (r : Result) (n : Namespace) (block : Block) (i : NodeId) (y : Link),
      Script.parse .standard "(SELECT :list [X (COUNT X)] :from P :group [P.X])" = .ok st ∧
      st.canonical .standard = .ok st' ∧ (validate st threeTables).1 = .ok r ∧
      r.analysis.store.namespace? 0 = some n ∧
      (st'.tree.elements (st'.tree.select (some n.node)).list).head? = some (some i) ∧
      Relation.ReflTransGen r.analysis.tree.Enters y (some i) ∧
      EqualsGroup threeTables.setting ⟨block.list, some block.source,
      st'.tree.elements (st'.tree.select (some n.node)).groups⟩ 0 y r.analysis := by
  have hrun : acceptsBlock threeTables "(SELECT :list [X (COUNT X)] :from P :group [P.X])"
      fun st' r n => st'.tree.isAggregating (some n.node) &&
        (st'.tree.elements (st'.tree.select (some n.node)).list).head?.join.any fun i =>
          !st'.tree.isStar (some i) && bareItem st'.tree (some i) == some i &&
          (r.analysis.tree.identifier? (some i)).any fun name =>
            (r.analysis.qualified.get? i).isSome &&
            (resolve (engine 1) (r.analysis.clause n.node .list) (some i)
              name threeTables.setting r.analysis).1.toOption.any fun res =>
              res.source.any fun w => w.scope == r.analysis.clause n.node .source := by
    decide +kernel
  obtain ⟨st, st', r, n, row, hst, hst', hr, hn, hkind, hrow, hrun⟩ := exists_of_acceptsBlock hrun
  simp only [Bool.and_eq_true, beq_iff_eq, Option.any_eq_true] at hrun
  obtain ⟨hagg, i, hi, ⟨hstar, hbare⟩, name, hname, hqual, res, hres, w, hw, hσ⟩ := hrun
  obtain ⟨names, hnames⟩ := Option.isSome_iff_exists.mp hqual
  obtain ⟨block, parts, hclauses, _, hall, _⟩ :=
    columns_grouped (v := threeTables) hst hst' hr hn hkind hrow hagg
  have hhead : (st'.tree.elements (st'.tree.select (some n.node)).list).head? = some (some i) :=
    Option.join_eq_some_iff.mp hi
  obtain ⟨rest, hlist⟩ := List.head?_eq_some_iff.mp hhead
  rw [hlist] at hall
  obtain _ | ⟨hfirst, _⟩ := hall
  have hgrouped := hfirst.2 (Bool.not_eq_true' _ ▸ hstar)
  rw [hbare] at hgrouped
  rcases hrun' : resolve (engine 1) (r.analysis.clause n.node .list) (some i)
    name threeTables.setting r.analysis with ⟨_ | res', d⟩
  · rw [hrun'] at hres
    cases hres
  · rw [hrun'] at hres
    cases hres
    rw [clause, hclauses, Option.getD_some] at hrun' hσ
    obtain ⟨y, _, hy, hequal⟩ :=
      hgrouped i name names .refl (Tree.form?_of_identifier? hname) hnames 1 res d w hrun' hw hσ
    exact ⟨st, st', r, n, block, i, y, hst, hst', hr, hn, hhead, hy, hequal⟩

end SqlAnalysis.Validator

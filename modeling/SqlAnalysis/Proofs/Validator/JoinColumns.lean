import SqlAnalysis.Proofs.Validator.Begun

/-!
The columns of a join, seen in two ways. The scope of a query shows the relations that it selects
from, each with its columns made nullable or not; a join has a row type of its own, put together
from those of its sides. The two agree in a table that tells the rows over its columns apart. A
table keeps one type for each text, so two rows may come to be one type if a column has a comma in
its name.
-/

namespace SqlAnalysis.Validator

open Analysis

variable {v : Validator} {text : String} {ops : Registry} {st st' : Statement} {r : Result}

/-- In the scope of a query that is found valid stand the relations that the query selects from,
from left to right, each flagged nullable if some join around it may lack a match for it; together
they show the columns of the tree of joins. -/
theorem scope_shows_joins (hparse : Script.parse ops text = .ok st)
    (hcanonical : st.canonical v.setting.operators = .ok st') (hr : (validate st v).1 = .ok r)
    {id : NamespaceId} {n : Namespace} (hn : r.analysis.store.namespace? id = some n)
    (hk : n.kind = .select) {row : SqlType} (hrow : n.status = .valid row)
    {src : JoinTree} (hsrc : st'.tree.Joins (st'.tree.select n.node).source src) :
    ∃ σ sc R, r.analysis.clauses.get? (n.node, .source) = some σ ∧
      r.analysis.store.scope? σ = some sc ∧
      List.Forall₂ (ShownAs r.analysis) sc.children src.leaves ∧ HasRow r.analysis src.head R ∧
      (v.types.Keyed → r.analysis.types.TellsRowsApart → ∀ steps, ∃ rows b,
        sc.children.mapM (childRow (engine (steps + 1))) v.setting r.analysis = (.ok rows, b) ∧
        rows.flatMap SqlType.fields = R.fields) := by
  obtain ⟨ho, _⟩ := Statement.canonical_ordered hcanonical
  have hu := Statement.canonical_unshared hparse hcanonical
  obtain ⟨st'', a, hst, hrun, rfl⟩ := exists_analyse hr
  cases hcanonical.symm.trans hst
  obtain ⟨a₀, hreg, hp, hf, htypes, hshows⟩ := analyse_ok hu ho hrun
  obtain ⟨n₀, hn₀, hdecl⟩ := hf.same.namespace? hn
  have hnode := Namespace.node_of_declared hdecl
  have hreach : st'.tree.Spans st'.root n.node := hnode ▸ hp.reached id n₀ hn₀
  have hdraws : st'.tree.Draws n.node (st'.tree.select n.node).source := by
    obtain ⟨c, hc, hkind⟩ := hp.call_of_select hf.same hn hk
    rw [Tree.select, hc]
    exact ⟨c, hc, hkind, .refl _⟩
  obtain ⟨σ, sc, hσ, hsc, hchildren⟩ := hf.exists_shown hreg hshows hn hk
  have hall := hf.hasRow hp ho hn hk hrow hsrc
  obtain ⟨R, hR⟩ := hall _ src.head_mem_nodes
  refine ⟨σ, sc, R, hσ, hsc, hchildren src hsrc, hR, fun hkeyed hapart steps => ?_⟩
  have hkeyed := htypes.keyed hkeyed
  obtain ⟨R', hR', htyped⟩ := exists_typed hp hf ho hkeyed hreach hsrc hdraws hall
  cases hR.unique hR'
  have hself : a.types.Showing false R.fields R.fields := rfl
  obtain ⟨fss, hleaves, hfss⟩ := htyped.leaves_show hkeyed hapart hself
  rw [JoinTree.leavesUnder_false] at hleaves
  have hleaf : ∀ p ∈ src.leaves, st'.tree.Draws n.node (some p.1) := fun p hp =>
    JoinTree.draws hdraws hsrc p.1 (src.mem_nodes_of_leaf hp)
  obtain ⟨rows, V, hmap, hfields⟩ :=
    childRows_ok hp hf.same hreach hkeyed hapart (hchildren src hsrc) hleaves hleaf (.refl _)
  exact ⟨rows, _, hmap, by rw [List.flatMap_def, hfields, hfss]⟩

def integer (nullable : Bool) : SqlType :=
  .scalar { name := .integer, precision := ScalarName.noPrecision } nullable

def threeTables : Validator where
  setting :=
    { operators := .standard
      catalog :=
        { table := fun names => .ok (match names with
            | ["P"] => some { names, row := .row [("X", integer false)] false }
            | ["Q"] => some { names, row := .row [("Y", integer true)] false }
            | ["U"] => some { names, row := .row [("Z", integer false)] false }
            | _ => none)
          type := fun _ => .ok none
          objects := fun _ => .ok [] }
      config := {} }

/-- The three tables, of which the last is joined to a join of the others. -/
theorem scope_shows_joins_left :
    ∃ (st st' : Statement) (r : Result) (n : Namespace) (src : JoinTree) (σ : ScopeId)
      (sc : Scope) (R : SqlType) (rows : List SqlType) (b : Analysis), Script.parse .standard
      "(SELECT :list [1] :from (JOIN (JOIN P false #CROSS (AS Q R)) true #LEFT (LATERAL U)))" =
        .ok st ∧
      st.canonical .standard = .ok st' ∧ (validate st threeTables).1 = .ok r ∧
      r.analysis.store.namespace? 0 = some n ∧ st'.tree.Joins (st'.tree.select n.node).source src ∧
      src.leaves.map Prod.snd = [false, false, true] ∧
      r.analysis.clauses.get? (n.node, .source) = some σ ∧ r.analysis.store.scope? σ = some sc ∧
      List.Forall₂ (ShownAs r.analysis) sc.children src.leaves ∧ HasRow r.analysis src.head R ∧
      sc.children.mapM (childRow (engine 1)) threeTables.setting r.analysis = (.ok rows, b) ∧
      rows.flatMap SqlType.fields = R.fields := by
  have hrun : acceptsBlock threeTables
      "(SELECT :list [1] :from (JOIN (JOIN P false #CROSS (AS Q R)) true #LEFT (LATERAL U)))"
      fun st' r n => (st'.tree.joinTree? 9 (st'.tree.select n.node).source).any
        (fun src => src.leaves.map Prod.snd == [false, false, true]) &&
        r.analysis.types.hasColumns
          [("X", integer false), ("X", integer true), ("Y", integer true), ("Z", integer false),
            ("Z", integer true), ("EXPR$0", integer false), ("EXPR$0", integer true)] := by
    decide +kernel
  obtain ⟨st, st', r, n, row, hst, hst', hr, hn, hkind, hrow, hrun⟩ := exists_of_acceptsBlock hrun
  obtain ⟨hsrc, hcols⟩ := Bool.and_eq_true_iff.mp hrun
  obtain ⟨src, hsrc, hleaves⟩ := Option.any_eq_true _ _ |>.mp hsrc
  obtain ⟨σ, sc, R, hσ, hsc, hchildren, hR, hcolumns⟩ :=
    scope_shows_joins (v := threeTables) hst hst' hr hn hkind hrow (Tree.joins_of_joinTree? hsrc)
  obtain ⟨rows, b, hrows, hfields⟩ :=
    hcolumns TypeTable.keyed_empty (TypeTable.tellsRowsApart_of_hasColumns hcols) 0
  exact ⟨st, st', r, n, src, σ, sc, R, rows, b, hst, hst', hr, hn, Tree.joins_of_joinTree? hsrc,
    beq_iff_eq.mp hleaves, hσ, hsc, hchildren, hR, hrows, hfields⟩

end SqlAnalysis.Validator

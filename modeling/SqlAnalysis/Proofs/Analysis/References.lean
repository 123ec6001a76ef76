import SqlAnalysis.Proofs.Analysis.Termination

/-!
The references of windows. A window operand is followed through the names of the `WINDOW` clause and
the windows that specifications start from, and the specifications met on the way make up one
window. The way is cut off where it comes to a name after too many references.
-/

namespace SqlAnalysis.Analysis

/-- The specifications that are met from a window on, up to one that refers to no other. -/
inductive Unfolds (a : Analysis) (s : Setting) (scope : ScopeId) : Link → List Window → Prop where
  | step {x y ws} : a.Refers s scope x y → Unfolds a s scope y ws →
    Unfolds a s scope x ((specified? a.tree x).toList ++ ws)
  | last {x w} : (∀ y, ¬ a.Refers s scope x y) → specified? a.tree x = some w →
    Unfolds a s scope x [w]

/-- The window is put together from specifications each of which starts from the next one. -/
structure Window.Expands (w first : Window) (others : List Window) : Prop where
  unpartitioned : ∀ v ∈ (first :: others).dropLast, v.partition = []
  partition : w.partition = ((first :: others).getLast (List.cons_ne_nil _ _)).partition
  ordered : ((first :: others).filter fun v => !v.order.isEmpty).length ≤ 1
  order : w.order = (first :: others).flatMap Window.order
  unframed : ∀ v ∈ others, v.framed = false
  rows : w.rows = first.rows
  lower : w.lower = first.lower
  upper : w.upper = first.upper

/-- So many references lead from one window to the other. -/
def RefersIn (a : Analysis) (s : Setting) (scope : ScopeId) : Nat → Link → Link → Prop
  | 0, x, y => x = y
  | n + 1, x, y => ∃ z, a.Refers s scope x z ∧ RefersIn a s scope n z y

def RefusedForCycle {α : Type} (s : Setting) (a : Analysis) (x : AnalysisM α) : Prop :=
  ∃ d, x s a = (.error (.refused d), a) ∧ d.code = .validationCycle

variable {s : Setting} {t : Tree} {a b : Analysis} {scope : ScopeId} {x y : Link}
  {w v first : Window} {ws others : List Window}

theorem Unfolds.unique (hw : Unfolds a s scope x ws) (hv : Unfolds a s scope x vs) : ws = vs := by
  induction hw generalizing vs with
  | step hy _ ih =>
    cases hv with
    | step hy' hv => rw [ih (hy.unique hy' ▸ hv)]
    | last hend => exact absurd hy (hend _)
  | last hend hw =>
    cases hv with
    | step hy => exact absurd hy (hend _)
    | last _ hv => rw [hw] at hv; cases hv; rfl

theorem Unfolds.not_circular (h : Unfolds a s scope x ws) :
    ¬ a.tree.Circular (windowNamed? a.tree s.matcher (a.store.selectOf scope)) x := by
  intro hcircular
  induction h with
  | step hy _ ih =>
    obtain ⟨z, hz, hcircular⟩ := hcircular.next
    exact ih (hz.unique hy ▸ hcircular)
  | last hend => exact hcircular.next.elim fun y hy => hend y hy.1

theorem Window.Expands.over (hbase : base.Expands first ws)
    (h : w.over p base s a = (.ok v, b)) : b = a ∧ v.Expands w (first :: ws) := by
  obtain ⟨x, c, hover, _⟩ | ⟨hp, ho, hf, hover⟩ :=
    w.over_cases base p <;> rw [hover] at h <;> cases h
  refine ⟨rfl, ?_, hbase.partition, ?_, ?_, ?_, rfl, rfl, rfl⟩
  · exact List.forall_mem_cons.mpr ⟨hp, hbase.unpartitioned⟩
  · obtain ho | ho := ho
    · simpa [ho] using hbase.ordered
    · have hnone : ∀ u ∈ first :: ws, u.order = [] := List.flatMap_eq_nil_iff.mp (hbase.order ▸ ho)
      rw [List.filter_cons, List.filter_eq_nil_iff.mpr fun u hu => by simp [hnone u hu]]
      split <;> simp
  · rw [hbase.order]
    rfl
  · refine List.forall_mem_cons.mpr ⟨?_, hbase.unframed⟩
    rwa [Window.framed, ← hbase.lower, ← hbase.upper]

theorem windowUpTo_expands (h : windowUpTo scope fuel depth x s a = (.ok w, b)) :
    b = a ∧ ∃ first others, Unfolds a s scope x (first :: others) ∧ w.Expands first others := by
  induction fuel generalizing depth x w b with
  | zero => cases h
  | succ fuel ih =>
    obtain ⟨m, hrun, hm⟩ := windowUpTo_step
    rw [hrun] at h
    cases hm with
    | name _ hnone hy =>
      split at h
      · cases h
      · obtain ⟨hb, first, others, hunfolds, hexpands⟩ := ih h
        have hunfolds := Unfolds.step hy hunfolds
        rw [hnone] at hunfolds
        exact ⟨hb, first, others, hunfolds, hexpands⟩
    | base _ hv hy =>
      obtain ⟨base, c, hbase, h⟩ := run_bind_ok h
      obtain ⟨rfl, first, others, hunfolds, hexpands⟩ := ih hbase
      obtain ⟨hb, hexpands⟩ := hexpands.over h
      have hunfolds := Unfolds.step hy hunfolds
      rw [hv] at hunfolds
      exact ⟨hb, _, first :: others, hunfolds, hexpands⟩
    | last hend hw =>
      cases h
      refine ⟨rfl, w, [], .last hend hw, nofun, rfl, ?_, (List.append_nil _).symm,
        nofun, rfl, rfl, rfl⟩
      exact List.length_filter_le _ _
    | refused => cases h

/-- The window that an operand stands for, where there is one, is put together from the
specifications that are met by following the operand. -/
theorem resolveWindow_expands (h : resolveWindow scope x s a = (.ok w, b)) :
    ∃ first others, (∀ ws, Unfolds a s scope x ws ↔ ws = first :: others) ∧
      w.Expands first others := by
  obtain ⟨_, first, others, hunfolds, hexpands⟩ := windowUpTo_expands h
  exact ⟨first, others, fun ws => ⟨fun hws => hws.unique hunfolds, fun hws => hws ▸ hunfolds⟩,
    hexpands⟩

/-- A query with the clause `WINDOW w AS (PARTITION BY 1)`, and a specification `(…(w)…)` of so many
inside one another. -/
def nested (n : Nat) : Analysis where
  tree.nodes := (forms.map fun form => { form }).toArray
  store.scopes := #[{ kind := .select, node := some (5 + n) }]
where
  window (operands : List Link) : Form :=
    .call { operator := { name := "WINDOW", kind := .window }, operands }
  forms : List Form :=
    [.literal (.exact (.ofInt 1)), .identifier { names := ["W"] },
      window [some 1, none, some 0], .list [some 2],
      .identifier { names := ["W"] }] ++ (List.range n).map (fun k =>
        window [none, some (4 + k)]) ++
    [.call ⟨{ name := "SELECT", kind := .select }, [none, none, none, none, none, none, some 3]⟩]

def plain : Setting where
  operators := {}
  catalog := .empty
  config := {}

theorem resolveWindow_expands_nested :
    ∃ first others, (∀ ws, Unfolds (nested 1) plain 0 (some 5) ws ↔ ws = first :: others) ∧
      Window.Expands ⟨5, [some 0], [], false, none, none⟩ first others :=
  resolveWindow_expands (b := nested 1) rfl

/-- The keys of windows: what they partition by, then what they order by. -/
def keys (ws : List Window) : List Link := ws.flatMap Window.partition ++ ws.flatMap Window.order

theorem Window.Expands.keys_eq (h : w.Expands first others) :
    keys [w] = keys (first :: others) := by
  have hpartition : (first :: others).flatMap Window.partition = w.partition := by
    have hsplit := List.dropLast_append_getLast (List.cons_ne_nil first others)
    rw [h.partition]
    generalize (first :: others).getLast _ = last at hsplit
    rw [← hsplit, List.flatMap_append, List.flatMap_eq_nil_iff.mpr h.unpartitioned,
      List.flatMap_singleton, List.nil_append]
  rw [keys, keys, hpartition, ← h.order, List.flatMap_singleton, List.flatMap_singleton]

theorem Unfolds.specified?_eq (h : Unfolds a s scope x (first :: others))
    (hi : a.tree.identifier? x = none) : specified? a.tree x = some first := by
  generalize hws : first :: others = ws at h
  cases h with
  | step hy =>
    cases hy with
    | name hi' => cases hi.symm.trans hi'
    | base hc hk =>
      cases x with
      | none => cases hc
      | some n =>
        simp only [specified?, hc, hk] at hws ⊢
        cases hws
        rfl
  | last _ hw =>
    cases hws
    exact hw

theorem Unfolds.specified?_windowAt (h : Unfolds a s scope x (first :: others)) :
    specified? a.tree (windowAt a.tree s.matcher (a.store.selectOf scope) x) = some first := by
  cases hi : a.tree.identifier? x with
  | none => simpa only [windowAt, hi] using h.specified?_eq hi
  | some i =>
    have hnone : specified? a.tree x = none := by
      simp only [specified?, Tree.call?, Tree.form?_of_identifier? hi]
    generalize hws : first :: others = ws at h
    cases h with
    | step hy hrest =>
      cases hy with
      | name hi' hw =>
        cases hi.symm.trans hi'
        obtain ⟨c, hc⟩ := Tree.exists_call?_of_windowNamed? hw
        rw [hnone] at hws
        cases hws
        simp only [windowAt, hi, hw]
        exact hrest.specified?_eq (by rw [Tree.identifier?, Tree.form?_of_call? hc])
      | base hc => rw [Tree.identifier?, Tree.form?_of_call? hc] at hi; cases hi
    | last _ hw => cases hnone.symm.trans hw

section Group

variable {g : Grouping} {check : Link → AnalysisM Unit} {c inner : Call}

theorem checkGroupedCall_over (hover : c.kind = .over)
    (hagg : c.operator.isAggregate = false) (hinner : a.tree.call? (c.operand 0) = some inner)
    (hoperands : (a.tree.children (c.operand 0)).forM (fun n => check (some n)) s a = (.ok (), b))
    (hw : specified? b.tree
    (windowAt b.tree s.matcher (b.store.selectOf g.scope) (c.operand 1)) = some w) :
    checkGroupedCall g check i c s a = (keys [w]).forM check s b := by
  obtain ⟨k, hk, hkind, hpartition, horder, _⟩ := call?_of_specified? hw
  rw [checkGroupedCall, run_bind_get, hagg, hover, hinner]
  dsimp only
  rw [if_neg (by decide), if_pos Option.isSome_some, run_bind, hoperands]
  dsimp only
  rw [checkGroupedWindow_eq hk hkind, keys, List.flatMap_singleton, List.flatMap_singleton,
    hpartition, horder]

/-- A windowed call is checked, once the operands of the aggregate have passed, by the keys of the
first specification met from the window operand. With the keys of the resolved window written out
instead of the operand, it is checked by the keys of all specifications met, which are the same if
those that the first one starts from have none. -/
theorem checkGroupedCall_written_out (hover : c.kind = .over)
    (hagg : c.operator.isAggregate = false) (hinner : a.tree.call? (c.operand 0) = some inner)
    (hoperands : (a.tree.children (c.operand 0)).forM (fun n => check (some n)) s a = (.ok (), b))
    (hw : resolveWindow g.scope (c.operand 1) s b = (.ok w, d))
    (hy : specified? b.tree y = some v) (hkeys : v.partition = w.partition ∧ v.order = w.order) :
    ∃ first others, Unfolds b s g.scope (c.operand 1) (first :: others) ∧
      checkGroupedCall g check i c s a = (keys [first]).forM check s b ∧
      checkGroupedCall g check i { c with operands := [c.operand 0, y] } s a =
        (keys (first :: others)).forM check s b := by
  obtain ⟨_, first, others, hunfolds, hexpands⟩ := windowUpTo_expands hw
  have hkeys : keys [v] = keys (first :: others) := by
    rw [← hexpands.keys_eq]
    simp [keys, hkeys]
  obtain ⟨k, hk, _⟩ := call?_of_specified? hy
  refine ⟨first, others, hunfolds,
    checkGroupedCall_over hover hagg hinner hoperands hunfolds.specified?_windowAt, ?_⟩
  rw [← hkeys]
  exact checkGroupedCall_over (c := { c with operands := [c.operand 0, y] })
    hover hagg hinner hoperands (by rw [← hy]; exact congrArg _ (windowAt_of_call? hk))

end Group

/-- The query `SELECT SUM(X) OVER W FROM T GROUP BY X WINDOW W AS (B), B AS (PARTITION BY Y)`. -/
def groupedQuery : Tree where
  nodes := (forms.map fun form => { form }).toArray
where
  name (text : String) : Form := .identifier { names := [text] }
  call (operator : Operator) (operands : List Link) : Form := .call { operator, operands }
  forms : List Form :=
    [name "X",
      call { name := "SUM", kind := .sum, arity := .exactly 1, returns := some ⟨.firstArg, []⟩ }
      [some 0],
      name "W", call { name := "OVER", kind := .over } [some 1, some 2],
        .list [some 3], name "T", name "X",
      .list [some 6], name "W", name "B",
        call { name := "WINDOW", kind := .window } [some 8, some 9], name "B",
      name "Y", call { name := "WINDOW", kind := .window } [some 11, none, some 12],
        .list [some 10, some 13],
      call { name := "SELECT", kind := .select } [none, some 4, some 5,
        none, some 7, none, some 14]]

def twoColumns : CatalogReader :=
  { CatalogReader.empty with
    table := fun names =>
      let row := .row (["X", "Y"].map fun name => (name, .scalar { name := .integer } false)) false
      .ok (if names = ["T"] then some { names, row } else none) }

def overWindow (w : NodeId) : Call where
  operator := { name := "OVER", kind := .over }
  operands := [some 1, some w]

/-- The sum over `W` is accepted by the query, which does not group by `Y`, and the sum over `B` is
not. -/
theorem checkGroupedCall_written_out_nested :
    let s : Setting := { operators := {}, catalog := twoColumns, config := {} }
    let a := (analyse (some 15) s (.start groupedQuery {} {})).2
    let g : Grouping := ⟨2, some 1, [some 6]⟩
    let check := checkGroupedUpTo (engine 9) g 9
    (∃ first others b, Unfolds b s 2 (some 2) (first :: others) ∧
      checkGroupedCall g check 3 (overWindow 2) s a = (keys [first]).forM check s b ∧
      checkGroupedCall g check 3 (overWindow 13) s a = (keys (first :: others)).forM check s b) ∧
    (checkGroupedCall g check 3 (overWindow 2) s a).1.isOk = true ∧
    (checkGroupedCall g check 3 (overWindow 13) s a).1.isOk = false := by
  intro s a g check
  refine ⟨?_, by decide +kernel, by decide +kernel⟩
  have hrun : ((a.tree.call? (some 1)).isSome &&
      ((a.tree.children (some 1)).forM (fun n => check (some n)) s a).1.isOk &&
      (fun b => (resolveWindow 2 (some 2) s b).1.toOption.any fun w =>
        (specified? b.tree (some 13)).any fun v =>
        v.partition == w.partition && v.order == w.order)
        ((a.tree.children (some 1)).forM (fun n => check (some n)) s a).2) = true := by
    decide +kernel
  clear_value a
  simp only [Bool.and_eq_true] at hrun
  obtain ⟨⟨hinner, hoperands⟩, hwindow⟩ := hrun
  obtain ⟨inner, hinner⟩ := Option.isSome_iff_exists.mp hinner
  obtain ⟨_, b, hoperands⟩ := exists_of_isOk hoperands
  rw [hoperands] at hwindow
  rcases hw : resolveWindow 2 (some 2) s b with ⟨_ | w, d⟩ <;> rw [hw] at hwindow
  · cases hwindow
  have hwindow : (specified? b.tree (some 13)).any fun v =>
    v.partition == w.partition && v.order == w.order := hwindow
  obtain ⟨v, hv, hkeys⟩ := Option.any_eq_true _ _ |>.mp hwindow
  rw [Bool.and_eq_true, beq_iff_eq, beq_iff_eq] at hkeys
  obtain ⟨first, others, h⟩ := checkGroupedCall_written_out (g := g) (c := overWindow 2)
    (i := 3) rfl rfl hinner hoperands hw hv hkeys
  exact ⟨first, others, b, h⟩

/-- A name of the `WINDOW` clause comes after too many references, `depth` of which have been
followed. -/
def ComesLate (a : Analysis) (s : Setting) (scope : ScopeId) (depth : Nat) (x : Link) : Prop :=
  ∃ n y z, maxReferences < depth + n ∧ a.RefersIn s scope n x y ∧ a.tree.identifier? y ≠ none ∧
    a.Refers s scope y z

theorem comesLate_iff (hy : a.Refers s scope x y) : a.ComesLate s scope depth x ↔
    maxReferences < depth ∧ a.tree.identifier? x ≠ none ∨ a.ComesLate s scope (depth + 1) y := by
  constructor
  · rintro ⟨n, u, z, hlt, hu, hi, hz⟩
    cases n with
    | zero =>
      cases hu
      exact .inl ⟨hlt, hi⟩
    | succ n =>
      obtain ⟨v, hv, hu⟩ := hu
      exact .inr ⟨n, u, z, by omega, hv.unique hy ▸ hu, hi, hz⟩
  · rintro (⟨hlt, hi⟩ | ⟨n, u, z, hlt, hu, hi, hz⟩)
    · exact ⟨0, x, y, hlt, rfl, hi, hy⟩
    · exact ⟨n + 1, u, z, by omega, ⟨y, hy, hu⟩, hi, hz⟩

theorem ComesLate.refers (h : a.ComesLate s scope depth x) : ∃ y, a.Refers s scope x y := by
  obtain ⟨n, u, z, _, hu, _, hz⟩ := h
  cases n with
  | zero => exact ⟨z, hu ▸ hz⟩
  | succ n => exact hu.imp fun _ hy => hy.1

variable (ht : t.Ordered) (hu : t.Extends a.tree)
    (hq : t.Has (a.store.selectOf scope)) (hx : t.Has x)
include ht hu hq hx

theorem comesLate_of_circular (h : Enough t fuel depth x)
    (hcircular : a.tree.Circular (windowNamed? a.tree s.matcher (a.store.selectOf scope)) x) :
    a.ComesLate s scope depth x := by
  induction fuel generalizing depth x with
  | zero => exact absurd h.pos (Nat.lt_irrefl 0)
  | succ fuel ih =>
    obtain ⟨y, hy, hcircular⟩ := hcircular.next
    refine (comesLate_iff hy).mpr (or_iff_not_imp_left.mpr fun hearly => ?_)
    obtain ⟨hy, hnext⟩ := h.refers ht hu hq hx hy fun hi => Nat.not_lt.mp fun hlt =>
      hearly ⟨hlt, hi⟩
    exact ih hy hnext hcircular

theorem windowUpTo_cycle (h : Enough t fuel depth x) :
    RefusedForCycle s a (windowUpTo scope fuel depth x) ↔ a.ComesLate s scope depth x := by
  induction fuel generalizing depth x with
  | zero => exact absurd h.pos (Nat.lt_irrefl 0)
  | succ fuel ih =>
    obtain ⟨m, hrun, hm⟩ := windowUpTo_step
    rw [RefusedForCycle, hrun]
    cases hm with
    | name hi _ hy =>
      rw [comesLate_iff hy]
      split
      · rename_i hlt
        exact ⟨fun _ => .inl ⟨hlt, by rw [hi]; nofun⟩, fun _ => ⟨_, rfl, rfl⟩⟩
      · rename_i hle
        obtain ⟨hy, hnext⟩ := h.refers ht hu hq hx hy fun _ => Nat.not_lt.mp hle
        rw [or_iff_right fun h => hle h.1]
        exact ih hy hnext
    | @base w y hi _ hy =>
      rw [comesLate_iff hy, or_iff_right fun h => h.2 hi]
      obtain ⟨hy, hnext⟩ := h.refers ht hu hq hx hy fun h => absurd hi h
      rw [← ih hy hnext, RefusedForCycle, run_bind]
      rcases windowUpTo scope fuel (depth + 1) y s a with ⟨_ | base, b⟩
      · rfl
      · dsimp only
        refine ⟨fun ⟨d, hd, hcode⟩ => ?_, fun ⟨d, hd, _⟩ => nomatch hd⟩
        obtain ⟨x, c, hover, hc⟩ | ⟨_, _, _, hover⟩ :=
          w.over_cases base (a.tree.window x) <;> rw [hover] at hd <;> cases hd
        exact absurd hcode hc
    | last hend =>
      exact ⟨fun ⟨d, hd, _⟩ => (nomatch hd), fun h => h.refers.elim fun y hy => absurd hy (hend y)⟩
    | refused hend hc =>
      refine ⟨fun ⟨d, hd, hcode⟩ => ?_, fun h => h.refers.elim fun y hy => absurd hy (hend y)⟩
      cases hd
      exact absurd hcode hc

omit hq hx ht in
theorem enough_resolveWindow : Enough t (maxReferences + 3 + a.tree.size) 0 x := by
  rw [Enough, if_pos (Nat.zero_le _), Nat.zero_add]
  exact Nat.add_le_add_left hu.size_le _

theorem resolveWindow_circle
    (h : a.tree.Circular (windowNamed? a.tree s.matcher (a.store.selectOf scope)) x) :
    RefusedForCycle s a (resolveWindow scope x) :=
  (windowUpTo_cycle ht hu hq hx (enough_resolveWindow hu)).mpr
    (comesLate_of_circular ht hu hq hx (enough_resolveWindow hu) h)

/-- An operand is refused for a cycle just when following it comes to a name of the `WINDOW` clause
after too many references, as happens with every window that refers in the end to itself. -/
theorem resolveWindow_cycle :
    (RefusedForCycle s a (resolveWindow scope x) ↔ ∃ n y z, maxReferences < n ∧
      a.RefersIn s scope n x y ∧ a.tree.identifier? y ≠ none ∧ a.Refers s scope y z) ∧
    (a.tree.Circular (windowNamed? a.tree s.matcher (a.store.selectOf scope)) x →
      RefusedForCycle s a (resolveWindow scope x)) := by
  refine ⟨?_, resolveWindow_circle ht hu hq hx⟩
  have hiff := windowUpTo_cycle (s := s) ht hu hq hx (enough_resolveWindow hu)
  simp only [ComesLate, Nat.zero_add] at hiff
  exact hiff

omit ht hu hq hx

theorem ordered_nested : (nested 65).tree.Ordered := by
  rintro i j ⟨f, hf, hj⟩
  have hall : ∀ i < 71, ∀ y ∈ ((nested 65).tree.form? (some i)).elim [] Form.parts,
    ∀ j ∈ y, j < i := by decide +kernel
  exact hall i (Tree.lt_size_of_form? hf) (some j) (by rwa [hf]) j rfl

theorem resolveWindow_cycle_nested :
    (RefusedForCycle plain (nested 65) (resolveWindow 0 (some 69)) ↔
      ∃ n y z, maxReferences < n ∧ (nested 65).RefersIn plain 0 n (some 69) y ∧
      (nested 65).tree.identifier? y ≠ none ∧ (nested 65).Refers plain 0 y z) ∧
      ((nested 65).tree.Circular (windowNamed? (nested 65).tree plain.matcher (some 70)) (some 69) →
      RefusedForCycle plain (nested 65) (resolveWindow 0 (some 69))) :=
  resolveWindow_cycle ordered_nested (.refl _) (.of_lt (by decide)) (.of_lt (by decide))

set_option maxRecDepth 4000 in
/-- Specifications inside one another come to the name of a window after too many references though
none of them refers to itself. -/
theorem resolveWindow_cycle_of_nesting :
    RefusedForCycle plain (nested 65) (resolveWindow 0 (some 69)) ∧
    ¬ (nested 65).tree.Circular (windowNamed? (nested 65).tree plain.matcher (some 70))
      (some 69) := by
  refine ⟨⟨_, rfl, rfl⟩, ?_⟩
  have hunfolds : ∀ k ≤ 65, ∃ ws, Unfolds (nested 65) plain 0 (some (4 + k)) ws := by
    intro k hk
    induction k with
    | zero =>
      refine ⟨_, .step (.name rfl rfl) (.last (x := some 2) (fun y hy => ?_) rfl)⟩
      obtain ⟨i, hi, _⟩ | ⟨c, hc, _, hy, hne⟩ := hy.form
      · cases hi
      · cases hc
        exact hne hy.symm
    | succ k ih =>
      obtain ⟨ws, hws⟩ := ih (Nat.le_of_succ_le hk)
      have hcall : ∀ k < 65, (nested 65).tree.call? (some (4 + (k + 1))) =
          some ⟨{ name := "WINDOW", kind := .window }, [none, some (4 + k)]⟩ := by
        decide +kernel
      exact ⟨_, .step (y := some (4 + k)) (.base (hcall k hk) rfl rfl) hws⟩
  exact (hunfolds 65 (Nat.le_refl _)).elim fun _ h => h.not_circular

end SqlAnalysis.Analysis

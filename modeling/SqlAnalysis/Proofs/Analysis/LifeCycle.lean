import SqlAnalysis.Completion
import SqlAnalysis.Proofs.Analysis.Statement

/-!
The life cycle of relations. A relation is in progress only while its validation runs, and once it
is valid it stays valid with the row type it has. The main statement says so of the analyses of a
statement, however they end, and of whatever an analysis is asked in any state.
-/

namespace SqlAnalysis.Analysis

variable {s : Setting}

/-- A question to an analysis; what is answered and whether there is an answer is left out of
account. -/
inductive Request where
  | validate (ns : NamespaceId) (target : SqlType)
  | validateChange (id : NodeId)
  | derive (scope : ScopeId) (id : Link)
  | deriveSoft (scope : ScopeId) (id : Link)
  | infer (scope : ScopeId) (id : Link) (target : SqlType)
  | resolve (scope : ScopeId) (id : Link) (name : Identifier)
  | findTable (scope : ScopeId) (names : List String)
  | qualify (g : Grouping) (names : List String)
  | checkGrouped (scope : ScopeId) (id : Link)
  | isMonotonic (scope : ScopeId) (id : Link)
  | window (scope : ScopeId) (id : Link)
  | fieldsBelow (scope : ScopeId) (names : List String)
  | visible (scope : ScopeId)

namespace Request

def run (e : Engine) : Request → AnalysisM Unit
  | validate ns target => e.validate ns target
  | validateChange id => Analysis.validateChange e id
  | derive scope id => do let _ ← e.derive scope id
  | deriveSoft scope id => do let _ ← e.deriveSoft scope id
  | infer scope id target => e.infer scope id target
  | resolve scope id name => do let _ ← Analysis.resolve e scope id name
  | findTable scope names => do let _ ← Analysis.findTable e scope names
  | qualify g names => do let _ ← qualifiedNames? e g names
  | checkGrouped scope id => Analysis.checkGrouped e scope id
  | isMonotonic scope id => do let _ ← Analysis.isMonotonic e scope id
  | window scope id => do let _ ← resolveWindow scope id
  | fieldsBelow scope names => do let _ ← Completion.fieldsBelow e scope names
  | visible scope => do let _ ← Completion.visibleAfterValidation e scope

/-- The analysis after one question after the other, each to an engine of its own, whether or not
those before were answered. -/
def runAll (s : Setting) (a : Analysis) (requests : List (Nat × Request)) : Analysis :=
  requests.foldl (fun a (steps, q) => (q.run (engine steps) s a).2) a

end Request

theorem fieldsBelow_keeps (he : e.Settles s (fun _ => True) (fun _ => True) .any)
    (scope : ScopeId) (names : List String) :
    Keeps s (fun _ => True) (fun _ => True) (Completion.fieldsBelow e scope names) := by
  refine .seq (findTable_keeps he.relation) fun found => ?_
  cases found with
  | none =>
    exact .seq (.attempt (resolve_keeps he.relation scope none { names })) fun _ => Keeps.pure _
  | some v =>
    refine .seq (.attempt (he.relation v.child.source)) fun valid => ?_
    split
    · exact .seq (namespaceOfId_keeps _) fun _ => Keeps.pure _
    · exact Keeps.pure _

theorem visibleAfterValidation_keeps (he : e.Settles s (fun _ => True) (fun _ => True) .any)
    (scope : ScopeId) :
    Keeps s (fun _ => True) (fun _ => True) (Completion.visibleAfterValidation e scope) := by
  refine .seq visibleFrom_keeps fun seen => .seq ?_ fun _ => visibleNames_keeps
  exact Keeps.forM fun v _ => .seq (.attempt (he.relation v.child.source)) fun _ => Keeps.pure _

theorem Request.run_keeps (s : Setting) (steps : Nat) (q : Request) :
    Keeps s (fun _ => True) (fun _ => True) (q.run (engine steps)) := by
  have he := engine_settles s steps
  cases q with
  | validate ns target => exact he.validate ns trivial
  | validateChange id => exact validateChange_keeps he he.source
  | derive scope id => exact .seq (he.derive trivial trivial) fun _ => Keeps.pure _
  | deriveSoft scope id =>
    refine .seq ?_ fun _ => Keeps.pure _
    exact .seq (.attempt (he.derive trivial trivial)) fun _ => Keeps.pure _
  | infer scope id target => exact he.infer trivial (.inl trivial)
  | resolve scope id name =>
    exact .seq (resolve_keeps he.relation scope id name) fun _ => Keeps.pure _
  | findTable scope names => exact .seq (findTable_keeps he.relation) fun _ => Keeps.pure _
  | qualify g names => exact .seq (qualifiedNames?_keeps he.relation) fun _ => Keeps.pure _
  | checkGrouped scope id => exact checkGrouped_keeps trivial he.relation
  | isMonotonic scope id => exact .seq (isMonotonicUpTo_keeps he) fun _ => Keeps.pure _
  | window scope id => exact .seq (resolveWindow_keeps trivial) fun _ => Keeps.pure _
  | fieldsBelow scope names => exact .seq (fieldsBelow_keeps he scope names) fun _ => Keeps.pure _
  | visible scope => exact .seq (visibleAfterValidation_keeps he scope) fun _ => Keeps.pure _

theorem Request.advances_runAll (s : Setting) (a : Analysis) (requests : List (Nat × Request)) :
    Advances a (runAll s a requests) := by
  induction requests generalizing a with
  | nil => exact .refl a
  | cons q requests ih =>
    have hstep : Advances a (q.2.run (engine q.1) s a).2 := (run_keeps s q.1 q.2 a trivial).1.2
    exact hstep.trans (ih _)

/-- No relation is being validated, and those and only those have a row type that are valid. -/
def Settled (a : Analysis) : Prop :=
  ∀ id n, a.store.namespace? id = some n →
    n.status = .unvalidated ∧ n.row? = none ∨ ∃ row, n.status = .valid row ∧ n.row? = some row

theorem Advances.settled (h : Advances a b) (ha : ∀ id, a.store.namespace? id = none) :
    Settled b := by
  intro id n hn
  have hst := h.status id
  rw [Store.status?, Store.status?, ha id, hn, Option.map_none, Option.map_some] at hst
  cases hst with
  | added hst =>
    rw [Namespace.row?]
    cases hs : n.status with
    | unvalidated => exact .inl ⟨rfl, rfl⟩
    | inProgress row => rw [hs] at hst; cases hst
    | valid row => exact .inr ⟨row, rfl, rfl⟩

section Statements

variable {t : Tree} {types : TypeTable} {lookups : CatalogUse}

theorem advances_analyse (s : Setting) (root : Link) :
    Advances (.start t types lookups) (analyse root s (.start t types lookups)).2 := by
  obtain ⟨b, _, hadv, ⟨_, _, h⟩ | ⟨_, h⟩⟩ :=
    analyse_cases (s := s) (H := fun _ => True) (.inl trivial)
      (registered_start t types lookups) root
  · rw [h]
    exact hadv
  · exact hadv.trans (h (engine_settles s _) (engine_settles s _).source trivial trivial).1.2

theorem advances_complete (s : Setting) (root : Link) (pos : Int) :
    Advances (.start t types lookups)
      (Completion.complete root pos s (.start t types lookups)).2 := by
  have hregister := registerStatement_keeps (s := s) (H := fun _ => True)
    (I := fun a => Registered t a ∧ HasScope 0 a) (.inl trivial) root
  obtain ⟨b, _, hadv, ⟨_, _, h⟩ | ⟨_, _, h⟩⟩ :=
    registering_bind (registered_start t types lookups) hregister
  · rw [Completion.complete, h]
    exact hadv
  rw [Completion.complete, h]
  refine hadv.trans (Runs.bind_get (I := fun _ => True) (H := fun _ => True)
    (R := fun _ => True) (fun a _ => ?_) b trivial).1.2
  dsimp only
  have hobjects (names : List String) : Keeps s (fun _ => True) (fun _ => True)
      (Completion.objects names) := by
    refine .bind_read ?_
    split
    · exact Keeps.pure _
    · exact .throw trivial
  split
  · exact .seq (hobjects _) fun _ => Keeps.pure _
  · refine .bind_get fun a' _ => ?_
    have he := engine_settles s (stepsFor a')
    split
    · exact .seq (visibleAfterValidation_keeps he _) fun _ => Keeps.pure _
    · exact .seq (fieldsBelow_keeps he _ _) fun _ => Keeps.pure _

end Statements

/-- Whenever the analysis of a statement or the completion of a name in it returns, with success or
not, every relation is unvalidated without a row type or valid with one. And a relation that is
valid in some state of an analysis has the same status and row type after any further questions,
whether they are answered or not. -/
theorem settled_and_valid_stays (s : Setting) (t : Tree) (types : TypeTable)
    (lookups : CatalogUse) :
    (∀ root, Settled (analyse root s (.start t types lookups)).2) ∧
    (∀ root pos, Settled (Completion.complete root pos s (.start t types lookups)).2) ∧
    ∀ a requests id row, a.store.status? id = some (.valid row) →
      (Request.runAll s a requests).store.status? id = some (.valid row) := by
  have hstart (id : NamespaceId) : (start t types lookups).store.namespace? id = none := rfl
  refine ⟨fun root => ?_, fun root pos => ?_, fun a requests id row hid => ?_⟩
  · exact (advances_analyse s root).settled hstart
  · exact (advances_complete s root pos).settled hstart
  · exact (Request.advances_runAll s a requests).status?_valid hid

/-- The query `SELECT X FROM T`. -/
def tableQuery : Tree where
  nodes := #[
    { form := .identifier { names := ["X"] } }, { form := .list [some 0] },
    { form := .identifier { names := ["T"] } },
    { form := .call ⟨{ name := "SELECT", kind := .select }, [none, some 1, some 2]⟩ }]

def oneTable : CatalogReader :=
  { CatalogReader.empty with
    table := fun names => .ok (if names = ["T"] then
      some { names, row := .row [("X", .scalar { name := .integer } false)] false } else none) }

/-- After the analysis of the query it and its table are valid. They stay so when they are asked for
again, when a table that is not there is looked for, and when a column is that neither has. -/
theorem settled_and_valid_stays_table :
    let s : Setting := { operators := {}, catalog := oneTable, config := {} }
    let a := (analyse (some 3) s (.start tableQuery {} {})).2
    let requests : List (Nat × Request) :=
      [(9, .validate 1 .unknown), (9, .findTable 1 ["U"]), (9, .resolve 1 none { names := ["Y"] }),
        (9, .validate 0 .unknown)]
    ∀ id ∈ [0, 1], ∃ row, row.fieldNames = ["X"] ∧ a.store.status? id = some (.valid row) ∧
      (Request.runAll s a requests).store.status? id = some (.valid row) := by
  intro s a requests id hid
  have hrow : (a.store.namespace? id).any fun n => n.row?.any fun row =>
      row.fieldNames == ["X"] := by
    revert id
    decide +kernel
  obtain ⟨hsettled, _, hstays⟩ := settled_and_valid_stays s tableQuery {} {}
  obtain ⟨n, hn, hrow⟩ := Option.any_eq_true _ _ |>.mp hrow
  obtain ⟨row, hrow, hnames⟩ := Option.any_eq_true _ _ |>.mp hrow
  have hvalid : a.store.status? id = some (.valid row) := by
    obtain ⟨_, hnone⟩ | ⟨row', hstatus, hrow'⟩ := hsettled (some 3) id n hn
    · cases hnone.symm.trans hrow
    · cases hrow'.symm.trans hrow
      rw [Store.status?, hn, Option.map_some, hstatus]
  exact ⟨row, beq_iff_eq.mp hnames, hvalid, hstays a requests id row hvalid⟩

end SqlAnalysis.Analysis

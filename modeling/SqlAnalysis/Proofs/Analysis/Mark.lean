import SqlAnalysis.Analysis.Validation
import SqlAnalysis.Proofs.Analysis.Names

/-!
What an analysis writes down about the nodes of a statement. `Mark` has a case for each place where
a rule for expressions does so, and `Entry` one for each place where a rule for relations does: what
all of them keep is kept by every rule. `Requests` says what an engine may be asked about.
-/

namespace SqlAnalysis.Analysis

/-- What an engine may be asked. -/
structure Requests where
  scopes : ScopeId → Prop
  /-- The nodes whose type may be asked for. -/
  typed : Link → Prop
  /-- The nodes that a known type may be pushed into. -/
  expected : Link → Prop
  /-- The row types that may be expected of a relation. -/
  targets : SqlType → Prop

namespace Requests

def any : Requests := ⟨fun _ => True, fun _ => True, fun _ => True, fun _ => True⟩

/-- The type may be pushed into the node. -/
def Offers (R : Requests) (id : Link) (t : SqlType) : Prop :=
  R.expected id ∨ t.isUnknown ∧ R.typed id

end Requests

section Writing

variable (a : Analysis) (i : NodeId)

def withType (t : SqlType) : Analysis :=
  { a with typeOf := if t.isUnknown then a.typeOf else a.typeOf.insert i t }

def withScopeOf (scope : ScopeId) : Analysis := { a with scopeOf := a.scopeOf.insert i scope }

def withOverload (o : Operator) : Analysis := { a with overloads := a.overloads.insert i o }

def withQualified (names : List String) : Analysis :=
  { a with qualified := a.qualified.insert i names }

def withDerived (scope : ScopeId) (t : SqlType) : Analysis :=
  { a.withType i t with scopeOf := a.scopeOf.insertNew i scope }

def withParameter (k : Int) (t : SqlType) : Analysis :=
  { a.withType i t with parameters := a.parameters.insert k t }

def withFrame (f : Frame) : Analysis := { a with frames := a.frames.insert i f }

/-- The analysis with the nodes that a step adds to the tree. -/
def grown {α : Type} (x : TreeM α) : Analysis := { a with tree := (x a.tree).2 }

def withSelectList (items : List NodeId) : Analysis :=
  { a with selectLists := a.selectLists.insert i items }

def withRow (n : Namespace) (row : SqlType) : Analysis :=
  if a.tree.isCall n.enclosing [.naming] then (a.withType n.node row).withType n.enclosing row
  else a.withType n.node row

omit i in
theorem run_growing (x : TreeM α) (s : Setting) :
    growing x s a = (.ok (x a.tree).1, a.grown x) := rfl

theorem run_setType (t : SqlType) (s : Setting) : setType i t s a = (.ok (), a.withType i t) := by
  unfold setType withType
  split <;> rfl

theorem run_recordRow : (do
    setType n.node row
    if (← get).tree.isCall n.enclosing [.naming] then
      setType n.enclosing row : AnalysisM Unit) s a =
      (.ok (), a.withRow n row) := by
  rw [run_bind, run_setType]
  dsimp only
  rw [run_bind_get, withRow]
  change (if a.tree.isCall n.enclosing [.naming] then _ else _ : AnalysisM Unit) s _ = _
  split
  · exact run_setType _ _ _ _
  · rfl

end Writing

theorem setType_keeps [Recording I] : Keeps s I H (setType i t) :=
  .of_from fun a ha =>
    .of_ok (run_setType a i t s) (Recording.notes ha (.of_eq rfl)) (.of_eq rfl) trivial

/-- The operator that a call on operands of these types means. -/
def choice? (ops : Registry) (o : Operator) (ts : List SqlType) : Option Operator :=
  ((candidates ops o ts.length).filter fun c => c.arity.allows ts.length).find? (accepts ts)

/-- A null constant that takes its type from the call it is in. -/
def HoldsNull (t : Tree) (c : Call) (i : NodeId) : Prop :=
  c.kind = .caseOf ∧ (some i ∈ t.elements (c.operand 2) ∨ c.operand 3 = some i) ∨
    c.kind = .cast ∧ c.operand 0 = some i

/-- A node that declares a window, or is a call over one. -/
inductive HasWindow (t : Tree) (i : NodeId) : Link → Prop
  | declaration : HasWindow t i (some i)
  | over {c : Call} (hc : t.call? (some i) = some c) (hk : c.kind = .over) : HasWindow
    t i (c.operand 1)

/-- The analyses that the note of a frame, at the declaration of its window or at a call over it,
leads to from analyses with the property `I`. -/
inductive Framed (s : Setting) (I : Analysis → Prop) : Analysis → Prop
  | note {a₀ a b : Analysis} {steps : Nat} {scope : ScopeId} {i : NodeId} {x : Link} {w : Window}
      {op : Option Operator} {f : Frame} (hx : HasWindow a.tree i x)
        (hw : resolveWindow scope x s a₀ = (.ok w, a)) (ha : I a)
      (hrun : validateWindow (engine steps) scope w op s a = (.ok f, b))
        (hb : I b) (hadv : Advances a b) :
      Framed s I (b.withFrame i f)

theorem Framed.imp (h : Framed s I b) (hI : ∀ {a}, I a → I' a) : Framed s I' b := by
  obtain ⟨hx, hw, ha, hrun, hb, hadv⟩ := h
  exact .note hx hw (hI ha) hrun (hI hb) hadv

theorem Framed.exists_notes (h : Framed s I b) :
    ∃ a, I a ∧ Notes a b ∧ b.selectLists = a.selectLists := by
  obtain ⟨_, _, _, _, hb, _⟩ := h
  exact ⟨_, hb, .of_eq rfl, rfl⟩

theorem Framed.recorded [Recording I] (h : Framed s I b) : I b := by
  obtain ⟨a, ha, hnotes, _⟩ := h.exists_notes
  exact Recording.notes ha hnotes

/-- The analyses that one mark of the rules for expressions leads to from analyses with the property
`I`. -/
inductive Mark (s : Setting) (W : Requests) (I : Analysis → Prop) : Analysis → Prop
  /-- The type that was derived for a node. -/
  | derived {a b : Analysis} {steps : Nat} {scope : ScopeId} {i : NodeId} {f : Form} {t : SqlType}
      (hi : W.typed (some i)) (ha : I a) (hf : a.tree.form? (some i) = some f)
      (hq : (a.tree.kind (some i)).isQuery = false) (hnew : a.typeOf.get? i = none)
      (hrun : deriveForm (engine steps) scope i f s a = (.ok t, b)) (hb : I b)
        (hadv : Advances a b) :
      Mark s W I (b.withDerived i scope t)
  /-- The type of the aggregate of a windowed call. -/
  | windowed {a b : Analysis} {steps : Nat} {scope : ScopeId} {i j : NodeId}
    {c inner : Call} {t : SqlType}
      (hi : W.typed (some i)) (ha : I a) (hc : a.tree.call? (some i) = some c) (hk : c.kind = .over)
      (hj : c.operand 0 = some j) (hinner : a.tree.call? (some j) = some inner)
      (hrun : deriveOperator (engine steps) scope j inner true s a = (.ok t, b))
        (hb : I b) (hadv : Advances a b) :
      Mark s W I ((b.withType j t).withScopeOf j scope)
  /-- The operator that a call means, by the types of its operands. -/
  | operator {a b : Analysis} {steps : Nat} {scope : ScopeId} {i : NodeId}
    {c : Call} {ts : List SqlType} {o : Operator}
      (hi : W.typed (some i) ∧ c.kind.isQuery = false ∨ ∃ j c', W.typed (some j) ∧
      a.tree.call? (some j) = some c' ∧ c'.kind = .over ∧
        c'.operand 0 = some i ∧ c.operator.isAggregate) (ha : I a)
        (hc : a.tree.call? (some i) = some c)
      (hrun : operandTypes (engine steps) scope (typedOperands a.tree c) s a =
        (.ok ts, b)) (hb : I b)
      (hadv : Advances a b) (ho : choice? s.operators c.operator ts = some o) : Mark
        s W I (b.withOverload i o)
  /-- A call that is found to be of its own operator. -/
  | special {a : Analysis} {i : NodeId} {c : Call} (hi : W.typed (some i)) (ha : I a)
      (hc : a.tree.call? (some i) = some c)
      (hk : c.kind = .existsRows ∨ c.kind = .cast ∨ c.kind = .isIn ∨ c.kind = .isNotIn) :
      Mark s W I (a.withOverload i c.operator)
  /-- A name that is a function without operands. -/
  | function {a b : Analysis} {i : NodeId} {name : Identifier} {o : Operator}
    {t : SqlType} (hi : W.typed (some i))
      (ha : I a) (hf : a.tree.form? (some i) = some (.identifier name)) (hsimple : name.isSimple)
      (hrun : nullaryFrom (s.operators.lookup name.last .functionId) s a =
        (.ok (some (o, t)), b)) (hb : I b) :
      Mark s W I (b.withOverload i o)
  /-- The qualified form of a name. -/
  | qualified {a b : Analysis} {steps : Nat} {scope : ScopeId} {i : NodeId}
    {name : Identifier} {r : Resolved}
      (hi : W.typed (some i)) (ha : I a) (hf : a.tree.form? (some i) = some (.identifier name))
      (hplain : name.isSimple →
        ∃ c, nullaryFrom (s.operators.lookup name.last .functionId) s c = (.ok none, a))
      (hrun : resolve (engine steps) scope (some i) name s a = (.ok r, b))
        (hb : I b) (hadv : Advances a b) :
      Mark s W I (b.withQualified i r.names)
  /-- The type that a null constant is expected to have. -/
  | null {a : Analysis} {i : NodeId} {t : SqlType} (ha : I a)
    (hf : a.tree.form? (some i) = some (.literal .null))
      (hi : W.expected (some i) ∨ ∃ b j c, I b ∧ Advances b a ∧ W.typed (some j) ∧
      b.tree.call? (some j) = some c ∧
        HoldsNull b.tree c i) : Mark s W I (a.withType i t)
  /-- The type that a parameter is expected to have. -/
  | parameter {a b : Analysis} {i : NodeId} {k : Int} {target t : SqlType}
    (hi : W.expected (some i)) (ha : I a)
      (hf : a.tree.form? (some i) = some (.parameter k)) (hknown : target.isUnknown = false)
      (hrun : building (TypeTable.withNullable true target) s a = (.ok t, b))
        (hb : I b) : Mark s W I (b.withParameter i k t)
  /-- The frame of a window. -/
  | framed {b : Analysis} (h : Framed s I b) : Mark s W I b

/-- A relation that was registered, of a kind and at a node. -/
def Relates (I : Analysis → Prop) (id : NamespaceId) (kind : NamespaceKind)
    (node : NodeId) : Prop :=
  ∃ a n, I a ∧ a.store.namespace? id = some n ∧ n.kind = kind ∧ n.node = node

/-- The row of one of the relations that a star was found to stand for. -/
def StarRow (s : Setting) (I : Analysis → Prop) (scope : ScopeId) (c : Child)
    (row : SqlType) (a : Analysis) : Prop :=
  ∃ steps star i sources a₁ b₁ a₂ b₂, I a₁ ∧ I b₁ ∧ I a₂ ∧ I b₂ ∧
    starSources (engine steps) scope star i s a₁ = (.ok sources, b₁) ∧
    c ∈ sources ∧ Advances b₁ a₂ ∧ childRow (engine steps) c s a₂ = (.ok row, b₂) ∧ Advances b₂ a

instance (s : Setting) (I : Analysis → Prop) (scope : ScopeId) (c : Child) (row : SqlType) :
    Stable (StarRow s I scope c row) where
  advances := by
    rintro a b ⟨steps, star, i, sources, a₁, b₁, a₂, b₂, h₁, h₁', h₂, h₂',
      hs, hc, hadv, hrow, ha⟩ hb
    exact ⟨steps, star, i, sources, a₁, b₁, a₂, b₂, h₁, h₁', h₂, h₂', hs,
      hc, hadv, hrow, ha.trans hb⟩

theorem StarRow.imp
    (h : StarRow s I scope c row a) (hI : ∀ {a}, I a → I' a) : StarRow s I' scope c row a := by
  obtain ⟨steps, star, i, sources, a₁, b₁, a₂, b₂, h₁, h₁', h₂, h₂', hrest⟩ := h
  exact ⟨steps, star, i, sources, a₁, b₁, a₂, b₂, hI h₁, hI h₁', hI h₂, hI h₂', hrest⟩

/-- The same of what the rules for relations write down. -/
inductive Entry (s : Setting) (I : Analysis → Prop) : Analysis → Prop
  /-- The row type of a relation that became valid. -/
  | row {a b : Analysis} {id : NamespaceId} {n : Namespace} {row : SqlType} (ha : I a)
      (hn : a.store.namespace? id = some n) (hst : n.status = .unvalidated) (hb : I b)
      (hvalid : b.store.status? id = some (.valid row)) : Entry s I (b.withRow n row)
  /-- The row type of a table constructor at its rows. -/
  | cells {a : Analysis} {id : NamespaceId} {node r : NodeId} {c : Call} {t : SqlType} (ha : I a)
      (hn : Relates I id .values node) (hc : a.tree.call? (some node) = some c)
      (hr : some r ∈ c.operands) (hrow : a.tree.isCall (some r) [.row]) : Entry s I (a.withType r t)
  /-- An output column under its name. -/
  | item {a : Analysis} {as : Operator} {expr : Link} {name : String} {t : SqlType} (ha : I a)
      (hb : I (a.grown (Tree.buildAlias as expr name))) (ht : expr.bind a.typeOf.get? = some t) :
      Entry s I ((a.grown (Tree.buildAlias as expr name)).withType
        (Tree.buildAlias as expr name a.tree).1 t)
  /-- A column that a star stands for. -/
  | column {a b : Analysis} {scope : ScopeId} {c : Child} {row : SqlType}
    {f : Field} {n : Node} {i : NodeId} (ha : I a)
      (hb : I b) (hnode : n.form = .identifier { names := [c.aliasName, f.1] })
      (hab : b = a.grown (Tree.push n)) (hi : i = a.tree.nodes.size)
      (hrow : StarRow s I scope c row a) (hf : f ∈ row.fields) : Entry
      s I (((b.withType i f.2).withQualified i [c.aliasName, f.1]).withScopeOf i scope)
  /-- A name of a select list in its qualified form. -/
  | expanded {a b : Analysis} {scope : ScopeId} {i out : NodeId} {name : Identifier}
    {names : List String} {n : Node}
      (ha : I a) (hb : I b) (hf : a.tree.form? (some i) = some (.identifier name))
      (hnames : a.qualified.get? i = some names) (hlonger : name.names.length < names.length)
      (hnode : n.form = .identifier { name with names }) (hab : b = a.grown (Tree.push n))
      (hout : out = a.tree.nodes.size) : Entry s I (((b.withType out
      ((a.typeOf.get? i).getD .unknown)).withQualified out names).withScopeOf out scope)
  /-- A column that a change assigns to. -/
  | target {a b : Analysis} {i j : NodeId} {name : Identifier} {c : Call} {t : SqlType} (ha : I a)
      (hc : a.tree.call? (some j) = some c)
      (hi : c.kind = .insert ∧ some i ∈ a.tree.elements (InsertParts.ofCall c).columns ∨
        c.kind = .update ∧ some i ∈ a.tree.elements (UpdateParts.ofCall c).columns)
        (hb : I b) (hadv : Advances a b)
      (hf : b.tree.form? (some i) = some (.identifier name)) : Entry s I (b.withType i t)

namespace Mark

theorem exists_notes (h : Mark s W I b) : ∃ a, I a ∧ Notes a b ∧ b.selectLists = a.selectLists := by
  cases h with
  | derived _ _ _ _ _ _ hb => exact ⟨_, hb, .of_eq rfl, rfl⟩
  | windowed _ _ _ _ _ _ _ hb => exact ⟨_, hb, .of_eq rfl, rfl⟩
  | operator _ _ _ _ hb => exact ⟨_, hb, .of_eq rfl, rfl⟩
  | special _ ha => exact ⟨_, ha, .of_eq rfl, rfl⟩
  | function _ _ _ _ _ hb => exact ⟨_, hb, .of_eq rfl, rfl⟩
  | qualified _ _ _ _ _ hb => exact ⟨_, hb, .of_eq rfl, rfl⟩
  | null ha => exact ⟨_, ha, .of_eq rfl, rfl⟩
  | parameter _ _ _ _ _ hb => exact ⟨_, hb, .of_eq rfl, rfl⟩
  | framed h => exact h.exists_notes

theorem imp (h : Mark s W I b) (hI : ∀ {a}, I a → I' a) : Mark s W I' b := by
  cases h with
  | derived hi ha hf hq hnew hrun hb hadv => exact .derived hi (hI ha) hf hq hnew hrun (hI hb) hadv
  | windowed hi ha hc hk hj hinner hrun hb hadv =>
    exact .windowed hi (hI ha) hc hk hj hinner hrun (hI hb) hadv
  | operator hi ha hc hrun hb hadv ho => exact .operator hi (hI ha) hc hrun (hI hb) hadv ho
  | special hi ha hc hk => exact .special hi (hI ha) hc hk
  | function hi ha hf hsimple hrun hb => exact .function hi (hI ha) hf hsimple hrun (hI hb)
  | qualified hi ha hf hplain hrun hb hadv =>
    exact .qualified hi (hI ha) hf hplain hrun (hI hb) hadv
  | null ha hf hi =>
    refine .null (hI ha) hf (hi.imp_right ?_)
    rintro ⟨b, j, c, hb, hrest⟩
    exact ⟨b, j, c, hI hb, hrest⟩
  | parameter hi ha hf hknown hrun hb => exact .parameter hi (hI ha) hf hknown hrun (hI hb)
  | framed h => exact .framed (h.imp hI)

end Mark

theorem notes_withRow : Notes a (a.withRow n row) := by
  unfold withRow
  split <;> exact .of_eq rfl

theorem selectLists_withRow (a : Analysis) (n : Namespace) (row : SqlType) :
    (a.withRow n row).selectLists = a.selectLists := by
  unfold withRow
  split <;> rfl

namespace Entry

theorem exists_notes (h : Entry s I b) : ∃ a, I a ∧ Notes a b ∧ b.selectLists = a.selectLists := by
  cases h with
  | row _ _ _ hb => exact ⟨_, hb, notes_withRow, selectLists_withRow _ _ _⟩
  | cells ha => exact ⟨_, ha, .of_eq rfl, rfl⟩
  | item _ hb => exact ⟨_, hb, .of_eq rfl, rfl⟩
  | column _ hb => exact ⟨_, hb, .of_eq rfl, rfl⟩
  | expanded _ hb => exact ⟨_, hb, .of_eq rfl, rfl⟩
  | target _ _ _ hb => exact ⟨_, hb, .of_eq rfl, rfl⟩

theorem imp (h : Entry s I b) (hI : ∀ {a}, I a → I' a) : Entry s I' b := by
  have hrelates {id kind node} : Relates I id kind node → Relates I' id kind node
    | ⟨a, n, ha, hn⟩ => ⟨a, n, hI ha, hn⟩
  cases h with
  | row ha hn hst hb hvalid => exact .row (hI ha) hn hst (hI hb) hvalid
  | cells ha hn hc hr hrow => exact .cells (hI ha) (hrelates hn) hc hr hrow
  | item ha hb ht => exact .item (hI ha) (hI hb) ht
  | column ha hb hnode hab hi hrow hf => exact .column (hI ha) (hI hb) hnode hab hi (hrow.imp hI) hf
  | expanded ha hb hf hnames hlonger hnode hab hout =>
    exact .expanded (hI ha) (hI hb) hf hnames hlonger hnode hab hout
  | target ha hc hi hb hadv hf => exact .target (hI ha) hc hi (hI hb) hadv hf

end Entry

/-- Properties that are kept by all marks that answers to the requests `W` make. -/
class Heeding (s : Setting) (W : Requests) (I : Analysis → Prop) : Prop where
  mark : ∀ {b}, Mark s W I b → I b

/-- Properties that are kept by all entries. -/
class Entering (s : Setting) (I : Analysis → Prop) : Prop where
  entry : ∀ {b}, Entry s I b → I b

/-- Properties that have nothing to do with the select lists of queries. -/
class Listing (I : Analysis → Prop) : Prop where
  list : ∀ {a} q items, I a → I (a.withSelectList q items)

instance {I : Analysis → Prop} [Recording I] : Listing I :=
  ⟨fun _ _ ha => Recording.notes ha (.of_eq rfl)⟩

instance {I P : Analysis → Prop} [Listing I] [Stable P] : Listing fun a => I a ∧ P a :=
  ⟨fun q items ha => ⟨Listing.list q items ha.1, Stable.advances ha.2 (.of_eq rfl)⟩⟩

instance {s : Setting} {W : Requests} {I : Analysis → Prop} [Recording I] : Heeding s W I where
  mark h := by
    obtain ⟨a, ha, hnotes, _⟩ := h.exists_notes
    exact Recording.notes ha hnotes

instance {s : Setting} {I : Analysis → Prop} [Recording I] : Entering s I where
  entry h := by
    obtain ⟨a, ha, hnotes, _⟩ := h.exists_notes
    exact Recording.notes ha hnotes

instance {s : Setting} {W : Requests} {I P : Analysis → Prop} [Heeding s W I] [Stable P] :
    Heeding s W fun a => I a ∧ P a where
  mark h := by
    obtain ⟨a, ha, hnotes, _⟩ := h.exists_notes
    exact ⟨Heeding.mark (h.imp fun h => h.1), Stable.advances ha.2 hnotes.advances⟩

instance {s : Setting} {I P : Analysis → Prop} [Entering s I] [Stable P] :
    Entering s fun a => I a ∧ P a where
  entry h := by
    obtain ⟨a, ha, hnotes, _⟩ := h.exists_notes
    exact ⟨Entering.entry (h.imp fun h => h.1), Stable.advances ha.2 hnotes.advances⟩

end SqlAnalysis.Analysis

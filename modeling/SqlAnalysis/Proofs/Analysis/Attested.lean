import SqlAnalysis.Proofs.Analysis.FromClause
import SqlAnalysis.Proofs.Analysis.Termination

/-!
What has been written down about the nodes of a statement in the end, and what held when relations
became valid. A property holds in the end if it holds in the registered state and is kept by every
mark and every entry. `Attested` keeps, for every valid relation, the two ends of the run that has
found its row type out, with a property of analyses that held at both.
-/

namespace SqlAnalysis.Analysis

variable {root : Link} {id : NamespaceId}

theorem Begun.keeps {types : TypeTable} (h : Begun s t root types a₀ a)
    (ho : t.Ordered) (hroot : t.Has root) [Hushed I] [Heeding s (.has t) I]
    [Entering s I] [Listing I] (hI : ∀ b, I b → SameDeclared a₀ b)
    (hstatus : ∀ b id st, I b → I (b.withStatus id st)) (hstart : I a₀) : I a := by
  have hsettles := engine_settles_of_status (s := s) (H := fun _ => True) (R := .has t)
    trivial (Requests.closed_has h.registered ho hI) (fun {b id n target} hb hn _ => by
      obtain ⟨n₀, hn₀, hdecl⟩ := (hI b hb).namespace? hn
      obtain ⟨f, hf⟩ := h.registered.nodes id n₀ hn₀
      have hx : t.Has (some n.node) := Namespace.node_of_declared hdecl ▸ .of_form? hf
      exact Requests.opens_has ho (fun c hc => h.registered.tree ▸ (hI c hc.1).tree) hx)
    hstatus (stepsFor a₀)
  exact (h.asked hsettles (fun x _ => validateSource_keeps hsettles trivial) hroot hstart).1.1

theorem Placed.block_unique (hp : Placed t root a₀) (hn : a₀.store.declared? id = some n)
    (hk : n.kind = .select) (hn' : a₀.store.declared? id' = some n') (hnode : n'.node = n.node) :
    id' = id := by
  obtain ⟨m, hm, rfl⟩ := Option.map_eq_some_iff.mp hn
  obtain ⟨m', hm', rfl⟩ := Option.map_eq_some_iff.mp hn'
  have hstands := hp.kinds id m hm
  rw [show m.kind = .select from hk, Tree.Stands] at hstands
  exact hp.alone id id' m m' (by rw [hstands]; rfl) hm hm' hnode

def SameList (n : Namespace) (a b : Analysis) : Prop :=
  n.kind = .select → b.selectLists.get? n.node = a.selectLists.get? n.node

namespace Attested

theorem of_lists (h : Attested s P SameList a₀ a) (hab : Notes a b)
    (hlists : b.selectLists = a.selectLists) (hP : P b) : Attested s P SameList a₀ b :=
  h.of_notes hab hP fun n _ h hk => (congrArg (Table.get? · n.node) hlists).trans (h hk)

instance [Hushed P] : Hushed (Attested s P SameList a₀) where
  silent h hs := h.of_lists hs.toNotes hs.selectLists (Hushed.silent h.holds hs)

instance {W : Requests} [Heeding s W P] : Heeding s W (Attested s P SameList a₀) where
  mark h := by
    obtain ⟨a, ha, hnotes, hlists⟩ := h.exists_notes
    exact ha.of_lists hnotes hlists (Heeding.mark (h.imp holds))

instance [Entering s P] : Entering s (Attested s P SameList a₀) where
  entry h := by
    obtain ⟨a, ha, hnotes, hlists⟩ := h.exists_notes
    exact ha.of_lists hnotes hlists (Entering.entry (h.imp holds))

/-- While a query block is in progress, the select lists of the others are left alone. -/
theorem withSelectList [Listing P] (hp : Placed t root a₀) (h : Attested s P SameList a₀ a)
    (hprogress : InProgress id a) (hn : a₀.store.declared? id = some n) (hk : n.kind = .select)
    (items : List NodeId) : Attested s P SameList a₀ (a.withSelectList n.node items) := by
  refine h.later (.of_notes (.of_eq rfl)) (Listing.list _ _ h.holds) (fun _ _ => .inl)
    fun id' n' row c hid' hn' h hk' => ?_
  rw [Analysis.withSelectList, Table.get?_insert, if_neg, h hk']
  intro heq
  have hsame : id' = id := hp.block_unique hn hk hn' heq.symm
  exact hprogress.ne_valid row (hsame ▸ hid')

end Attested

theorem Begun.attested [Hushed P] [Heeding s .any P] [Entering s P] [Listing P] {types : TypeTable}
    (h : Begun s t root types a₀ a) (hP : ∀ a id st, P a → P (a.withStatus id st)) (hstart : P a₀) :
    Attested s P SameList a₀ a := by
  have hsettles : (engine (stepsFor a₀)).Settles s (Attested s P SameList a₀)
      (fun _ => True) .any :=
    engine_attested_of hP (fun _ _ _ _ _ h => h) (fun _ _ _ => rfl)
      (fun id n _ hn hk _ b _ _ o _ _ hb => ⟨hb.1.withSelectList h.placed hb.2 hn hk o.items, hb.2⟩)
  exact (h.asked hsettles hsettles.source trivial (h.registered.attested hstart)).1.1

end SqlAnalysis.Analysis

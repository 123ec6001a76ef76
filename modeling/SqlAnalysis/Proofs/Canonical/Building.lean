import SqlAnalysis.Proofs.Canonical.Normal

/-!
What the steps of the canonical form build. Each step adds nodes that stand for the term which the
rule gives, and the nodes it is given become parts of what it adds; only the changed table and all
but one of the compared values are copied.
-/

namespace SqlAnalysis

namespace Tree

variable {t : Tree}

theorem Builds.refine (hm : Builds t m Q)
    (h : ∀ a u, u.Ordered → t.Extends u → Q a u → Q' a u) : Builds t m Q' :=
  ⟨hm.1, hm.2.1, h _ _ hm.1 hm.2.1 hm.2.2⟩

theorem Builds.push_call (ht : t.Ordered) {span : Option Span} (h : ∀ y ∈ operands, t.Has y) :
    Builds t (Tree.push { form := .call { operator := o, operands }, span }) fun id u =>
      u.call? (some id) = some { operator := o, operands } ∧ id = t.size :=
  (Builds.push_form ht (n := { form := .call { operator := o, operands }, span }) h).weaken
    fun _ _ hform =>
    ⟨call?_of_form? hform.1, hform.2⟩

variable {items : List Link}

theorem list?_of_form? (h : t.form? x = some (.list items)) : t.list? x = some items := by
  rw [list?, h]

theorem Extends.list? (hu : t.Extends u) (h : t.list? x = some items) : u.list? x = some items :=
  list?_of_form? (hu.form? (form?_of_list? h))

theorem Extends.call? (hu : t.Extends u) (h : t.call? x = some c) : u.call? x = some c :=
  call?_of_form? (hu.form? (form?_of_call? h))

theorem Extends.items_eq (hext : t.Extends u) (hx : t.Has x) : u.items x = t.items x := by
  rw [items, items, Tree.list?, Tree.list?, hext.form?_eq hx]

theorem Ordered.term_eq_absent_iff (ht : t.Ordered) (hx : t.Has x) :
    t.term x = .absent ↔ x = none := by
  constructor
  · intro h
    cases x with
    | none => rfl
    | some i =>
      obtain ⟨n, hn⟩ : ∃ n, t.nodes[i]? = some n := ⟨_, Array.getElem?_eq_getElem (hx i rfl)⟩
      have hform : t.form? (some i) = some n.form := by
        rw [form?, node?, Option.bind_some, hn, Option.map_some]
      rw [ht.term_of_form? hform] at h
      cases h
  · rintro rfl
    rfl

theorem Ordered.isAbsent_term (ht : t.Ordered) (hx : t.Has x) : (t.term x).isAbsent ↔ x = none :=
  Term.isAbsent_iff.trans (ht.term_eq_absent_iff hx)

/-- `x` is a node of its own that stands for the same term as `y`. -/
structure CopyOf (t : Tree) (x y : Link) : Prop where
  term_eq : t.term x = t.term y
  own : x = y → x = none
  here : t.Has x
  there : t.Has y

theorem CopyOf.mono (ht : t.Ordered) (hu : u.Ordered) (hext : t.Extends u) (h : t.CopyOf x y) :
    u.CopyOf x y where
  term_eq := by rw [hext.term_eq ht hu h.here, hext.term_eq ht hu h.there, h.term_eq]
  own := h.own
  here := h.here.mono hext
  there := h.there.mono hext

theorem copy_copyOf (ht : t.Ordered) (hx : t.Has x) :
    Builds t (t.copy x) fun y u => u.CopyOf y x := by
  refine (copy_term ht ht).refine fun y u hu hext ⟨hterm, hy, hnew⟩ => ⟨?_, ?_, hy, hx.mono hext⟩
  · rw [hterm, hext.term_eq ht hu hx]
  · rintro rfl
    cases y with
    | none => rfl
    | some j => exact absurd (hx j rfl) (Nat.not_lt.mpr (hnew j rfl))

end Tree

theorem SelectParts.map_operands (p : SelectParts) (f : Link → Term) :
    p.operands.map f = [f p.keywords, f p.list, f p.source, f p.condition,
      f p.groups, f p.having, f p.windows, f p.order] ++ p.rest.map f := by
  rw [operands, List.map_append]
  rfl

variable {c : Call}

namespace Canonical

open SqlAnalysis.Tree

variable {t : Tree}

/-- The operands of a block without keywords, groups and windows. -/
def plainBlock (list source condition order : Link) : SelectParts :=
  { list, source, condition, order }

/-- The call of such a block. -/
abbrev blockCall (v : Vocabulary) (list source condition order : Link) : Call where
  operator := v.select
  operands := (plainBlock list source condition order).operands

theorem term_of_plainBlock (ht : t.Ordered)
    (h : t.call? x = some (blockCall v list source condition order)) :
    t.term x =
      blockTerm v (t.term list) (t.term source) (t.term condition) (t.term order) := by
  rw [ht.term_of_call? h]
  rfl

theorem has_list_of_plainBlock (ht : t.Ordered)
    (h : t.call? x = some (blockCall v (some list) source condition order)) : t.Has (some list) :=
  .part ht (form?_of_call? h) (List.mem_cons_of_mem _ List.mem_cons_self)

theorem block_spec (ht : t.Ordered) (hp : ∀ y ∈ p.operands, t.Has y) :
    Builds t (block v p span) fun id u =>
      u.call? (some id) = some { operator := v.select, operands := p.operands } :=
  (Builds.push_call ht hp).weaken fun _ _ h => h.1

theorem star_spec (ht : t.Ordered) :
    Builds t (Tree.buildIdentifier ["*"]) fun id u => u.term (some id) = star ∧ u.Has (some id) :=
  (Builds.push_form ht (n := { form := .identifier { names := ["*"] } }) nofun).refine
    fun _ _ hu _ ⟨hform, _⟩ =>
    ⟨hu.term_of_form? hform, .of_form? hform⟩

theorem list_spec (ht : t.Ordered) {items : List Link} (h : ∀ y ∈ items, t.Has y) :
    Builds t (Tree.buildList items) fun id u => u.list? (some id) = some items :=
  (Builds.push_form ht (n := { form := .list items }) h).weaken fun _ _ hform =>
    list?_of_form? hform.1

theorem selectAll_spec (ht : t.Ordered) (hx : t.Has x) (hy : t.Has y) :
    Builds t (selectAll v x y span) fun id u => ∃ list,
      u.call? (some id) = some (blockCall v (some list) x none y) ∧
        u.term (some list) = .list [star] := by
  refine .bind (star_spec ht) fun s u hu hext ⟨hstar, hs⟩ => ?_
  refine .bind (list_spec hu (List.forall_mem_singleton.mpr hs)) fun list w hw hext' hlist => ?_
  have hl : w.Has (some list) := .of_form? (form?_of_list? hlist)
  refine (block_spec hw (SelectParts.forall_operands.mpr ?_)).refine fun id z hz hext'' hcall =>
    ⟨list, hcall, ?_⟩
  · exact ⟨.absent, hl, (hx.mono hext).mono hext', .absent, .absent, .absent,
      .absent, (hy.mono hext).mono hext', nofun⟩
  · rw [hz.term_of_list? (hext''.list? hlist), List.map_singleton,
      hext''.term_eq hw hz (hs.mono hext'), hext'.term_eq hu hw hs, hstar]

theorem selectAll_term (ht : t.Ordered) (hx : t.Has x) (hy : t.Has y) :
    Builds t (selectAll v x y span) fun id u =>
      u.term (some id) = selectAllTerm v (t.term x) (t.term y) ∧ u.Has (some id) := by
  refine (selectAll_spec ht hx hy).refine fun id u hu hext ⟨list, hcall, hlist⟩ =>
    ⟨?_, .of_form? (form?_of_call? hcall)⟩
  rw [term_of_plainBlock hu hcall, hlist, hext.term_eq ht hu hx, hext.term_eq ht hu hy]
  rfl

theorem ordered_term (ht : t.Ordered) (hx : t.Has x) (hy : t.Has y) :
    Builds t (ordered v x y span) fun id u =>
      u.term (some id) = orderedTerm v (t.term x) (t.term y) ∧ u.Has (some id) := by
  refine .get ?_
  split
  · rename_i c hc
    dsimp only
    have hterm := ht.term_of_call? hc
    have hops : ∀ z ∈ c.operands, t.Has z := fun z hz => .part ht (form?_of_call? hc) hz
    have horder : t.Has (c.operand 7) := c.operand_of_operands hops .absent 7
    have hcond : (c.operator.kind = .select ∧ (termAt (c.operands.map t.term) 7).isAbsent) ↔
        c.kind = .select ∧ (SelectParts.ofCall c).order = none := by
      rw [termAt_map_term, ht.isAbsent_term horder]
      rfl
    split
    · rename_i h
      obtain ⟨h₀, h₁, h₂, h₃, h₄, h₅, h₆, _, hrest⟩ :=
        SelectParts.forall_operands.mp (SelectParts.forall_ofCall hops .absent)
      have hparts : ∀ z ∈ { SelectParts.ofCall c with order := y }.operands, t.Has z :=
        SelectParts.forall_operands.mpr ⟨h₀, h₁, h₂, h₃, h₄, h₅, h₆, hy, hrest⟩
      refine (Builds.push_call ht hparts).refine fun id u hu hext ⟨hcall, _⟩ =>
        ⟨?_, .of_form? (form?_of_call? hcall)⟩
      rw [hu.term_of_call? hcall, hext.map_term_eq ht hu hparts, hterm,
        orderedTerm_call, if_pos (hcond.mpr h)]
      simp only [SelectParts.map_operands, termAt_map_term, List.map_drop, SelectParts.ofCall]
    · rename_i h
      refine (selectAll_term ht hx hy).weaken fun id u ⟨hid, hhas⟩ => ⟨?_, hhas⟩
      rw [hid, hterm, orderedTerm_call, if_neg (hcond.not.mpr h)]
  · rename_i hc
    have hop : (t.term x).operator? = none := by rw [ht.operator?_term, hc]; rfl
    refine (selectAll_term ht hx hy).weaken fun id u ⟨hid, hhas⟩ => ⟨?_, hhas⟩
    rw [hid, orderedTerm_of_operator?_eq_none v hop]

/-- What a statement selects from: a copy of the table that it changes, under a copy of the alias if
it gives one. -/
inductive IsTarget (v : Vocabulary) (t : Tree) (table : Link) : Link → Link → Prop where
  | plain {source : Link} (hcopy : t.CopyOf source table) : IsTarget v t table none source
  | named {name source copy label : Link} (hname : name ≠ none)
    (hcall : t.call? source = some { operator := v.naming, operands := [copy, label] })
    (hcopy : t.CopyOf copy table) (hlabel : t.CopyOf label name) : IsTarget v t table name source

namespace IsTarget

theorem mono (ht : t.Ordered) (hu : u.Ordered) (hext : t.Extends u)
    (h : IsTarget v t table name source) : IsTarget v u table name source := by
  cases h with
  | plain hcopy => exact .plain (hcopy.mono ht hu hext)
  | named hname hcall hcopy hlabel =>
    exact .named hname (hext.call? hcall) (hcopy.mono ht hu hext) (hlabel.mono ht hu hext)

theorem has (h : IsTarget v t table name source) : t.Has source := by
  cases h with
  | plain hcopy => exact hcopy.here
  | named _ hcall _ _ => exact .of_form? (form?_of_call? hcall)

theorem term_eq (ht : t.Ordered) (h : IsTarget v t table name source) :
    t.term source = targetTerm v (t.term table) (t.term name) := by
  cases h with
  | plain hcopy => exact hcopy.term_eq
  | named hname hcall hcopy hlabel =>
    have habsent : ¬ (t.term name).isAbsent := (ht.isAbsent_term hlabel.there).not.mpr hname
    rw [targetTerm, if_neg habsent, ht.term_of_call? hcall, ← hcopy.term_eq, ← hlabel.term_eq]
    rfl

end IsTarget

theorem target_spec (ht : t.Ordered) (hx : t.Has x) (hy : t.Has y) :
    Builds t (target v x y) fun source u => IsTarget v u x y source := by
  refine .get (.bind (copy_copyOf ht hx) fun copy u hu hext hcopy => ?_)
  split
  · rename_i h
    subst h
    exact .pure hu (.plain hcopy)
  · rename_i hname
    refine .get (.bind (copy_copyOf hu (hy.mono hext)) fun label w hw hext' hlabel =>
      .get (.map ?_))
    have hcopy' := hcopy.mono hu hw hext'
    refine (Builds.push_call hw ?_).refine fun id z hz hext'' ⟨hcall, _⟩ => ?_
    · exact List.forall_mem_cons.mpr ⟨hcopy'.here, List.forall_mem_singleton.mpr hlabel.here⟩
    · exact .named hname hcall (hcopy'.mono hw hz hext'') (hlabel.mono hw hz hext'')

/-- The block for the rows of a deletion: all columns of the table, under the condition of the
deletion itself. -/
def SelectsDeleted (v : Vocabulary) (t : Tree) (p : DeleteParts) (query : Link) : Prop :=
  ∃ list source,
    t.call? query = some (blockCall v (some list) source p.condition none) ∧
    t.term (some list) = .list [star] ∧ IsTarget v t p.target p.aliasName source

namespace SelectsDeleted

theorem mono (ht : t.Ordered) (hu : u.Ordered) (hext : t.Extends u)
    (h : SelectsDeleted v t p query) : SelectsDeleted v u p query := by
  obtain ⟨list, source, hcall, hlist, htarget⟩ := h
  refine ⟨list, source, hext.call? hcall, ?_, htarget.mono ht hu hext⟩
  rw [hext.term_eq ht hu (has_list_of_plainBlock ht hcall), hlist]

theorem term_eq (ht : t.Ordered) (h : SelectsDeleted v t p query) : t.term query =
      deletedRowsTerm v (t.term p.target) (t.term p.condition) (t.term p.aliasName) := by
  obtain ⟨list, source, hcall, hlist, htarget⟩ := h
  rw [term_of_plainBlock ht hcall, hlist, htarget.term_eq ht]
  rfl

theorem has (h : SelectsDeleted v t p query) : t.Has query := by
  obtain ⟨_, _, hcall, _⟩ := h
  exact .of_form? (form?_of_call? hcall)

end SelectsDeleted

theorem deletedRows_spec (ht : t.Ordered) (htable : t.Has p.target)
    (hcond : t.Has p.condition) (hname : t.Has p.aliasName) :
    Builds t (deletedRows v p span) fun id u => SelectsDeleted v u p (some id) := by
  refine .bind (target_spec ht htable hname) fun source u hu hext hsource => ?_
  refine .bind (selectAll_spec hu hsource.has .absent) fun all w hw hext' hall => .get ?_
  obtain ⟨list, hcall, hlist⟩ := hall
  have hparts : w.select (some all) = plainBlock (some list) source none none := by
    rw [select, hcall]
    rfl
  have hl : w.Has (some list) := has_list_of_plainBlock hw hcall
  have hcond' := (hcond.mono hext).mono hext'
  rw [hparts]
  refine (block_spec hw (SelectParts.forall_operands.mpr ?_)).refine fun id z hz hext'' hcall' => ?_
  · exact ⟨.absent, hl, hsource.has.mono hext', hcond', .absent, .absent,
      .absent, .absent, List.forall_mem_nil _⟩
  · refine ⟨list, source, hcall', ?_, (hsource.mono hu hw hext').mono hw hz hext''⟩
    rw [hext''.term_eq hw hz hl, hlist]

/-- The select items of an update: each is the node of a new value itself, named by its place. -/
def Assigned (v : Vocabulary) (t : Tree) (k : Nat) (sources items : List Link) : Prop :=
  List.Forall₂ (fun (source : Link × Nat) item => ∃ name,
    t.call? item = some { operator := v.naming, operands := [source.1, some name] } ∧
    t.term (some name) = .identifier ["EXPR$" ++ Number.natText source.2]) (sources.zipIdx k) items

namespace Assigned

variable {items : List Link}

theorem mono (ht : t.Ordered) (hu : u.Ordered) (hext : t.Extends u)
    (h : Assigned v t k sources items) : Assigned v u k sources items := by
  refine h.imp fun source item ⟨name, hcall, hname⟩ => ⟨name, hext.call? hcall, ?_⟩
  rw [hext.term_eq ht hu
    (.part ht (form?_of_call? hcall) (List.mem_cons_of_mem _ List.mem_cons_self)), hname]

theorem has (h : Assigned v t k sources items) : ∀ y ∈ items, t.Has y := by
  induction sources generalizing k items with
  | nil => cases h; exact nofun
  | cons source rest ih =>
    obtain ⟨item, items', ⟨name, hcall, _⟩, hrest, rfl⟩ := List.forall₂_cons_left_iff.mp h
    exact List.forall_mem_cons.mpr ⟨.of_form? (form?_of_call? hcall), ih hrest⟩

theorem terms_eq (ht : t.Ordered) (h : Assigned v t k sources items) :
    items.map t.term = assignmentTerms v k (sources.map t.term) := by
  induction sources generalizing k items with
  | nil => cases h; rfl
  | cons source rest ih =>
    obtain ⟨item, items', ⟨name, hcall, hname⟩, hrest, rfl⟩ := List.forall₂_cons_left_iff.mp h
    rw [List.map_cons, ih hrest, ht.term_of_call? hcall]
    simp only [List.map_cons, List.map_nil, hname, assignmentTerms]

end Assigned

theorem assignments_spec (ht : t.Ordered) (k : Nat) (h : ∀ y ∈ sources, t.Has y) :
    Builds t (assignments v k sources) fun items u => Assigned v u k sources items := by
  induction sources generalizing t k with
  | nil => exact .pure ht .nil
  | cons source sources ih =>
    obtain ⟨hsource, hrest⟩ := List.forall_mem_cons.mp h
    refine .bind (Builds.push_form ht nofun)
      fun name u hu hext ⟨hform, _⟩ => .get ?_
    have hname : u.term (some name) = .identifier ["EXPR$" ++ Number.natText k] :=
      hu.term_of_form? hform
    have hhas : u.Has (some name) := .of_form? hform
    refine .bind (.push_call hu ?_) fun item w hw hext' ⟨hcall, _⟩ => ?_
    · exact List.forall_mem_cons.mpr ⟨hsource.mono hext, List.forall_mem_singleton.mpr hhas⟩
    · refine .bind (ih hw (k + 1) fun y hy => ((hrest y hy).mono hext).mono hext')
        fun items z hz hext'' hitems => ?_
      refine .pure hz (.cons ⟨name, hext''.call? hcall, ?_⟩ hitems)
      rw [hext''.term_eq hw hz (hhas.mono hext'), hext'.term_eq hu hw hhas, hname]

/-- The block for the rows of an update: all columns of the table and the new values, under the
condition of the update itself. -/
def SelectsUpdated (v : Vocabulary) (t : Tree) (p : UpdateParts) (query : Link) : Prop :=
  ∃ list source all items,
    t.call? query = some (blockCall v (some list) source p.condition none) ∧
    t.list? (some list) = some (some all :: items) ∧ t.term (some all) = star ∧
      Assigned v t 0 (t.items p.sources) items ∧
    IsTarget v t p.target p.aliasName source

namespace SelectsUpdated

theorem mono (ht : t.Ordered) (hu : u.Ordered) (hext : t.Extends u) (hp : t.Has p.sources)
    (h : SelectsUpdated v t p query) : SelectsUpdated v u p query := by
  obtain ⟨list, source, all, items, hcall, hlist, hall, hitems, htarget⟩ := h
  refine ⟨list, source, all, items, hext.call? hcall, hext.list? hlist,
    ?_, ?_, htarget.mono ht hu hext⟩
  · rw [hext.term_eq ht hu (.part ht (form?_of_list? hlist) List.mem_cons_self), hall]
  · rw [hext.items_eq hp]
    exact hitems.mono ht hu hext

theorem term_eq (ht : t.Ordered) (h : SelectsUpdated v t p query) :
    t.term query = updatedRowsTerm v (t.term p.target) (t.term p.sources) (t.term p.condition)
      (t.term p.aliasName) := by
  obtain ⟨list, source, all, items, hcall, hlist, hall, hitems, htarget⟩ := h
  rw [term_of_plainBlock ht hcall, ht.term_of_list? hlist, htarget.term_eq ht,
    List.map_cons, hall, hitems.terms_eq ht, ← ht.items_term]
  rfl

theorem has (h : SelectsUpdated v t p query) : t.Has query := by
  obtain ⟨_, _, _, _, hcall, _⟩ := h
  exact .of_form? (form?_of_call? hcall)

end SelectsUpdated

theorem updatedRows_spec (ht : t.Ordered) (htable : t.Has p.target) (hsources : t.Has p.sources)
    (hcond : t.Has p.condition) (hname : t.Has p.aliasName) :
    Builds t (updatedRows v p span) fun id u => SelectsUpdated v u p (some id) := by
  refine .bind (star_spec ht) fun all u hu hext ⟨hall, hhas⟩ => .get ?_
  refine .bind (assignments_spec hu 0 (held_items hu)) fun items w hw hext' hitems => ?_
  refine .bind (list_spec hw (List.forall_mem_cons.mpr ⟨hhas.mono hext', hitems.has⟩))
    fun list z hz hext'' hlist => ?_
  have hextz := (hext.trans hext').trans hext''
  refine .bind (target_spec hz (htable.mono hextz) (hname.mono hextz))
    fun source r hr hext₃ hsource => ?_
  have hl : z.Has (some list) := .of_form? (form?_of_list? hlist)
  have hextr := hextz.trans hext₃
  refine (block_spec hr (SelectParts.forall_operands.mpr ?_)).refine fun id q hq hext₄ hcall => ?_
  · exact ⟨.absent, hl.mono hext₃, hsource.has, hcond.mono hextr, .absent,
      .absent, .absent, .absent, nofun⟩
  · have hextq := hext₃.trans hext₄
    refine ⟨list, source, all, items, hcall, hextq.list? hlist, ?_, ?_, hsource.mono hr hq hext₄⟩
    · have hexta := (hext'.trans hext'').trans hextq
      rw [hexta.term_eq hu hq hhas, hall]
    · rw [(hextr.trans hext₄).items_eq hsources, ← hext.items_eq hsources]
      exact hitems.mono hw hq (hext''.trans hextq)

/-- The tests that a case distinction on a value comes down to: one for each node that the value is
compared with, each on a node of its own for the value. -/
structure Tests (v : Vocabulary) (t : Tree) (value : Link) (values whens tests : List Link) :
    Prop where
  length_eq : values.length = whens.length
  nodup : values.Nodup
  alike : ∀ x ∈ values, t.Has x ∧ t.term x = t.term value
  calls : List.Forall₂ (fun (pair : Link × Link) test =>
    t.call? test = some { operator := v.equals, operands := [pair.1, pair.2] })
      (values.zip whens) tests

namespace Tests

theorem mono (ht : t.Ordered) (hu : u.Ordered) (hext : t.Extends u) (hvalue : t.Has value)
    (h : Tests v t value values whens tests) : Tests v u value values whens tests where
  length_eq := h.length_eq
  nodup := h.nodup
  alike x hx := by
    obtain ⟨hhas, hterm⟩ := h.alike x hx
    exact ⟨hhas.mono hext, by rw [hext.term_eq ht hu hhas, hext.term_eq ht hu hvalue, hterm]⟩
  calls := h.calls.imp fun _ _ hcall => hext.call? hcall

theorem has (h : Tests v t value values whens tests) : ∀ y ∈ tests, t.Has y := by
  intro y hy
  obtain ⟨k, hk, rfl⟩ := List.mem_iff_getElem.mp hy
  exact .of_form? (form?_of_call? (h.calls.get (h.calls.length_eq ▸ hk) hk))

theorem terms_eq (ht : t.Ordered) (h : Tests v t value values whens tests) :
    tests.map t.term = testTerms v (t.term value) (whens.map t.term) := by
  obtain ⟨hlen, -, hvalues, hcalls⟩ := h
  induction whens generalizing values tests with
  | nil =>
    obtain rfl := List.length_eq_zero_iff.mp hlen
    cases hcalls
    rfl
  | cons w whens ih =>
    obtain ⟨x, values', rfl⟩ := List.exists_cons_of_length_eq_add_one hlen
    obtain ⟨test, tests', hcall, hrest, rfl⟩ := List.forall₂_cons_left_iff.mp hcalls
    obtain ⟨hx, hvalues'⟩ := List.forall_mem_cons.mp hvalues
    rw [List.map_cons, ih (Nat.succ.inj hlen) hvalues' hrest, ht.term_of_call? hcall]
    simp only [List.map_cons, List.map_nil, hx.2, testTerms]

end Tests

section

variable (ht : t.Ordered)
include ht

/-- All nodes for the value but the first are new, so no two of them are the same. -/
theorem equalityTests_spec (hx : t.Has x) (hne : x ≠ none) (isFirst : Bool)
    (h : ∀ y ∈ whens, t.Has y) : Builds t (equalityTests v x isFirst whens) fun tests u =>
      ∃ values, Tests v u x values whens tests ∧
      (isFirst = false → ∀ y ∈ values, ∃ j, y = some j ∧ t.size ≤ j) := by
  induction whens generalizing t isFirst with
  | nil => exact .pure ht ⟨[], ⟨rfl, .nil, nofun, .nil⟩, nofun⟩
  | cons w whens ih =>
    obtain ⟨hw, hrest⟩ := List.forall_mem_cons.mp h
    have htests (value : Link) (u : Tree) (hu : u.Ordered) (hext : t.Extends u)
        (hvalue : (u.Has value ∧ u.term value = u.term x) ∧
        (isFirst = false → ∃ j, value = some j ∧ t.size ≤ j)) :
        Builds u (do
          let span := (← get).span? w
          let test ← Tree.push
            { form := .call { operator := v.equals, operands := [value, w] }, span }
          let tests ← equalityTests v x false whens
          return some test :: tests) fun tests r => ∃ values,
            Tests v r x values (w :: whens) tests ∧
            (isFirst = false → ∀ y ∈ values, ∃ j, y = some j ∧ t.size ≤ j) := by
      obtain ⟨⟨hhas, hterm⟩, hnew⟩ := hvalue
      refine .get (.bind (.push_call hu ?_) fun test r hr hext' ⟨hcall, _⟩ => ?_)
      · exact List.forall_mem_cons.mpr ⟨hhas, List.forall_mem_singleton.mpr (hw.mono hext)⟩
      have hextr := hext.trans hext'
      refine .bind (ih hr (hx.mono hextr) false fun y hy => (hrest y hy).mono hextr)
        fun tests z hz hext'' ⟨values, hvalues, hlater⟩ =>
        .pure hz ⟨value :: values, ⟨?_, ?_, ?_, ?_⟩, ?_⟩
      · exact congrArg Nat.succ hvalues.length_eq
      · refine List.nodup_cons.mpr ⟨fun hmem => ?_, hvalues.nodup⟩
        obtain ⟨j, rfl, hj⟩ := hlater rfl value hmem
        exact absurd (hhas.mono hext' j rfl) (Nat.not_lt.mpr hj)
      · have hextz := hext'.trans hext''
        refine List.forall_mem_cons.mpr ⟨⟨hhas.mono hextz, ?_⟩, hvalues.alike⟩
        rw [hextz.term_eq hu hz hhas, hextz.term_eq hu hz (hx.mono hext), hterm]
      · exact .cons (hext''.call? hcall) hvalues.calls
      · refine fun hfirst => List.forall_mem_cons.mpr ⟨hnew hfirst, fun y hy => ?_⟩
        obtain ⟨j, rfl, hj⟩ := hlater rfl y hy
        exact ⟨j, rfl, Nat.le_trans hextr.size_le hj⟩
    rw [equalityTests]
    cases isFirst with
    | true => exact htests x t ht (.refl t) ⟨⟨hx, rfl⟩, nofun⟩
    | false =>
      refine .get (.bind (copy_term ht ht) fun value u hu hext ⟨hterm, hhas, hnew⟩ =>
        htests value u hu hext ?_)
      refine ⟨⟨hhas, by rw [hterm, hext.term_eq ht hu hx]⟩, fun _ => ?_⟩
      cases value with
      | none => exact absurd ((ht.term_eq_absent_iff hx).mp hterm.symm) hne
      | some j => exact ⟨j, rfl, hnew j rfl⟩

theorem conditions_spec (hp : t.Has p.value) (hne : p.value ≠ none) (hw : t.Has p.whens) :
    Builds t (conditions v p) fun id u => ∃ values tests, u.list? (some id) = some tests ∧
      Tests v u p.value values (u.items p.whens) tests := by
  refine .get (.bind (equalityTests_spec ht hp hne true (held_items ht))
    fun tests u hu hext ⟨values, htests, _⟩ => ?_)
  refine (Builds.push_form hu (n := { form := .list tests, span := t.span? p.whens })
    htests.has).refine fun id w hw' hext' ⟨hform, _⟩ => ⟨values, tests, list?_of_form? hform, ?_⟩
  rw [(hext.trans hext').items_eq hw]
  exact htests.mono hu hw' hext' (hp.mono hext)

/-- What becomes of the calls with rules of their own, by the nodes that they are made of. -/
def Becomes (v : Vocabulary) (t : Tree) (c : Call) (out : Link) : Prop :=
  match c.kind with
  | .insert =>
    t.call? out = some { c with operands := (InsertParts.ofCall c).withQuery (c.operand 1) }
  | .delete => ∃ query,
    t.call? out = some { c with operands := (DeleteParts.ofCall c).withQuery (some query) } ∧
    SelectsDeleted v t (.ofCall c) (some query)
  | .update => ∃ query,
    t.call? out = some { c with operands := (UpdateParts.ofCall c).withQuery (some query) } ∧
    SelectsUpdated v t (.ofCall c) (some query)
  | .caseOf => c.operand 0 ≠ none → ∃ whens values tests,
    t.call? out =
      some { c with operands := ((CaseParts.ofCall c).withTests whens).take c.operands.length } ∧
    t.list? (some whens) = some tests ∧ Tests v t (c.operand 0) values (t.items (c.operand 1)) tests
  | _ => True

theorem Becomes.mono (hu : u.Ordered) (hext : t.Extends u) (hc : ∀ y ∈ c.operands, t.Has y)
    (h : Becomes v t c x) : Becomes v u c x := by
  have hop := c.operand_of_operands hc .absent
  unfold Becomes at h ⊢
  split
  · simp only [*] at h
    exact hext.call? h
  · simp only [*] at h
    obtain ⟨query, hcall, hquery⟩ := h
    exact ⟨query, hext.call? hcall, hquery.mono ht hu hext⟩
  · simp only [*] at h
    obtain ⟨query, hcall, hquery⟩ := h
    exact ⟨query, hext.call? hcall, hquery.mono ht hu hext (hop 2)⟩
  · simp only [*] at h
    intro hne
    obtain ⟨whens, values, tests, hcall, hlist, htests⟩ := h hne
    refine ⟨whens, values, tests, hext.call? hcall, hext.list? hlist, ?_⟩
    rw [hext.items_eq (hop 1)]
    exact htests.mono ht hu hext (hop 0)
  · trivial

theorem keep_spec (h : ∀ y ∈ operands, t.Has y) :
    Builds t (keep c span operands) fun id u => u.call? (some id) = some { c with operands } ∧
      u.term (some id) = .call c.operator (operands.map t.term) ∧ u.Has (some id) := by
  refine (Builds.push_call ht h).refine fun id u hu hext ⟨hcall, _⟩ =>
    ⟨hcall, ?_, .of_form? (form?_of_call? hcall)⟩
  rw [hu.term_of_call? hcall, hext.map_term_eq ht hu h]

/-- The node stands for the canonical form of the call's term. -/
abbrev IsCanonical (v : Vocabulary) (t : Tree) (c : Call) (top : Bool)
    (id : NodeId) (u : Tree) : Prop :=
  u.Has (some id) ∧ u.term (some id) = callTerm v c.operator (c.operands.map t.term) top ∧
    Becomes v u c (some id)

section

variable (hc : ∀ y ∈ c.operands, t.Has y)
include hc

theorem insert_spec (hk : c.operator.kind = .insert) :
    Builds t (keep c span ((InsertParts.ofCall c).withQuery (c.operand 1)))
      (IsCanonical v t c top) := by
  have hop := c.operand_of_operands hc .absent
  have hparts : ∀ y ∈ (InsertParts.ofCall c).withQuery (c.operand 1), t.Has y :=
    InsertParts.forall_operands.mpr ⟨hop 0, hop 1, hop 2, hop 1,
      fun y hy => hc y (List.mem_of_mem_drop hy)⟩
  refine (keep_spec ht hparts).weaken fun id u ⟨hcall, hterm, hhas⟩ => ⟨hhas, hterm.trans ?_, ?_⟩
  · simp only [callTerm, hk, termAt_map_term, InsertParts.operands, InsertParts.ofCall,
      List.map_append, List.map_cons, List.map_nil, List.map_drop]
  · simp only [Becomes, Call.kind, hk]
    exact hcall

theorem delete_spec (hk : c.operator.kind = .delete) :
    Builds t (do
      let query ← deletedRows v (.ofCall c) span
      keep c span ((DeleteParts.ofCall c).withQuery (some query))) (IsCanonical v t c top) := by
  have hop := c.operand_of_operands hc .absent
  refine .bind (deletedRows_spec ht (hop 0) (hop 1) (hop 2)) fun query u hu hext hquery => ?_
  have hparts : ∀ y ∈ (DeleteParts.ofCall c).withQuery (some query), u.Has y :=
    DeleteParts.forall_operands.mpr ⟨(hop 0).mono hext, (hop 1).mono hext,
      (hop 2).mono hext, hquery.has, fun y hy => (hc y (List.mem_of_mem_drop hy)).mono hext⟩
  refine (keep_spec hu hparts).refine fun id w hw hext' ⟨hcall, hterm, hhas⟩ =>
    ⟨hhas, hterm.trans ?_, ?_⟩
  · rw [← hext.map_term_eq ht hu hc]
    simp only [callTerm, hk, termAt_map_term, DeleteParts.operands, List.map_append,
      List.map_cons, List.map_nil, hquery.term_eq hu]
    simp only [DeleteParts.ofCall, List.map_drop]
  · simp only [Becomes, Call.kind, hk]
    exact ⟨query, hcall, hquery.mono hu hw hext'⟩

theorem update_spec (hk : c.operator.kind = .update) :
    Builds t (do
      let query ← updatedRows v (.ofCall c) span
      keep c span ((UpdateParts.ofCall c).withQuery (some query))) (IsCanonical v t c top) := by
  have hop := c.operand_of_operands hc .absent
  refine .bind (updatedRows_spec ht (hop 0) (hop 2) (hop 3) (hop 4)) fun query u hu hext hquery =>
    ?_
  have hparts : ∀ y ∈ (UpdateParts.ofCall c).withQuery (some query), u.Has y :=
    UpdateParts.forall_operands.mpr ⟨(hop 0).mono hext, (hop 1).mono hext,
      (hop 2).mono hext, (hop 3).mono hext, (hop 4).mono hext, hquery.has,
      fun y hy => (hc y (List.mem_of_mem_drop hy)).mono hext⟩
  refine (keep_spec hu hparts).refine fun id w hw hext' ⟨hcall, hterm, hhas⟩ =>
    ⟨hhas, hterm.trans ?_, ?_⟩
  · rw [← hext.map_term_eq ht hu hc]
    simp only [callTerm, hk, termAt_map_term, UpdateParts.operands, List.map_append,
      List.map_cons, List.map_nil, hquery.term_eq hu]
    simp only [UpdateParts.ofCall, List.map_drop]
  · simp only [Becomes, Call.kind, hk]
    exact ⟨query, hcall, hquery.mono hu hw hext' ((hop 2).mono hext)⟩

theorem caseOf_spec (hk : c.operator.kind = .caseOf) (hne : c.operand 0 ≠ none) :
    Builds t (do
      let whens ← conditions v (.ofCall c)
      keep c span (((CaseParts.ofCall c).withTests whens).take c.operands.length))
      (IsCanonical v t c top) := by
  have hop := c.operand_of_operands hc .absent
  refine .bind (conditions_spec ht (hop 0) hne (hop 1)) fun whens u hu hext ⟨values,
    tests, hlist, htests⟩ => ?_
  have hwhens : u.Has (some whens) := .of_form? (form?_of_list? hlist)
  have hparts : ∀ y ∈ (CaseParts.ofCall c).withTests whens, u.Has y :=
    CaseParts.forall_operands.mpr ⟨.absent, hwhens, (hop 2).mono hext, (hop 3).mono hext,
      fun y hy => (hc y (List.mem_of_mem_drop hy)).mono hext⟩
  have hvalue : ¬ (u.term (c.operand 0)).isAbsent :=
    (hu.isAbsent_term ((hop 0).mono hext)).not.mpr hne
  refine (keep_spec hu fun y hy => hparts y (List.mem_of_mem_take hy)).refine
    fun id w hw hext' ⟨hcall, hterm, hhas⟩ => ⟨hhas, hterm.trans ?_, ?_⟩
  · have hterms : u.term (some whens) =
        .list (testTerms v (u.term (c.operand 0)) (u.term (c.operand 1)).items) := by
      rw [hu.term_of_list? hlist, htests.terms_eq hu, hu.items_term]
      rfl
    rw [← hext.map_term_eq ht hu hc]
    simp only [callTerm, hk, termAt_map_term, if_neg hvalue, CaseParts.operands, List.map_take,
      List.map_append, List.map_cons, List.map_nil, hterms, List.length_map, term_none]
    simp only [CaseParts.ofCall, List.map_drop]
  · simp only [Becomes, Call.kind, hk]
    intro _
    refine ⟨whens, values, tests, hcall, hext'.list? hlist, ?_⟩
    rw [hext'.items_eq ((hop 1).mono hext)]
    exact htests.mono hu hw hext' ((hop 0).mono hext)

theorem call_spec : Builds t (call v c span top) (IsCanonical v t c top) := by
  have hop := c.operand_of_operands hc .absent
  -- a bare query is kept, inside a block if it is the whole statement
  have hbare (hrule : callTerm v c.operator (c.operands.map t.term) top =
        if top = true then selectAllTerm v (.call c.operator (c.operands.map t.term)) .absent
        else .call c.operator (c.operands.map t.term)) (hbecomes : ∀ u id, Becomes v u c id) :
      Builds t (do
        let out ← keep c span c.operands
        if top then selectAll v (some out) none span else return out) (IsCanonical v t c top) := by
    refine .bind (keep_spec ht hc) fun out u hu _ ⟨_, hterm, hhas⟩ => ?_
    split
    · rename_i htop
      refine (selectAll_term hu hhas .absent).weaken fun id w ⟨hid, hw⟩ => ⟨hw, ?_, hbecomes w _⟩
      rw [hrule, if_pos htop, hid, hterm, term_none]
    · rename_i htop
      exact .pure hu ⟨hhas, by rw [hrule, if_neg htop, hterm], hbecomes u _⟩
  unfold call
  dsimp only [Call.kind]
  split
  · rename_i hk
    refine (ordered_term ht (hop 0) (hop 1)).weaken fun id u ⟨hterm, hhas⟩ => ⟨hhas, ?_, ?_⟩
    · simp only [callTerm, hk, termAt_map_term, hterm]
    · simp only [Becomes, Call.kind, hk]
  · rename_i hk
    refine (selectAll_term ht (hop 0) .absent).weaken fun id u ⟨hterm, hhas⟩ => ⟨hhas, ?_, ?_⟩
    · simp only [callTerm, hk, termAt_map_term, hterm, term_none]
    · simp only [Becomes, Call.kind, hk]
  iterate 4
    rename_i hk
    exact hbare (by simp only [callTerm, hk]) (fun _ _ => by simp only [Becomes, Call.kind, hk])
  · exact insert_spec ht hc ‹_›
  · exact delete_spec ht hc ‹_›
  · exact update_spec ht hc ‹_›
  · rename_i hk
    split
    · rename_i hvalue
      refine (keep_spec ht hc).weaken fun id u ⟨_, hterm, hhas⟩ => ⟨hhas, ?_, ?_⟩
      · have habsent : (t.term (c.operand 0)).isAbsent := (ht.isAbsent_term (hop 0)).mpr hvalue
        simp only [callTerm, hk, termAt_map_term, if_pos habsent, hterm]
      · simp only [Becomes, Call.kind, hk]
        exact fun hne => absurd hvalue hne
    · exact caseOf_spec ht hc hk ‹_›
  · refine (keep_spec ht hc).weaken fun id u ⟨_, hterm, hhas⟩ => ⟨hhas, ?_, ?_⟩
    · rw [hterm]
      unfold callTerm
      split
      any_goals contradiction
      rfl
    · unfold Becomes
      split
      any_goals contradiction
      trivial

end

end

end Canonical

end SqlAnalysis

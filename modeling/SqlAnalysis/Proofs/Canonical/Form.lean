import SqlAnalysis.Proofs.Canonical.Image
import SqlAnalysis.Proofs.Script.Reading

/-!
The canonical form of statements that are read from texts. It has no sorting and no explicit tables,
and compares values by tests alone; statements that change a table carry the block for their rows,
which shares its condition and its new values with them. Taking the canonical form again changes
nothing.
-/

namespace SqlAnalysis

namespace Canonical

def finished (v : Vocabulary) (ops : Registry) (s : Statement) : Progress :=
  ((nodeUpTo v ops s.tree (s.root.getD 0 + 1) true s.root).run {}).2

end Canonical

/-- The node of the canonical form that stands for a node of the statement. -/
def Statement.image (ops : Registry) (s : Statement) (x : Link) : Link :=
  match Canonical.Vocabulary.ofRegistry ops with
  | .ok v => (Canonical.finished v ops s).image x
  | .error _ => none

/-- The nodes that the statement consists of. -/
def Statement.Reaches (s : Statement) (x : Link) : Prop :=
  Relation.ReflTransGen s.tree.Part s.root x

namespace Canonical

open SqlAnalysis.Tree

variable {s : Statement}

theorem finished_tracks (v : Vocabulary) (ops : Registry) (hs : s.tree.Ordered)
    (hroot : s.tree.Has s.root) (hr : s.root = some r) (hE : Carries v ops s.tree r E)
    (hstart : E {}) : (finished v ops s).Tracks v ops s.tree r E ∧
      (∃ out, (finished v ops s).done.get? r = some out) ∧
      ((nodeUpTo v ops s.tree (s.root.getD 0 + 1) true s.root).run {}).1 =
      (finished v ops s).image s.root := by
  rw [hr] at hroot ⊢
  have htracks : ({} : Progress).Tracks v ops s.tree r E := by
    refine ⟨fun i j hpart => ?_, hstart, fun i out h => by cases h⟩
    obtain ⟨f, hf, _⟩ := hpart
    cases hf
  have hplace (i : NodeId) (hi : some r = some i) : i < s.tree.size ∧ i < r + 1 ∧
      i ≤ r ∧ true = (i == r) := by
    cases hi
    exact ⟨hroot r rfl, Nat.lt_succ_self r, Nat.le_refl r, by simp⟩
  have hrun := nodeUpTo_rewrites hE hs htracks hplace
  have hfinished : finished v ops s = ((nodeUpTo v ops s.tree (r + 1) true (some r)).run {}).2 := by
    rw [finished, hr]
    rfl
  rw [hfinished]
  exact ⟨hrun.tracks, hrun.post.2 r rfl, hrun.post.1⟩

section

variable (hv : Vocabulary.ofRegistry ops = .ok v)
include hv

theorem image_eq (x : Link) : s.image ops x = (finished v ops s).image x := by
  rw [Statement.image, hv]

theorem canonical_eq (hs : s.tree.Ordered) (hroot : s.tree.Has s.root) :
    s.canonical ops = .ok { tree := (finished v ops s).tree, root := s.image ops s.root } := by
  have hrun : s.canonical ops = .ok
      { tree := (finished v ops s).tree,
        root := ((nodeUpTo v ops s.tree (s.root.getD 0 + 1) true s.root).run {}).1 } := by
    unfold Statement.canonical
    rw [hv]
    rfl
  rw [hrun, image_eq hv]
  cases hr : s.root with
  | none => rfl
  | some r => rw [← hr, (finished_tracks v ops hs hroot hr carries_true trivial).2.2]

theorem term_canonical (hs : s.tree.Ordered) (hroot : s.tree.Has s.root)
    (h : s.canonical ops = .ok s') : s'.tree.Ordered ∧ s'.tree.Has s'.root ∧
      s'.tree.term s'.root = canonicalTerm v ops true (s.tree.term s.root) := by
  obtain ⟨hord, hhas⟩ := Statement.canonical_ordered h
  refine ⟨hord, hhas, ?_⟩
  rw [canonical_eq hv hs hroot] at h
  cases h
  rw [image_eq hv]
  cases hr : s.root with
  | none => rw [Progress.image_none, term_none, term_none, canonicalTerm]
  | some r =>
    obtain ⟨htracks, ⟨out, hout⟩, _⟩ := finished_tracks v ops hs hroot hr carries_true trivial
    rw [Progress.image_some, hout, (htracks.done r out hout).term_eq, beq_self_eq_true]

end

theorem exists_image (hs : s.tree.Ordered) (hroot : s.tree.Has s.root) (hr : s.root = some r)
    (hi : s.Reaches (some i)) : ∃ out, (finished v ops s).done.get? i = some out := by
  obtain ⟨htracks, hdone, _⟩ := finished_tracks v ops hs hroot hr carries_true trivial
  have hreach {x : Link} (hx : s.Reaches x) : ∀ i, x = some i → ∃ out,
      (finished v ops s).done.get? i = some out := by
    induction hx with
    | refl =>
      rintro i hi
      cases hr.symm.trans hi
      exact hdone
    | @tail y z _ hpart ih =>
      rintro i rfl
      cases y with
      | none => exact absurd hpart not_part_none
      | some j =>
        obtain ⟨out, hout⟩ := ih j rfl
        exact (htracks.done j out hout).parts i hpart
  exact hreach hi i rfl

theorem standard_vocabulary : ∃ v, Vocabulary.ofRegistry .standard = .ok v := ⟨_, rfl⟩

end Canonical

theorem Script.exists_of_any {r : Except ε α} (h : r.toOption.any p) :
    ∃ a, r = .ok a ∧ p a := by
  cases r with
  | error e => cases h
  | ok a => exact ⟨a, rfl, h⟩

/-- The canonical form of a statement that is read is its own canonical form. -/
theorem Statement.canonical_canonical {text : String} {s : Statement}
    (h : Script.parse .standard text = .ok s) :
    ∃ s₁ s₂, s.canonical .standard = .ok s₁ ∧ s₁.canonical .standard = .ok s₂ ∧
      s₂.tree.term s₂.root = s₁.tree.term s₁.root := by
  obtain ⟨v, hv⟩ := Canonical.standard_vocabulary
  obtain ⟨hs, hroot, _⟩ := Script.parse_reads h
  have h₁ := Canonical.canonical_eq hv hs hroot
  obtain ⟨hs₁, hroot₁, hterm₁⟩ := Canonical.term_canonical hv hs hroot h₁
  have h₂ := Canonical.canonical_eq hv hs₁ hroot₁
  obtain ⟨_, _, hterm₂⟩ := Canonical.term_canonical hv hs₁ hroot₁ h₂
  refine ⟨_, _, h₁, h₂, ?_⟩
  rw [hterm₂, hterm₁, Canonical.canonicalTerm_canonicalTerm Canonical.regular_standard
    (Canonical.Vocabulary.fits_of_ofRegistry hv)]

def sortedDelete : String :=
  "(DELETE :target (ORDER_BY EMP [SAL]) :condition (CASE :value 1 :when [2 3] :then [4 5]))"

theorem Statement.canonical_canonical_delete : ∃ s s₁ s₂,
    Script.parse .standard sortedDelete = .ok s ∧
    s.canonical .standard = .ok s₁ ∧ s₁.canonical .standard = .ok s₂ ∧
      s₂.tree.term s₂.root = s₁.tree.term s₁.root := by
  have hread : (Script.parse .standard sortedDelete).toOption.any (fun _ => true) = true := by
    decide +kernel
  obtain ⟨s, hs, _⟩ := Script.exists_of_any hread
  obtain ⟨s₁, s₂, h₁, h₂, hterm⟩ := Statement.canonical_canonical hs
  exact ⟨s, s₁, s₂, hs, h₁, h₂, hterm⟩

namespace Tree

variable {t : Tree} {x : Link}

/-! ### Nodes by their terms -/

theorem Ordered.call?_of_term (ht : t.Ordered) (h : t.term x = .call o ps) :
    ∃ operands, t.call? x = some { operator := o, operands } ∧ operands.map t.term = ps := by
  rw [ht.term_eq] at h
  cases hf : t.form? x with
  | none => rw [hf] at h; cases h
  | some f =>
    rw [hf] at h
    cases f with
    | call c =>
      cases h
      exact ⟨c.operands, call?_of_form? hf, rfl⟩
    | _ => cases h

theorem Ordered.list?_of_term (ht : t.Ordered) (h : t.term x = .list ps) :
    ∃ items, t.list? x = some items ∧ items.map t.term = ps := by
  rw [ht.term_eq] at h
  cases hf : t.form? x with
  | none => rw [hf] at h; cases h
  | some f =>
    rw [hf] at h
    cases f with
    | list items =>
      cases h
      exact ⟨items, list?_of_form? hf, rfl⟩
    | _ => cases h

theorem Ordered.identifier?_of_term (ht : t.Ordered) (h : t.term x = .identifier names) :
    t.identifier? x = some { names } := by
  rw [ht.term_eq] at h
  rw [identifier?]
  cases hf : t.form? x with
  | none => rw [hf] at h; cases h
  | some f =>
    rw [hf] at h
    cases f with
    | identifier i => cases h; rfl
    | _ => cases h

def Alike (t : Tree) (x y : Link) : Prop := t.term x = t.term y

end Tree

namespace Canonical

open SqlAnalysis.Tree

/-! ### Statements that change a table -/

section Changes

variable (same copies : Link → Link → Prop) (t : Tree)

def Names (item node : Link) (label : Link) : Prop :=
  ∃ c, t.call? item = some c ∧ c.kind = .naming ∧ c.operands = [node, label]

/-- Tests of a value for equality with the given nodes, each on a node of its own for the value. -/
def ComparesEach (value : Link) (whens tests : List Link) : Prop :=
  tests.length = whens.length ∧ ∃ values : List Link, values.length = whens.length ∧ values.Nodup ∧
    ∀ (k : Nat) (w test x : Link), whens[k]? = some w → tests[k]? = some test →
    values[k]? = some x → t.Alike x value ∧
      ∃ c, t.call? test = some c ∧ c.kind = .equals ∧ c.operands = [x, w]

/-- A query that selects from the table, under the alias if there is one. -/
def SelectsFrom (table name source : Link) : Prop :=
  (name = none → copies source table) ∧
    (name ≠ none → ∃ copy label, Names t source copy label ∧ copies copy table ∧ copies label name)

def InsertsSource (x : Link) : Prop := t.kind x = .insert ∧ same (t.operand x 3) (t.operand x 1)

def DeletesSelected (x : Link) : Prop :=
  t.kind x = .delete ∧ t.kind (t.operand x 3) = .select ∧
    same (t.operand (t.operand x 3) 3) (t.operand x 1) ∧
    SelectsFrom copies t (t.operand x 0) (t.operand x 2) (t.operand (t.operand x 3) 2)

/-- An update with the block for its rows, which selects all columns and then the new values by
their places. -/
def UpdatesSelected (x : Link) : Prop :=
  t.kind x = .update ∧ t.kind (t.operand x 5) = .select ∧
    same (t.operand (t.operand x 5) 3) (t.operand x 3) ∧
    SelectsFrom copies t (t.operand x 0) (t.operand x 4) (t.operand (t.operand x 5) 2) ∧
    ∀ sources, t.list? (t.operand x 2) = some sources → ∃ all items,
      t.list? (t.operand (t.operand x 5) 1) = some (all :: items) ∧ t.identifier? all =
      some { names := ["*"] } ∧ items.length = sources.length ∧ ∀ (k : Nat) (source item : Link),
      sources[k]? = some source → items[k]? = some item → ∃ node label, Names t item node label ∧
        same node source ∧ t.identifier? label = some { names := ["EXPR$" ++ Number.natText k] }

end Changes

end Canonical

open Canonical in
/-- A statement in canonical form, with what has become of the nodes of the statement that it is the
canonical form of. The statements that change a table share nodes with their blocks; copies of them,
as part of a copied table or value, have copies of these nodes. -/
structure Statement.IsCanonicalFormOf (ops : Registry) (s' s : Statement) : Prop where
  root : s'.root = s.image ops s.root
  relations : ∀ x, s'.Reaches x → s'.tree.kind x ≠ .orderBy ∧ s'.tree.kind x ≠ .explicitTable
  whole : s'.tree.kind s'.root ∉ [.union, .except, .intersect, .values]
  case_value : ∀ x, s'.Reaches x → s'.tree.kind x = .caseOf → s'.tree.operand x 0 = none
  case_tests : ∀ i c whens, s.Reaches (some i) → s.tree.call? (some i) = some c →
    c.kind = .caseOf → c.operand 0 ≠ none → s.tree.list? (c.operand 1) = some whens →
    s'.tree.kind (s.image ops (some i)) = .caseOf ∧ ∃ tests,
      s'.tree.list? (s'.tree.operand (s.image ops (some i)) 1) = some tests ∧
      ComparesEach s'.tree (s.image ops (c.operand 0)) (whens.map (s.image ops)) tests
  insertions : ∀ i, s.Reaches (some i) → s.tree.kind (some i) = .insert →
    InsertsSource Eq s'.tree (s.image ops (some i))
  deletions : ∀ i, s.Reaches (some i) → s.tree.kind (some i) = .delete →
    DeletesSelected Eq s'.tree.CopyOf s'.tree (s.image ops (some i))
  updates : ∀ i, s.Reaches (some i) → s.tree.kind (some i) = .update →
    UpdatesSelected Eq s'.tree.CopyOf s'.tree (s.image ops (some i))
  insertion_copies : ∀ x, s'.Reaches x → s'.tree.kind x = .insert →
    InsertsSource s'.tree.Alike s'.tree x
  deletion_copies : ∀ x, s'.Reaches x → s'.tree.kind x = .delete →
    DeletesSelected s'.tree.Alike s'.tree.Alike s'.tree x
  update_copies : ∀ x, s'.Reaches x → s'.tree.kind x = .update →
    UpdatesSelected s'.tree.Alike s'.tree.Alike s'.tree x

variable {c : Call}

namespace Canonical

open SqlAnalysis.Tree

variable {t : Tree} {x : Link}

theorem operand_imageCall : (imageCall ops p c).operand k = p.image (c.operand k) := by
  unfold imageCall padded Call.operand
  rcases Nat.lt_or_ge k c.operands.length with hk | hk
  · rw [List.getElem?_append_left (by simpa using hk), List.getElem?_map]
    cases c.operands[k]? <;> rfl
  · rw [List.getElem?_append_right (by simpa using hk), List.getElem?_eq_none hk,
      List.getElem?_replicate]
    split <;> rfl

theorem forall₂_getElem? {l : List α} {l' : List β} (h : List.Forall₂ R l l') {k : Nat}
    {a : α} {b : β} (ha : l[k]? = some a) (hb : l'[k]? = some b) : R a b := by
  obtain ⟨hk, rfl⟩ := List.getElem?_eq_some_iff.mp ha
  obtain ⟨hk', rfl⟩ := List.getElem?_eq_some_iff.mp hb
  exact h.get hk hk'

/-! ### Sharing -/

theorem selectsFrom_of_isTarget {copies : Link → Link → Prop} (hv : v.Fits ops)
    (hcopies : ∀ {x y}, t.CopyOf x y → copies x y) (h : IsTarget v t table name source) :
    SelectsFrom copies t table name source := by
  cases h with
  | plain hcopy => exact ⟨fun _ => hcopies hcopy, fun h => absurd rfl h⟩
  | @named _ _ copy label hname hcall hcopy hlabel =>
    exact ⟨fun h => absurd h hname,
      fun _ => ⟨copy, label, ⟨_, hcall, hv.naming.2, rfl⟩, hcopies hcopy, hcopies hlabel⟩⟩

theorem operand_of_call? (h : t.call? x = some c) (k : Nat) : t.operand x k = c.operand k := by
  rw [operand, h]
  rfl

theorem insertsSource_of_becomes (hk : c.kind = .insert) (h : Becomes v t c x) :
    InsertsSource Eq t x := by
  simp only [Becomes, hk] at h
  refine ⟨(kind_of_call? h).trans hk, ?_⟩
  rw [operand_of_call? h, operand_of_call? h]
  rfl

theorem deletesSelected_of_becomes (hv : v.Fits ops) (hk : c.kind = .delete) (h : Becomes v t c x) :
    DeletesSelected Eq t.CopyOf t x := by
  simp only [Becomes, hk] at h
  obtain ⟨query, hcall, list, source, hquery, _, htarget⟩ := h
  have hop (k : Nat) := operand_of_call? hcall k
  have hop' (k : Nat) := operand_of_call? hquery k
  refine ⟨(kind_of_call? hcall).trans hk, ?_, ?_, ?_⟩
  · rw [hop]
    exact (kind_of_call? hquery).trans hv.select.2
  · rw [hop, hop]
    exact hop' 3
  · rw [hop, hop, hop]
    exact (hop' 2) ▸ selectsFrom_of_isTarget hv id htarget

theorem updatesSelected_of_becomes (hv : v.Fits ops) (ht : t.Ordered) (hk : c.kind = .update)
    (h : Becomes v t c x) : UpdatesSelected Eq t.CopyOf t x := by
  simp only [Becomes, hk] at h
  obtain ⟨query, hcall, list, source, all, items, hquery, hlist, hall, hitems, htarget⟩ := h
  have hop (k : Nat) := operand_of_call? hcall k
  have hop' (k : Nat) := operand_of_call? hquery k
  refine ⟨(kind_of_call? hcall).trans hk, ?_, ?_, ?_, fun sources hsources =>
    ⟨some all, items, ?_, ?_, ?_, ?_⟩⟩
  · rw [hop]
    exact (kind_of_call? hquery).trans hv.select.2
  · rw [hop, hop]
    exact hop' 3
  · rw [hop, hop, hop]
    exact (hop' 2) ▸ selectsFrom_of_isTarget hv id htarget
  · rw [hop]
    exact (hop' 1) ▸ hlist
  · exact ht.identifier?_of_term hall
  all_goals
    rw [hop] at hsources
    have hsources : t.items (c.operand 2) = sources := congrArg (Option.getD · []) hsources
    have hitems : Assigned v t 0 (t.items (c.operand 2)) items := hitems
    rw [hsources] at hitems
  · simpa using hitems.length_eq.symm
  · intro k source item hsource hitem
    have hzip : (sources.zipIdx 0)[k]? = some (source, k) := by simp [hsource]
    obtain ⟨name, hcall, hname⟩ := forall₂_getElem? hitems hzip hitem
    exact ⟨source, some name, ⟨_, hcall, hv.naming.2, rfl⟩, rfl, ht.identifier?_of_term hname⟩

theorem comparesEach_of_tests (hv : v.Fits ops) {value : Link} {values tests : List Link}
    (h : Tests v t value values whens tests) : ComparesEach t value whens tests := by
  have hlen : tests.length = whens.length := by
    rw [← h.calls.length_eq, List.length_zip, h.length_eq, Nat.min_self]
  refine ⟨hlen, values, h.length_eq, h.nodup, fun k w test x hw htest hx =>
    ⟨(h.alike x (List.mem_of_getElem? hx)).2, ?_⟩⟩
  have hzip : (values.zip whens)[k]? = some (x, w) := List.getElem?_zip_eq_some.mpr ⟨hx, hw⟩
  exact ⟨_, forall₂_getElem? h.calls hzip htest, hv.equals.2, rfl⟩

theorem comparesEach_of_becomes (hv : v.Fits ops) (hk : c.kind = .caseOf) (hne : c.operand 0 ≠ none)
    (hlen : 2 ≤ c.operands.length) (h : Becomes v t c x) :
    t.kind x = .caseOf ∧ ∃ tests, t.list? (t.operand x 1) = some tests ∧
      ComparesEach t (c.operand 0) (t.items (c.operand 1)) tests := by
  simp only [Becomes, hk] at h
  obtain ⟨whens, values, tests, hcall, hlist, htests⟩ := h hne
  refine ⟨(kind_of_call? hcall).trans hk, tests, ?_, comparesEach_of_tests hv htests⟩
  have hwhens : t.operand x 1 = some whens := by
    rw [operand_of_call? hcall, Call.operand, List.getElem?_take_of_lt hlen]
    rfl
  rwa [hwhens]

/-! ### Structure -/

theorem normal_of_reaches (ht : t.Ordered) (h : Normal v ops (t.term root))
    (hx : Relation.ReflTransGen t.Part root x) : Normal v ops (t.term x) := by
  induction hx with
  | refl => exact h
  | tail _ hpart ih =>
    obtain ⟨f, hf, hy⟩ := hpart
    rw [ht.term_of_form? hf] at ih
    exact ih.under _ (List.mem_map_of_mem hy)

theorem settledCall_of_normal (ht : t.Ordered) (h : Normal v ops (t.term x))
    (hc : t.call? x = some c) : SettledCall v c.operator (c.operands.map t.term) := by
  rw [ht.term_of_call? hc] at h
  exact (h.here _ rfl).2.2.2

theorem term_operand (ht : t.Ordered) (x : Link) (k : Nat)
    (h : t.term x = .call o ps) : t.term (t.operand x k) = termAt ps k := by
  obtain ⟨operands, hcall, rfl⟩ := ht.call?_of_term h
  rw [operand_of_call? hcall, ← termAt_map_term]

theorem pair_of_term (ht : t.Ordered) (h : t.term x = .call o [a, b]) : ∃ y z,
      t.call? x = some { operator := o, operands := [y, z] } ∧ t.term y = a ∧ t.term z = b := by
  obtain ⟨operands, hcall, hterms⟩ := ht.call?_of_term h
  obtain ⟨y, rest, rfl, hy, hrest⟩ := List.map_eq_cons_iff.mp hterms
  obtain ⟨z, rest', rfl, hz, hnil⟩ := List.map_eq_cons_iff.mp hrest
  obtain rfl := List.map_eq_nil_iff.mp hnil
  exact ⟨y, z, hcall, hy, hz⟩

theorem length_assignmentTerms : (assignmentTerms v k sources).length = sources.length := by
  induction sources generalizing k with
  | nil => rfl
  | cons source rest ih => rw [assignmentTerms, List.length_cons, ih, List.length_cons]

theorem getElem?_assignmentTerms (v : Vocabulary) (k j : Nat) (sources : List Term) :
    (assignmentTerms v k sources)[j]? = sources[j]?.map fun source =>
      .call v.naming [source, .identifier ["EXPR$" ++ Number.natText (k + j)]] := by
  induction sources generalizing k j with
  | nil => rfl
  | cons source rest ih =>
    cases j with
    | zero => rfl
    | succ j =>
      rw [assignmentTerms, List.getElem?_cons_succ, List.getElem?_cons_succ,
        ih, Nat.add_right_comm, Nat.add_assoc]

theorem selectsFrom_of_term (hv : v.Fits ops) (ht : t.Ordered) (hname : t.Has name)
    (h : t.term source = targetTerm v (t.term table) (t.term name)) :
    SelectsFrom t.Alike t table name source := by
  constructor
  · rintro rfl
    exact h
  · intro hne
    have habsent : ¬ (t.term name).isAbsent := (ht.isAbsent_term hname).not.mpr hne
    rw [targetTerm, if_neg habsent] at h
    obtain ⟨copy, label, hcall, hcopy, hlabel⟩ := pair_of_term ht h
    exact ⟨copy, label, ⟨_, hcall, hv.naming.2, rfl⟩, hcopy, hlabel⟩

theorem insertsSource_of_settled (hc : t.call? x = some c) (hk : c.kind = .insert)
    (h : SettledCall v c.operator (c.operands.map t.term)) : InsertsSource t.Alike t x := by
  have hk' : c.operator.kind = .insert := hk
  simp only [SettledCall, hk', termAt_map_term] at h
  refine ⟨(kind_of_call? hc).trans hk, ?_⟩
  rw [operand_of_call? hc, operand_of_call? hc]
  exact h.2

theorem deletesSelected_of_settled (hv : v.Fits ops) (ht : t.Ordered) (hc : t.call? x = some c)
    (hk : c.kind = .delete) (h : SettledCall v c.operator (c.operands.map t.term)) :
    DeletesSelected t.Alike t.Alike t x := by
  have hk' : c.operator.kind = .delete := hk
  simp only [SettledCall, hk', termAt_map_term, ← operand_of_call? hc] at h
  have hquery := h.2
  refine ⟨(kind_of_call? hc).trans hk, ?_, term_operand ht _ 3 hquery, ?_⟩
  · rw [← ht.kind_term, hquery]
    exact hv.select.2
  · exact selectsFrom_of_term hv ht (.operand ht x 2) (term_operand ht _ 2 hquery)

theorem updatesSelected_of_settled (hv : v.Fits ops) (ht : t.Ordered) (hc : t.call? x = some c)
    (hk : c.kind = .update) (h : SettledCall v c.operator (c.operands.map t.term)) :
    UpdatesSelected t.Alike t.Alike t x := by
  have hk' : c.operator.kind = .update := hk
  simp only [SettledCall, hk', termAt_map_term, ← operand_of_call? hc] at h
  have hquery := h.2
  refine ⟨(kind_of_call? hc).trans hk, ?_, term_operand ht _ 3 hquery,
    ?_, fun sources hsources => ?_⟩
  · rw [← ht.kind_term, hquery]
    exact hv.select.2
  · exact selectsFrom_of_term hv ht (.operand ht x 4) (term_operand ht _ 2 hquery)
  · obtain ⟨list, hlist, hitems⟩ := ht.list?_of_term (term_operand ht _ 1 hquery)
    have hsources' : (t.term (t.operand x 2)).items = sources.map t.term := by
      rw [ht.items_term, Tree.items, hsources]
      rfl
    rw [hsources'] at hitems
    obtain ⟨all, items, rfl, hall, hitems⟩ := List.map_eq_cons_iff.mp hitems
    refine ⟨all, items, hlist, ht.identifier?_of_term hall, ?_,
      fun k source item hsource hitem => ?_⟩
    · simpa [length_assignmentTerms] using congrArg List.length hitems
    · have hterm : t.term item =
          .call v.naming [t.term source, .identifier ["EXPR$" ++ Number.natText k]] := by
        have hk := getElem?_assignmentTerms v 0 k (sources.map t.term)
        rw [← hitems, List.getElem?_map, List.getElem?_map, hitem, hsource, Nat.zero_add] at hk
        exact Option.some.inj hk
      obtain ⟨node, label, hcall, hnode, hlabel⟩ := pair_of_term ht hterm
      exact ⟨node, label, ⟨_, hcall, hv.naming.2, rfl⟩, hnode, ht.identifier?_of_term hlabel⟩

/-! ### Images -/

section Images

variable {s : Statement} (hs : s.tree.Ordered) (hroot : s.tree.Has s.root) (hops : Regular ops)
  (hforms : ∀ i f, s.tree.form? (some i) = some f → Script.ReadForm ops f)

theorem exists_root_of_reaches (h : s.Reaches (some i)) : ∃ r, s.root = some r := by
  cases hr : s.root with
  | some r => exact ⟨r, rfl⟩
  | none =>
    unfold Statement.Reaches at h
    rw [hr] at h
    rcases Relation.ReflTransGen.cases_head h with h | ⟨y, hy, _⟩
    · cases h
    · exact absurd hy not_part_none

include hops hforms in
theorem kind_imageCall (hc : s.tree.call? (some i) = some c) (hk : c.kind ≠ .function) :
    (imageCall ops p c).kind = c.kind := by
  have hbound : bound ops c.operator = c.operator := by
    rcases (hforms i _ (form?_of_call? hc) : Script.ReadCall ops _ _).mem_or_unresolved with hmem
      | ⟨name, site, ho⟩
    · exact bound_of_resolved (hops.resolved _ hmem)
    · exact absurd (congrArg Operator.kind ho) hk
  exact congrArg Operator.kind hbound

include hs hroot in
theorem exists_depicts (hi : s.Reaches (some i)) :
    ∃ r out, (finished v ops s).image (some i) = some out ∧
      Depicts v ops s.tree r (finished v ops s) i out := by
  obtain ⟨r, hr⟩ := exists_root_of_reaches hi
  obtain ⟨out, hout⟩ := exists_image hs hroot hr hi
  obtain ⟨htracks, _, _⟩ := finished_tracks v ops hs hroot hr carries_true trivial
  exact ⟨r, out, hout, htracks.done i out hout⟩

include hs hroot hops hforms in
theorem comparesEach_image (hv : v.Fits ops) (hi : s.Reaches (some i))
    (hc : s.tree.call? (some i) = some c) (hk : c.kind = .caseOf) (hne : c.operand 0 ≠ none)
    (hwhens : s.tree.list? (c.operand 1) = some whens) :
    (finished v ops s).tree.kind ((finished v ops s).image (some i)) = .caseOf ∧
      ∃ tests, (finished v ops s).tree.list?
        ((finished v ops s).tree.operand ((finished v ops s).image (some i)) 1) = some tests ∧
      ComparesEach (finished v ops s).tree ((finished v ops s).image (c.operand 0))
      (whens.map (finished v ops s).image) tests := by
  have hpart {k : Nat} {j : NodeId} (hk : c.operand k = some j) : s.Reaches (some j) :=
    .tail hi (.of_operands hc (c.mem_operands_of_operand hk))
  obtain ⟨j₀, hj₀⟩ := Option.ne_none_iff_exists'.mp hne
  obtain ⟨j₁, hj₁⟩ : ∃ j, c.operand 1 = some j := by
    cases hj : c.operand 1 with
    | none => rw [hj] at hwhens; cases hwhens
    | some j => exact ⟨j, rfl⟩
  obtain ⟨_, out, hout, hdepicts⟩ := exists_depicts hs hroot hi
  obtain ⟨_, value, hvalue, _⟩ := exists_depicts hs hroot (hpart hj₀)
  obtain ⟨_, list, hlist, hdepicts₁⟩ := exists_depicts hs hroot (hpart hj₁)
  have hitems : (finished v ops s).tree.items (some list) = whens.map (finished v ops s).image := by
    rw [Tree.items, hdepicts₁.items whens (hj₁ ▸ hwhens)]
    rfl
  have hlen : 2 ≤ (imageCall ops (finished v ops s) c).operands.length := by
    have hlt : 1 < c.operands.length := by
      by_contra hge
      rw [Call.operand, List.getElem?_eq_none (by omega)] at hj₁
      cases hj₁
    simp only [imageCall, padded, List.length_append, List.length_map]
    omega
  have hcompares :=
    comparesEach_of_becomes hv ((kind_imageCall hops hforms hc (by rw [hk]; decide)).trans hk)
    (by rw [operand_imageCall, hj₀, hvalue]; exact Option.some_ne_none _)
      hlen (hdepicts.becomes c hc)
  rw [operand_imageCall, operand_imageCall, hj₁, hlist, hitems] at hcompares
  rw [hout]
  exact hcompares

end Images

end Canonical

open Canonical in
/-- The canonical form of a statement that is read. -/
theorem Statement.isCanonicalFormOf_canonical {text : String}
    {s : Statement} (h : Script.parse .standard text = .ok s) :
    ∃ s', s.canonical .standard = .ok s' ∧ s'.IsCanonicalFormOf .standard s := by
  obtain ⟨v, hv⟩ := standard_vocabulary
  have hfits := Vocabulary.fits_of_ofRegistry hv
  obtain ⟨hs, hroot, hforms⟩ := Script.parse_reads h
  have hcanonical := canonical_eq hv hs hroot
  obtain ⟨ht, _, hterm⟩ := term_canonical hv hs hroot hcanonical
  have hnormal {x : Link}
      (hx : Statement.Reaches
      { tree := (finished v .standard s).tree, root := s.image .standard s.root } x) : Normal
      v .standard ((finished v .standard s).tree.term x) :=
    normal_of_reaches ht (hterm ▸ normal_canonicalTerm regular_standard hfits) hx
  have hsettled {x : Link} {k : Kind}
      (hx : Statement.Reaches
      { tree := (finished v .standard s).tree, root := s.image .standard s.root } x)
      (hk : (finished v .standard s).tree.kind x = k) (hne : k ≠ .other) : ∃ c,
        (finished v .standard s).tree.call? x = some c ∧
        c.kind = k ∧
          SettledCall v c.operator (c.operands.map (finished v .standard s).tree.term) := by
    cases hc : (finished v .standard s).tree.call? x with
    | none =>
      rw [Tree.kind, hc] at hk
      exact absurd hk.symm hne
    | some c =>
      exact ⟨c, rfl, (Tree.kind_of_call? hc).symm.trans hk,
        settledCall_of_normal ht (hnormal hx) hc⟩
  have hbecomes {i : NodeId} (hi : s.Reaches (some i)) {k : Kind} (hk : s.tree.kind (some i) = k)
    (hne : k ≠ .other)
      (hfun : k ≠ .function) : ∃ out c, s.image .standard (some i) = some out ∧ c.kind = k ∧
        Becomes v (finished v .standard s).tree c (some out) := by
    cases hc : s.tree.call? (some i) with
    | none =>
      rw [Tree.kind, hc] at hk
      exact absurd hk.symm hne
    | some c =>
      obtain ⟨_, out, hout, hdepicts⟩ := exists_depicts hs hroot hi
      have hkind : c.kind = k := (Tree.kind_of_call? hc).symm.trans hk
      exact ⟨out, _, (image_eq hv _).trans hout,
        (kind_imageCall regular_standard hforms hc (hkind ▸ hfun)).trans hkind,
        hdepicts.becomes c hc⟩
  refine ⟨_, hcanonical, rfl, fun x hx => ⟨fun hk => ?_, fun hk => ?_⟩,
    ?_, fun x hx hk => ?_, ?_, fun i hi hk => ?_, fun i hi hk => ?_, fun i hi hk => ?_,
    fun x hx hk => ?_, fun x hx hk => ?_, fun x hx hk => ?_⟩
  · obtain ⟨c, _, hkind, hcall⟩ := hsettled hx hk (by decide)
    have hkind : c.operator.kind = .orderBy := hkind
    simp only [SettledCall, hkind] at hcall
  · obtain ⟨c, _, hkind, hcall⟩ := hsettled hx hk (by decide)
    have hkind : c.operator.kind = .explicitTable := hkind
    simp only [SettledCall, hkind] at hcall
  · have hbare := isBare_canonicalTerm hfits (s.tree.term s.root)
    rw [← hterm, ht.kind_term] at hbare
    intro hmem
    simp only [List.mem_cons, List.not_mem_nil, or_false] at hmem
    rcases hmem with hk | hk | hk | hk <;> rw [hk] at hbare <;> cases hbare
  · obtain ⟨c, hc, hkind, hcall⟩ := hsettled hx hk (by decide)
    have hkind : c.operator.kind = .caseOf := hkind
    simp only [SettledCall, hkind, Tree.termAt_map_term, ← operand_of_call? hc] at hcall
    exact (ht.term_eq_absent_iff (.operand ht x 0)).mp hcall
  · intro i c whens hi hc hk hne hwhens
    have hcompares := comparesEach_image hs hroot regular_standard hforms hfits hi hc hk hne hwhens
    simp only [funext (image_eq hv)]
    exact hcompares
  · obtain ⟨out, c, hout, hkind, hbecomes⟩ := hbecomes hi hk (by decide) (by decide)
    rw [hout]
    exact insertsSource_of_becomes hkind hbecomes
  · obtain ⟨out, c, hout, hkind, hbecomes⟩ := hbecomes hi hk (by decide) (by decide)
    rw [hout]
    exact deletesSelected_of_becomes hfits hkind hbecomes
  · obtain ⟨out, c, hout, hkind, hbecomes⟩ := hbecomes hi hk (by decide) (by decide)
    rw [hout]
    exact updatesSelected_of_becomes hfits ht hkind hbecomes
  · obtain ⟨c, hc, hkind, hcall⟩ := hsettled hx hk (by decide)
    exact insertsSource_of_settled hc hkind hcall
  · obtain ⟨c, hc, hkind, hcall⟩ := hsettled hx hk (by decide)
    exact deletesSelected_of_settled hfits ht hc hkind hcall
  · obtain ⟨c, hc, hkind, hcall⟩ := hsettled hx hk (by decide)
    exact updatesSelected_of_settled hfits ht hc hkind hcall

theorem Statement.isCanonicalFormOf_canonical_update :
    ∃ s s', Script.parse .standard
        "(UPDATE :target EMP :columns [SAL] :sources [1] :condition (= SAL 2) :alias E)" = .ok s ∧
      s.canonical .standard = .ok s' ∧ s'.IsCanonicalFormOf .standard s := by
  have hread : (Script.parse .standard
      "(UPDATE :target EMP :columns [SAL] :sources [1] :condition (= SAL 2) :alias E)").toOption.any
      (fun _ => true) = true := by
    decide +kernel
  obtain ⟨s, hs, _⟩ := Script.exists_of_any hread
  obtain ⟨s', hs', hform⟩ := Statement.isCanonicalFormOf_canonical hs
  exact ⟨s, s', hs, hs', hform⟩

/-- A copy of an insertion does not share its source with its block. -/
theorem Statement.exists_copied_insert :
    ∃ s s' x, Script.parse .standard
        "(CASE :value (INSERT :target EMP :source X) :when [1 2] :then [3 4])" = .ok s ∧
      (∀ i c, s.tree.call? (some i) = some c → c.operator.arity.allows c.operands.length = true) ∧
      s.canonical .standard = .ok s' ∧ s'.Reaches x ∧ s'.tree.kind x = .insert ∧
      s'.tree.operand x 3 ≠ s'.tree.operand x 1 := by
  have heval : (Script.parse .standard
      "(CASE :value (INSERT :target EMP :source X) :when [1 2] :then [3 4])").toOption.any (fun s =>
        ((List.range s.tree.size).all fun i =>
          (s.tree.call? (some i)).all fun c => c.operator.arity.allows c.operands.length) &&
        (s.canonical .standard).toOption.any fun s' =>
          (s'.tree.preorderWhere (fun _ => true) s'.root).any fun i =>
          decide (s'.tree.kind (some i) = .insert ∧
            s'.tree.operand (some i) 3 ≠ s'.tree.operand (some i) 1)) = true := by
    decide +kernel
  obtain ⟨s, hs, heval⟩ := Script.exists_of_any heval
  obtain ⟨hallowed, heval⟩ := Bool.and_eq_true_iff.mp heval
  obtain ⟨s', hs', heval⟩ := Script.exists_of_any heval
  obtain ⟨i, hi, heval⟩ := List.any_eq_true.mp heval
  refine ⟨s, s', some i, hs, fun j c hc => ?_, hs', Tree.reflTransGen_of_mem_preorderWhere hi,
    of_decide_eq_true heval⟩
  have hj := List.all_eq_true.mp hallowed j
    (List.mem_range.mpr (Tree.lt_size_of_form? (Tree.form?_of_call? hc)))
  rwa [hc] at hj

end SqlAnalysis

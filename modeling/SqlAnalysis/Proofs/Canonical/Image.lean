import SqlAnalysis.Proofs.Canonical.Leaves

/-!
The canonical form of a statement, node by node. Each node of the old tree that is met gets one
image in the new tree, which stands for the canonical form of the node's term and is made of the
images of the node's parts.
-/

namespace SqlAnalysis.Canonical

open SqlAnalysis.Tree

variable {v : Vocabulary} {ops : Registry} {source : Tree} {root : NodeId} {E : Progress → Prop}
  {p q : Progress}

namespace Progress

def image (p : Progress) (x : Link) : Link := x.bind p.done.get?

@[simp] theorem image_none : p.image none = none := rfl

@[simp] theorem image_some : p.image (some i) = p.done.get? i := rfl

/-- What is in the new tree, and what is done, stays. -/
structure Before (p q : Progress) : Prop where
  tree : p.tree.Extends q.tree
  done : ∀ i out, p.done.get? i = some out → q.done.get? i = some out

theorem Before.refl (p : Progress) : p.Before p := ⟨.refl _, fun _ _ h => h⟩

theorem Before.trans (h : p.Before q) (h' : q.Before r) : p.Before r :=
  ⟨h.tree.trans h'.tree, fun i out hi => h'.done i out (h.done i out hi)⟩

end Progress

/-- The call that a call becomes when its operands are replaced by their images. -/
def imageCall (ops : Registry) (p : Progress) (c : Call) : Call :=
  { operator := bound ops c.operator, operands := padded c.operator.slots (c.operands.map p.image) }

variable (v ops source root) in
/-- The node `out` is the image of the node `i` of the source. -/
structure Depicts (p : Progress) (i out : NodeId) : Prop where
  lt_size : i < source.size
  has : p.tree.Has (some out)
  parts : ∀ j, source.Part (some i) (some j) → ∃ o, p.done.get? j = some o
  term_eq : p.tree.term (some out) = canonicalTerm v ops (i == root) (source.term (some i))
  becomes : ∀ c, source.call? (some i) = some c → Becomes v p.tree (imageCall ops p c) (some out)
  items : ∀ l, source.list? (some i) = some l → p.tree.list? (some out) = some (l.map p.image)

variable (v ops source root E) in
/-- What is done is depicted in the new tree, and `E` holds. -/
structure Progress.Tracks (p : Progress) : Prop where
  ordered : p.tree.Ordered
  holds : E p
  done : ∀ i out, p.done.get? i = some out → Depicts v ops source root p i out

theorem Progress.Tracks.has_image (h : p.Tracks v ops source root E) (x : Link) :
    p.tree.Has (p.image x) := by
  cases x with
  | none => exact .absent
  | some i =>
    rw [Progress.image_some]
    cases hi : p.done.get? i with
    | none => exact .absent
    | some out => exact (h.done i out hi).has

theorem mem_padded (h : y ∈ padded slots l) : y ∈ l ∨ y = none := by
  obtain h | h := List.mem_append.mp h
  · exact .inl h
  · exact .inr (List.mem_replicate.mp h).2

theorem map_term_padded (t : Tree) (slots : List String) (l : List Link) :
    (padded slots l).map t.term = paddedTerms slots (l.map t.term) := by
  rw [padded, paddedTerms, List.map_append, List.map_replicate, List.length_map, term_none]

theorem Progress.Tracks.has_operands (h : p.Tracks v ops source root E) (c : Call) :
    ∀ y ∈ (imageCall ops p c).operands, p.tree.Has y := by
  intro y hy
  obtain hy | rfl := mem_padded hy
  · obtain ⟨z, _, rfl⟩ := List.mem_map.mp hy
    exact h.has_image z
  · exact .absent

theorem image_eq_of_before (h : p.Before q)
    (hx : ∀ i, x = some i → ∃ out, p.done.get? i = some out) : q.image x = p.image x := by
  cases x with
  | none => rfl
  | some i =>
    obtain ⟨out, hout⟩ := hx i rfl
    rw [Progress.image_some, Progress.image_some, hout, h.done i out hout]

variable {l : List Link}

theorem map_image_eq_of_before (h : p.Before q)
    (hl : ∀ i, some i ∈ l → ∃ out, p.done.get? i = some out) : l.map q.image = l.map p.image :=
  List.map_congr_left fun _ hx => image_eq_of_before h fun i hi => hl i (hi ▸ hx)

theorem Depicts.mono (hp : p.Tracks v ops source root E) (hq : q.tree.Ordered) (hpq : p.Before q)
    (h : Depicts v ops source root p i out) : Depicts v ops source root q i out where
  lt_size := h.lt_size
  has := h.has.mono hpq.tree
  parts j hj := by
    obtain ⟨o, ho⟩ := h.parts j hj
    exact ⟨o, hpq.done j o ho⟩
  term_eq := by rw [hpq.tree.term_eq hp.ordered hq h.has, h.term_eq]
  becomes c hc := by
    have hcall : imageCall ops q c = imageCall ops p c := by
      rw [imageCall, imageCall, map_image_eq_of_before hpq fun j hj =>
        h.parts j (.of_operands hc hj)]
    rw [hcall]
    exact (h.becomes c hc).mono hp.ordered hq hpq.tree (hp.has_operands c)
  items l hl := by
    rw [map_image_eq_of_before hpq fun j hj => h.parts j (.of_list hl hj)]
    exact hpq.tree.list? (h.items l hl)

variable (v ops source root E) in
/-- The step depicts nodes of the source before `bound`, and `Q` holds after it. -/
structure Rewrites {α : Type} (bound : NodeId) (p : Progress) (m : CanonicalM α)
    (Q : α → Progress → Prop) : Prop where
  tracks : (m p).2.Tracks v ops source root E
  before : p.Before (m p).2
  added : ∀ i out, (m p).2.done.get? i = some out → p.done.get? i = some out ∨ i < bound
  post : Q (m p).1 (m p).2

namespace Rewrites

theorem pure (hp : p.Tracks v ops source root E) (h : Q a p) :
    Rewrites v ops source root E b p (pure a) Q :=
  ⟨hp, .refl p, fun _ _ h => .inl h, h⟩

theorem bind (hm : Rewrites v ops source root E b p m Q) (hb : b ≤ b')
    (hf : ∀ a q, q.Tracks v ops source root E → p.Before q → (∀ i, b ≤ i → p.done.get? i = none →
    q.done.get? i = none) → Q a q → Rewrites v ops source root E b' q (f a) R) :
    Rewrites v ops source root E b' p (m >>= f) R := by
  obtain ⟨hq, hpq, hadd, hpost⟩ := hm
  have hkept (i : NodeId) (hi : b ≤ i) (hnew : p.done.get? i = none) : (m p).2.done.get? i =
      none := by
    refine Option.eq_none_iff_forall_ne_some.mpr fun out hout => ?_
    obtain h | h := hadd i out hout
    · rw [hnew] at h
      cases h
    · exact absurd h (Nat.not_lt.mpr hi)
  obtain ⟨hr, hqr, hadd', hpost'⟩ := hf _ _ hq hpq hkept hpost
  refine ⟨hr, hpq.trans hqr, fun i out hi => ?_, hpost'⟩
  obtain hi | hi := hadd' i out hi
  · exact (hadd i out hi).imp_right fun h => Nat.lt_of_lt_of_le h hb
  · exact .inr hi

theorem get {f : Progress → CanonicalM β} (hf : Rewrites v ops source root E b p (f p) R) :
    Rewrites v ops source root E b p (MonadState.get >>= f) R :=
  ⟨hf.tracks, hf.before, hf.added, hf.post⟩

theorem widen (hm : Rewrites v ops source root E b p m Q) (hb : b ≤ b') :
    Rewrites v ops source root E b' p m Q :=
  ⟨hm.tracks, hm.before, fun i out hi => (hm.added i out hi).imp_right fun h =>
    Nat.lt_of_lt_of_le h hb, hm.post⟩

theorem mapM (hp : p.Tracks v ops source root E)
    (h : ∀ x ∈ l, ∀ q, q.Tracks v ops source root E →
    Rewrites v ops source root E b q (g x) fun y r =>
      y = r.image x ∧ ∀ i, x = some i → ∃ out, r.done.get? i = some out) :
    Rewrites v ops source root E b p (l.mapM g) fun ys r =>
      ys = l.map r.image ∧ ∀ i, some i ∈ l → ∃ out, r.done.get? i = some out := by
  induction l generalizing p with
  | nil => exact .pure hp ⟨rfl, nofun⟩
  | cons x l ih =>
    rw [List.mapM_cons]
    refine .bind (h x List.mem_cons_self p hp) (Nat.le_refl b) fun y q hq _ _ ⟨hy, hx⟩ => ?_
    refine .bind (ih hq fun z hz => h z (List.mem_cons_of_mem x hz)) (Nat.le_refl b)
      fun ys r hr hqr _ ⟨hys, hl⟩ => .pure hr ⟨?_, ?_⟩
    · rw [List.map_cons, image_eq_of_before hqr hx, hy, hys]
    · intro i hi
      rcases List.mem_cons.mp hi with rfl | hi
      · obtain ⟨out, hout⟩ := hx i rfl
        exact ⟨out, hqr.done i out hout⟩
      · exact hl i hi

end Rewrites

def Progress.finish (p : Progress) (i : NodeId) (m : TreeM NodeId) : Progress :=
  { tree := (m p.tree).2, done := p.done.insert i (m p.tree).1 }

theorem Progress.get?_finish (p : Progress) (i j : NodeId) (m : TreeM NodeId) :
    (p.finish i m).done.get? j = if i = j then some (m p.tree).1 else p.done.get? j :=
  Table.get?_insert ..

variable (v ops) in
/-- A node is built from the images of its parts. -/
def imageOf (p : Progress) (n : Node) (top : Bool) : TreeM NodeId :=
  match n.form with
  | .call c => call v (imageCall ops p c) n.span top
  | .list items => Tree.push { n with form := .list (items.map p.image) }
  | _ => Tree.push n

variable (v ops source root E) in
/-- What holds before a node is built holds after it. -/
def Carries : Prop := ∀ {i n} {p : Progress} top, source.node? (some i) = some n →
      p.Tracks v ops source root E → p.done.get? i = none →
  (∀ j, some j ∈ n.form.parts → j < root ∧ ∃ out, p.done.get? j = some out) →
    E (p.finish i (imageOf v ops p n top))

theorem carries_true : Carries v ops source root fun _ => True := fun _ _ _ _ _ => trivial

theorem finish_rewrites (hq : q.Tracks v ops source root E) (hi : i < source.size)
    (hnew : q.done.get? i = none) (hparts : ∀ j, source.Part (some i) (some j) →
    ∃ o, q.done.get? j = some o)
    (hm : Builds q.tree m fun out u => u.Has (some out) ∧
      u.term (some out) = canonicalTerm v ops (i == root) (source.term (some i)) ∧
      (∀ c, source.call? (some i) = some c → Becomes v u (imageCall ops q c) (some out)) ∧
      ∀ l, source.list? (some i) = some l → u.list? (some out) = some (l.map q.image))
        (hE : E (q.finish i m)) :
    Rewrites v ops source root E (i + 1) q (do
      let out ← inTree m
      modify fun s => { s with done := s.done.insert i out }
      return some out) fun y r => y = r.image (some i) ∧ ∀ j, some i = some j →
        ∃ out, r.done.get? j = some out := by
  obtain ⟨hord, hext, hhas, hterm, hbecomes, hitems⟩ := hm
  let out := (m q.tree).1
  let r := q.finish i m
  have hself : r.done.get? i = some out := by rw [q.get?_finish, if_pos rfl]
  have hqr : q.Before r := by
    refine ⟨hext, fun j o hj => ?_⟩
    rw [q.get?_finish, if_neg]
    · exact hj
    · rintro rfl
      rw [hnew] at hj
      cases hj
  have hmono {j : NodeId} (hj : ∃ o, q.done.get? j = some o) : ∃ o, r.done.get? j = some o := by
    obtain ⟨o, ho⟩ := hj
    exact ⟨o, hqr.done j o ho⟩
  have hdepicts : Depicts v ops source root r i out := by
    refine ⟨hi, hhas, fun j hj => hmono (hparts j hj), hterm, fun c hc => ?_, fun l hl => ?_⟩
    · have hcall : imageCall ops r c = imageCall ops q c := by
        rw [imageCall, imageCall, map_image_eq_of_before hqr fun j hj =>
          hparts j (.of_operands hc hj)]
      rw [hcall]
      exact hbecomes c hc
    · rw [map_image_eq_of_before hqr fun j hj => hparts j (.of_list hl hj)]
      exact hitems l hl
  refine ⟨⟨hord, hE, fun j o hj => ?_⟩, hqr, fun j o hj => ?_, hself.symm, ?_⟩
  · have hj := (q.get?_finish i j m).symm.trans hj
    split at hj
    · rename_i hij
      cases hj
      exact hij ▸ hdepicts
    · exact (hq.done j o hj).mono hq hord hqr
  · have hj := (q.get?_finish i j m).symm.trans hj
    split at hj
    · rename_i hij
      exact .inr (hij ▸ Nat.lt_succ_self _)
    · exact .inl hj
  · rintro j ⟨⟩
    exact ⟨out, hself⟩

theorem map_term_image (hq : q.Tracks v ops source root E)
    (hl : ∀ i, some i ∈ l → i < root ∧ ∃ out, q.done.get? i = some out) :
    (l.map q.image).map q.tree.term = (l.map source.term).map (canonicalTerm v ops false) := by
  rw [List.map_map, List.map_map]
  refine List.map_congr_left fun x hx => ?_
  cases x with
  | none => simp only [Function.comp, Progress.image_none, term_none, canonicalTerm]
  | some i =>
    obtain ⟨hlt, out, hout⟩ := hl i hx
    have hbelow : (i == root) = false := by simpa using Nat.ne_of_lt hlt
    simp only [Function.comp, Progress.image_some, hout, (hq.done i out hout).term_eq, hbelow]

/-- Walking from a node depicts the node; `root` is the one node that counts as the whole
statement. -/
theorem nodeUpTo_rewrites (hE : Carries v ops source root E) (hs : source.Ordered)
    (hp : p.Tracks v ops source root E)
    (hx : ∀ i, x = some i → i < source.size ∧ i < depth ∧ i ≤ root ∧ top = (i == root)) :
    Rewrites v ops source root E ((x.map (· + 1)).getD 0) p
      (nodeUpTo v ops source depth top x) fun y q =>
      y = q.image x ∧ ∀ i, x = some i → ∃ out, q.done.get? i = some out := by
  induction depth generalizing x top p with
  | zero =>
    cases x with
    | none => exact .pure hp ⟨rfl, by rintro _ ⟨⟩⟩
    | some i => exact absurd (hx i rfl).2.1 (Nat.not_lt_zero i)
  | succ depth ih =>
    cases x with
    | none => exact .pure hp ⟨rfl, by rintro _ ⟨⟩⟩
    | some i =>
      obtain ⟨hi, hdepth, hroot, htop⟩ := hx i rfl
      obtain ⟨n, hn⟩ : ∃ n, source.node? (some i) = some n := ⟨_, Array.getElem?_eq_getElem hi⟩
      have hform : source.form? (some i) = some n.form := by rw [form?, hn]; rfl
      -- the parts come earlier in the source, so they are depicted as parts of a statement
      have hloop (l : List Link) (hl : ∀ y ∈ l, y ∈ n.form.parts) {p}
          (hp : p.Tracks v ops source root E) : Rewrites v ops source root
          E i p (l.mapM (nodeUpTo v ops source depth false)) fun ys r =>
            ys = l.map r.image ∧ ∀ j, some j ∈ l → ∃ out, r.done.get? j = some out := by
        refine .mapM hp fun y hy q hq => ?_
        have hbelow : ∀ j, y = some j → j < i := by
          rintro j rfl
          exact hs i j ⟨_, hform, hl _ hy⟩
        refine (ih hq fun j hj => ?_).widen ?_
        · have hj' := hbelow j hj
          have hne : (j == root) = false := by
            simpa using Nat.ne_of_lt (Nat.lt_of_lt_of_le hj' hroot)
          exact ⟨Nat.lt_trans hj' hi, Nat.lt_of_lt_of_le hj' (Nat.le_of_lt_succ hdepth),
            Nat.le_trans (Nat.le_of_lt hj') hroot, hne.symm⟩
        · cases y with
          | none => exact Nat.zero_le i
          | some j => exact hbelow j rfl
      have hterms {q : Progress} (hq : q.Tracks v ops source root E) {l : List Link}
        (hl : ∀ y ∈ l, y ∈ n.form.parts)
          (hdone : ∀ j, some j ∈ l → ∃ out, q.done.get? j = some out) :
          (l.map q.image).map q.tree.term = (l.map source.term).map (canonicalTerm v ops false) :=
        map_term_image hq fun j hj =>
          ⟨Nat.lt_of_lt_of_le (hs i j ⟨_, hform, hl _ hj⟩) hroot, hdone j hj⟩
      have hterm : source.term (some i) = .node n.form.label (n.form.parts.map source.term) :=
        hs.term_of_form? hform
      have hready {q : Progress} (hq : q.Tracks v ops source root E) (hnew : q.done.get? i = none)
          (hdone : ∀ j, some j ∈ n.form.parts → ∃ out, q.done.get? j = some out) :
          E (q.finish i (imageOf v ops q n top)) ∧
            ∀ j, source.Part (some i) (some j) → ∃ out, q.done.get? j = some out := by
        refine ⟨hE top hn hq hnew fun j hj =>
          ⟨Nat.lt_of_lt_of_le (hs i j ⟨_, hform, hj⟩) hroot, hdone j hj⟩, ?_⟩
        rintro j ⟨f, hf, hj⟩
        cases hform.symm.trans hf
        exact hdone j hj
      unfold nodeUpTo
      simp only [hn]
      refine .get ?_
      cases hold : p.done.get? i with
      | some out =>
        refine .pure hp ⟨hold.symm, ?_⟩
        rintro j ⟨⟩
        exact ⟨out, hold⟩
      | none =>
        cases hf : n.form with
        | call c =>
          rw [hf] at hform hloop hterms hterm hready
          refine .bind (hloop c.operands (fun _ h => h) hp) (Nat.le_succ i)
            fun operands q hq _ hkept h => ?_
          obtain ⟨rfl, hdone⟩ := h
          have hnew := hkept i (Nat.le_refl i) hold
          obtain ⟨hE, hparts⟩ := hready hq hnew hdone
          rw [imageOf, hf] at hE
          refine finish_rewrites hq hi hnew hparts ?_ hE
          refine (call_spec hq.ordered (hq.has_operands c)).weaken fun out u h =>
            ⟨h.1, ?_, ?_, ?_⟩
          · rw [h.2.1, hterm, ← htop, imageCall, map_term_padded,
              hterms hq (l := c.operands) (fun _ h => h) hdone, Form.label_call, canonicalTerm]
            rfl
          · intro c' hc'
            cases hform.symm.trans (form?_of_call? hc')
            exact h.2.2
          · intro l hl
            cases hform.symm.trans (form?_of_list? hl)
        | list items =>
          rw [hf] at hform hloop hterms hterm hready
          refine .bind (hloop items (fun _ h => h) hp) (Nat.le_succ i) fun out q hq _ hkept h => ?_
          obtain ⟨rfl, hdone⟩ := h
          have hnew := hkept i (Nat.le_refl i) hold
          obtain ⟨hE, hparts⟩ := hready hq hnew hdone
          rw [imageOf, hf] at hE
          refine finish_rewrites hq hi hnew hparts ?_ hE
          have hitems : ∀ y ∈ items.map q.image, q.tree.Has y := by
            intro y hy
            obtain ⟨z, _, rfl⟩ := List.mem_map.mp hy
            exact hq.has_image z
          refine (Builds.push_form hq.ordered (n := { n with form := .list (items.map q.image) })
            hitems).refine fun out u hu hext hout => ⟨.of_form? hout.1, ?_, ?_, ?_⟩
          · rw [hu.term_of_form? hout.1, hterm]
            simp only [Form.label_list, Form.parts]
            rw [canonicalTerm_of_ne_call v (fun c hc => by cases hc),
              hext.map_term_eq hq.ordered hu hitems, hterms hq (l := items) (fun _ h => h) hdone]
          · intro c hc
            cases hform.symm.trans (form?_of_call? hc)
          · intro l hl
            cases hform.symm.trans (form?_of_list? hl)
            exact list?_of_form? hout.1
        | _ =>
          rw [hf] at hform hterm hready
          obtain ⟨hE, hparts⟩ := hready hp hold (by rintro _ ⟨⟩)
          rw [imageOf, hf] at hE
          refine finish_rewrites hp hi hold hparts ?_ hE
          refine (Builds.push_form hp.ordered (n := n) (by rw [hf]; rintro _ ⟨⟩)).refine
            fun out u hu _ hout => ⟨.of_form? hout.1, ?_, ?_, ?_⟩
          · have hout := hout.1
            rw [hf] at hout
            rw [hu.term_of_form? hout, hterm]
            simp only [Form.label, Form.withParts, Form.parts]
            rw [canonicalTerm_of_ne_call v (fun c hc => by cases hc)]
            rfl
          · intro c hc
            cases hform.symm.trans (form?_of_call? hc)
          · intro l hl
            cases hform.symm.trans (form?_of_list? hl)

end SqlAnalysis.Canonical

import SqlAnalysis.Proofs.Analysis.Pending
import SqlAnalysis.Proofs.Analysis.Statement

/-!
The analysis of a registered statement comes to an end by itself if no windowed call leads back to
itself. A relation is validated at most once, and within a relation the rank of the node at hand
decreases.
-/

namespace SqlAnalysis.Analysis

/-- Reasons to stop other than a bound on the number of steps. -/
def Concluded (h : Halt) : Prop := h ≠ .exhausted

instance {I : Analysis → Prop} : Refusing I Concluded := ⟨fun _ _ => nofun, nofun, nofun⟩

section Windows

variable {t : Tree}

/-- The bound is large enough to follow a window: names are followed up to a limit, and beyond it
only specifications inside one another. -/
def Enough (t : Tree) (fuel depth : Nat) (x : Link) : Prop :=
  if depth ≤ maxReferences then maxReferences + 3 + t.size ≤ depth + fuel else levels x ≤ fuel

theorem levels_le_size (hx : t.Has x) : levels x ≤ t.size + 1 := by
  cases x with
  | none => exact Nat.le_add_left 1 _
  | some i => exact Nat.succ_le_succ (hx i rfl)

theorem Enough.pos (h : Enough t fuel depth x) : 0 < fuel := by
  unfold Enough at h
  split at h
  · omega
  · cases x <;> exact Nat.lt_of_lt_of_le (Nat.succ_pos _) h

theorem Enough.next (h : Enough t (fuel + 1) depth x) (hy : t.Has y)
    (hlt : maxReferences < depth → levels y < levels x) : Enough t fuel (depth + 1) y := by
  have hsize := levels_le_size hy
  unfold Enough at h ⊢
  split at h
  · split <;> omega
  · rename_i hdepth
    have hlt := hlt (Nat.lt_of_not_le hdepth)
    rw [if_neg (by omega)]
    omega

variable {s : Setting} {a : Analysis}

theorem Enough.refers (ht : t.Ordered) (hu : t.Extends a.tree) (hq : t.Has (a.store.selectOf scope))
    (hx : t.Has x) (h : Enough t (fuel + 1) depth x) (hy : a.Refers s scope x y)
    (hname : a.tree.identifier? x ≠ none → depth ≤ maxReferences) :
    t.Has y ∧ Enough t fuel (depth + 1) y := by
  cases hy with
  | name hi hw =>
    rw [hu.windowNamed?_eq ht hq] at hw
    have hw : t.Has (some _) := .of_lt (Tree.lt_size_of_windowNamed? hw)
    exact ⟨hw, h.next hw fun hlt => absurd hlt (Nat.not_lt.mpr (hname (by rw [hi]; nofun)))⟩
  | base hc _ hj =>
    -- a specification comes after the window it starts from
    have hc := hu.form?_eq hx ▸ Tree.form?_of_call? hc
    have hmem := Call.mem_operands_of_operand hj
    have hj : t.Has (some _) := .part ht hc hmem
    exact ⟨hj, h.next hj fun _ => levels_lt_of_below ht (.single ⟨_, hc, hmem⟩)⟩

theorem windowUpTo_concludes (ht : t.Ordered) (hu : t.Extends a.tree)
    (hq : t.Has (a.store.selectOf scope)) (hx : t.Has x) (h : Enough t fuel depth x) :
    Keeps s (fun b => b = a) Concluded (windowUpTo scope fuel depth x) := by
  induction fuel generalizing depth x with
  | zero => exact absurd h.pos (Nat.lt_irrefl 0)
  | succ fuel ih =>
    obtain ⟨m, hrun, hm⟩ := windowUpTo_step
    refine .of_run hrun ?_
    cases hm with
    | name _ _ hy =>
      split
      · exact .refuse
      · rename_i hle
        obtain ⟨hy, hnext⟩ := h.refers ht hu hq hx hy fun _ => Nat.not_lt.mp hle
        exact ih hy hnext
    | base hi _ hy =>
      obtain ⟨hy, hnext⟩ := h.refers ht hu hq hx hy fun h => absurd hi h
      refine .seq (ih hy hnext) fun base => ?_
      exact (Window.over_within (A := fun _ => True) ⟨fun _ _ => trivial, fun _ _ => trivial,
        trivial, trivial⟩ ⟨fun _ _ => trivial, fun _ _ => trivial, trivial, trivial⟩).keeps
    | last => exact Keeps.pure _
    | refused => exact .refuse

end Windows

section Engine

variable {s : Setting} {t : Tree} {a : Analysis}

noncomputable def rankIn (s : Setting) (t : Tree) (q : Link) (x : Link) : Nat :=
  t.rank (windowNamed? t s.matcher q) x

theorem rankIn_lt (hx : t.Has x) : rankIn s t q x < (t.size + 1) * (t.size + 1) := by
  cases x with
  | none => exact Nat.mul_pos (Nat.succ_pos _) (Nat.succ_pos _)
  | some i => exact Tree.rank_lt_size (hx i rfl)

theorem Registered.has_selectOf (hreg : Registered t a₀) (scope : ScopeId) :
    t.Has (a₀.store.selectOf scope) := by
  intro i hi
  have hk := hreg.kind_selectOf hi
  obtain ⟨f, hf⟩ := Tree.exists_form?_of_kind (t := t) (x := some i) (by rw [hk]; decide)
  exact Tree.lt_size_of_form? hf

theorem Pending.extends (ha : Pending a₀ u a) (hreg : Registered t a₀) :
    t.Extends a.tree := hreg.tree ▸ ha.same.tree

theorem Pending.reaches (ha : Pending a₀ u a) (hreg : Registered t a₀) (ht : t.Ordered)
    (hw : t.WindowsEnd s.matcher) (hx : t.Has x) :
    a.Reaches s scope (fun y => t.Has y ∧ rankIn s t (a₀.store.selectOf scope) y <
      rankIn s t (a₀.store.selectOf scope) x) x := by
  intro y hy
  have hext := ha.extends hreg
  have hnamed : windowNamed? a.tree s.matcher (a.store.selectOf scope) =
      windowNamed? t s.matcher (a₀.store.selectOf scope) := by
    rw [ha.selectOf]
    exact funext fun name => hext.windowNamed?_eq ht (hreg.has_selectOf scope) _ name
  rw [Analysis.Leads, hnamed] at hy
  have hunwound : t.Unwound (windowNamed? t s.matcher (a₀.store.selectOf scope)) :=
    hw.unwound ht fun _ => hreg.kind_selectOf
  exact hext.rank_lt ht (fun _ _ => Tree.lt_size_of_windowNamed?) hunwound hx hy

theorem resolveWindow_concludes (hreg : Registered t a₀) (ht : t.Ordered) (hx : t.Has x) :
    Keeps s (Pending a₀ u) Concluded (resolveWindow scope x) := by
  refine .of_eq fun a ha => .bind_get fun b hb => ?_
  subst hb
  have hext := ha.extends hreg
  refine windowUpTo_concludes ht hext (ha.selectOf scope ▸ hreg.has_selectOf scope) hx ?_
  rw [Enough, if_pos (Nat.zero_le _), Nat.zero_add]
  exact Nat.add_le_add_left hext.size_le _

/-- What so many steps are enough for, with at most `u` relations to be validated. -/
structure Ready (s : Setting) (t : Tree) (a₀ : Analysis) (steps : Nat) : Prop where
  validate : ∀ {u}, u * stepsWithin t + 1 ≤ steps → ∀ ns target,
    Keeps s (Pending a₀ u) Concluded ((engine steps).validate ns target)
  derive : ∀ {u scope x}, t.Has x → u * stepsWithin t + 2 + 2 * rankIn s t (a₀.store.selectOf scope)
    x ≤ steps → Keeps s (Pending a₀ u) Concluded ((engine steps).derive scope x)
  infer : ∀ {u scope x}, t.Has x → u * stepsWithin t + 3 + 2 * rankIn s t (a₀.store.selectOf scope)
    x ≤ steps → ∀ target, Keeps s (Pending a₀ u) Concluded ((engine steps).infer scope x target)

/-- Nodes of smaller rank in the expressions of a query, and any relation. -/
noncomputable def Requests.ranked (s : Setting) (t : Tree) (a₀ : Analysis) (q : Link) (r : Nat) :
    Requests where
  scopes scope := a₀.store.selectOf scope = q
  typed y := t.Has y ∧ rankIn s t q y < r
  expected y := t.Has y ∧ rankIn s t q y < r
  targets _ := True

def Requests.has (t : Tree) : Requests := ⟨fun _ => True, t.Has, t.Has, fun _ => True⟩

theorem Requests.opens_has (ht : t.Ordered) (hI : ∀ a, I a → t.Extends a.tree)
    (hn : t.Has (some n.node)) : (Requests.has t).Opens I target n := by
  have hpart {a x y f} (ha : I a) (hx : t.Has x) (hf : a.tree.form? x = some f)
      (hy : y ∈ f.parts) : t.Has y :=
    .part ht ((hI a ha).form?_eq hx ▸ hf) hy
  have hoperand {a x} (ha : I a) (hx : t.Has x) (k : Nat) : t.Has (a.tree.operand x k) := by
    rw [Tree.operand, (hI a ha).call?_eq hx]
    exact .operand ht x k
  have hbare {a x k} (ha : I a) (hx : t.Has x) : t.Has (splitAlias a.tree x k).1 := by
    unfold splitAlias
    split
    · exact hx
    · rename_i c hc
      split
      · exact c.operand_of_operands (fun _ => hpart ha hx hc) .absent 0
      · exact hx
      · exact hx
    · exact hx
  have helement {a x y} (ha : I a) (hx : t.Has x) (hy : y ∈ a.tree.elements x) : t.Has y :=
    .elements ht hx ((hI a ha).elements_eq hx ▸ hy)
  refine ⟨trivial, fun _ a ha => ⟨fun k _ => hoperand ha hn k, hoperand ha hn 3, hoperand ha hn 5⟩,
    fun _ a b ha hb x hx => ?_, fun _ a ha c hc y hy => hpart ha hn (Tree.form?_of_call? hc) hy,
    fun _ a b ha hb c hc y hy z hz => ?_, fun _ a ha => hoperand ha hn 0⟩
  · have hx := helement ha (hoperand ha hn 1) hx
    exact ⟨hbare hb hx, .inl (hbare hb hx), .inl hx⟩
  · have hy := hpart ha hn (Tree.form?_of_call? hc) hy
    have hz : t.Has z := by
      unfold cellsOf at hz
      split at hz
      · rename_i hc
        split at hz
        · exact hpart ha hy (Tree.form?_of_call? hc) hz
        · exact List.mem_singleton.mp hz ▸ hy
      · exact List.mem_singleton.mp hz ▸ hy
    change t.Has (bareCell _ _)
    unfold bareCell
    split
    · exact hoperand hb hz 0
    · exact hz

theorem Requests.closed_has (hreg : Registered t a₀) (ht : t.Ordered)
    (hI : ∀ a, I a → SameDeclared a₀ a) : (Requests.has t).Closed s I := by
  have hext {a} (ha : I a) : t.Extends a.tree := hreg.tree ▸ (hI a ha).tree
  have hpart {a x y f} (ha : I a) (hx : t.Has x) (hf : a.tree.form? x = some f)
      (hy : y ∈ f.parts) : t.Has y :=
    .part ht ((hext ha).form?_eq hx ▸ hf) hy
  have hoperand {a x c} (ha : I a) (hx : t.Has x) (hc : a.tree.call? x = some c)
      (k : Nat) : t.Has (c.operand k) :=
    c.operand_of_operands (fun _ => hpart ha hx (Tree.form?_of_call? hc)) .absent k
  have hinner {a x c inner y} (ha : I a) (hx : t.Has x) (hc : a.tree.call? x = some c)
      (hi : a.tree.call? (c.operand 0) = some inner) (hy : y ∈ inner.operands) : t.Has y :=
    hpart ha (hoperand ha hx hc 0) (Tree.form?_of_call? hi) hy
  exact
    { anywhere := fun _ => trivial
      untargeted := trivial
      absent := .absent
      vacant := .absent
      within := id
      parts := fun ha hx hf _ hy => hpart ha hx hf hy
      inner := fun ha hx hc _ hi hy => hinner ha hx hc hi hy
      named := fun ha hn => by
        rw [Store.selectOf, Store.chain_of_scopes (hI _ ha).scopes, ← Store.selectOf,
          (hext ha).windowNamed?_eq ht (hreg.has_selectOf _)] at hn
        exact .of_lt (Tree.lt_size_of_windowNamed? hn)
      passes := fun ha hx hy => by
        cases hy with
        | operand hc _ _ _ hy => exact hpart ha hx (Tree.form?_of_call? hc) hy
        | @branch _ k hc _ hy =>
          have hk := hoperand ha hx hc k
          exact .elements ht hk ((hext ha).elements_eq hk ▸ hy)
        | windowed hc _ hi _ hy => exact hinner ha hx hc hi hy
      hands := fun ha hx hy => by
        cases hy with
        | item hf hy => exact hpart ha hx hf hy
        | operand hc _ => exact hoperand ha hx hc 0 }

variable (hreg : Registered t a₀) (ht : t.Ordered) (hw : t.WindowsEnd s.matcher)
include hreg

theorem Ready.serves (h : Ready s t a₀ steps)
    (hr : 0 < r) (hsteps : u * stepsWithin t + 1 + 2 * r ≤ steps) :
    (engine steps).Serves s (Pending a₀ u) Concluded (.ranked s t a₀ q r) where
  counted := ⟨steps, rfl⟩
  validate ns target _ := h.validate (by omega) ns target
  derive {scope y} hs hy :=
    h.derive hy.1 (by have := hy.2; rw [show a₀.store.selectOf scope = q from hs]; omega)
  infer {scope y target} hs hy := by
    have hy : t.Has y ∧ rankIn s t q y < r := hy.elim id And.right
    exact h.infer hy.1 (by have := hy.2; rw [show a₀.store.selectOf scope = q from hs]; omega)
      target
  untargeted := trivial
  absent := ⟨.absent, hr⟩
  vacant := ⟨.absent, hr⟩
  ungrouped ha hs := by
    change a₀.store.selectOf _ = q
    rw [ha.ungrouped, hreg.selectOf_ungrouped, hs]
  framed := Framed.recorded

include ht hw

theorem checkGrouped_concludes
    (hv : ∀ ns, Keeps s (Pending a₀ u) Concluded (e.validate ns .unknown)) (hx : t.Has x) :
    Keeps s (Pending a₀ u) Concluded (checkGrouped e scope x) := by
  unfold checkGrouped
  refine .bind_get fun a ha => ?_
  split
  · exact Keeps.pure _
  · refine checkGroupedUpTo_keeps
      (R := fun d y => t.Has y ∧ rankIn s t (a₀.store.selectOf scope) y < d) hv ?_ ?_ ?_ ⟨hx, ?_⟩
    · exact fun y hy => absurd hy.2 (Nat.not_lt_zero _)
    · exact fun d i hi => ⟨.absent, Nat.lt_of_lt_of_le (Nat.succ_pos _) (Nat.le_of_lt_succ hi.2)⟩
    · intro b hb d y hy z hz
      obtain ⟨hz, hlt⟩ := hb.reaches hreg ht hw hy.1 z hz
      exact ⟨hz, Nat.lt_of_lt_of_le hlt (Nat.le_of_lt_succ hy.2)⟩
    · have hsize := (ha.extends hreg).size_le
      exact Nat.lt_of_lt_of_le (rankIn_lt hx)
        (Nat.mul_le_mul (Nat.succ_le_succ hsize) (Nat.succ_le_succ hsize))

omit hreg ht hw in
theorem checkGrouped_column_concludes
    (hv : ∀ ns, Keeps s (Pending a₀ u) Concluded (e.validate ns .unknown)) (scope : ScopeId)
    (id : NodeId) (i : Identifier) :
    Keeps s (fun a => Pending a₀ u a ∧ a.tree.form? (some id) = some (.identifier i)) Concluded
      (checkGrouped e scope (some id)) := by
  unfold checkGrouped
  refine .bind_get fun a ha => ?_
  split
  · exact Keeps.pure _
  · obtain ⟨k, hk⟩ : ∃ k, (a.tree.size + 1) * (a.tree.size + 1) = k + 1 :=
      Nat.exists_eq_succ_of_ne_zero (Nat.mul_ne_zero (Nat.succ_ne_zero _) (Nat.succ_ne_zero _))
    dsimp only
    rw [hk, checkGroupedUpTo]
    refine .seq (isGroupExpr_keeps (fun ns => (hv ns).frame)) fun found => ?_
    split
    · exact Keeps.pure _
    · refine .bind_get fun b hb => ?_
      rw [hb.2]
      exact checkGroupedName_keeps (fun ns => (hv ns).frame)

theorem Ready.settles (h : Ready s t a₀ steps) (hsteps : (u + 1) * stepsWithin t ≤ steps) :
    (engine steps).Settles s (Pending a₀ u) Concluded (.has t) := by
  have hwithin : u * stepsWithin t + 2 * ((t.size + 1) * (t.size + 1)) + 3 ≤ steps := by
    rw [Nat.succ_mul] at hsteps
    exact hsteps
  have hrank {q x} (hx : t.Has x) := rankIn_lt (s := s) (q := q) hx
  have hv := h.validate (u := u) (by omega)
  exact
    { counted := ⟨steps, rfl⟩
      validate := fun ns target _ => hv ns target
      derive := fun {scope x} _ hx =>
        h.derive hx (by have := hrank (q := a₀.store.selectOf scope) hx; omega)
      infer := fun {scope x target} _ hx => by
        have hx : t.Has x := hx.elim id And.right
        exact h.infer hx (by have := hrank (q := a₀.store.selectOf scope) hx; omega) target
      ungrouped := fun _ _ => trivial
      framed := Framed.recorded
      toClosed := Requests.closed_has hreg ht fun a ha => ha.same
      check := fun scope _ hx => checkGrouped_concludes hreg ht hw (fun ns => hv ns _) hx
      checkColumn := checkGrouped_column_concludes fun ns => hv ns _
      window := fun scope _ hx => resolveWindow_concludes hreg ht hx
      below := fun {_ i j f} ha hx hf hj =>
        .inr (ht i j ⟨f, (ha.extends hreg).form?_eq hx ▸ hf, hj⟩) }

theorem Ready.validate_succ (h : Ready s t a₀ steps) (hsteps : u * stepsWithin t ≤ steps)
    (id : NamespaceId) (target : SqlType) :
    Keeps s (Pending a₀ u) Concluded (Analysis.validate (engine steps) id target) := by
  refine .of_state fun a ha => ?_
  cases u with
  | zero =>
    refine validate_keeps (J := fun _ => False) (K := fun _ _ => True)
      (fun b n hb hn hst => ?_) nofun nofun
    obtain ⟨v, hv, _⟩ := hb.start hn hst
    cases hv
  | succ v =>
    refine validate_keeps (J := fun b => Pending a₀ v b ∧ InProgress id b) (K := fun _ _ => True)
      (fun b n hb hn hst => ?_) (fun b row hb _ => hb.1.finish id _) fun b hb => hb.1.finish id _
    obtain ⟨v', hv, hb'⟩ := hb.start hn hst
    cases hv
    have hid : b.store.status? id = some n.status := by rw [Store.status?, hn, Option.map_some]
    obtain ⟨n₀, hn₀, hdecl⟩ := hb.same.namespace? hn
    obtain ⟨f, hf⟩ := hreg.nodes id n₀ hn₀
    have hx : t.Has (some n.node) := Namespace.node_of_declared hdecl ▸ .of_form? hf
    have hJ := And.intro hb' (inProgress_withStatus hid none)
    refine ⟨hJ, ?_⟩
    exact rowType_keeps (h.settles hreg ht hw hsteps).frame (Requests.opens_has
      ht (fun _ ha => ha.1.extends hreg) hx) (relates_withStatus hn hJ) (fun _ ha => ha.2)
      (fun _ => .of_listing _ _) (publish_keeps fun _ row hc _ => hc.publish id row)

/-- The engine has as many steps as it takes. -/
theorem engine_ready : Ready s t a₀ steps := by
  induction steps with
  | zero =>
    exact ⟨fun h => absurd h (by omega), fun _ h => absurd h (by omega),
      fun _ h => absurd h (by omega)⟩
  | succ steps ih =>
    refine ⟨fun h ns target => ?_, fun {u scope x} hx h => ?_, fun {u scope x} hx h target => ?_⟩
    · exact ih.validate_succ hreg ht hw (Nat.le_of_succ_le_succ h) ns target
    · cases x with
      | none => exact .bind_get fun a _ => .refuse
      | some i =>
        have hr : 0 < rankIn s t (a₀.store.selectOf scope) (some i) := Nat.succ_pos _
        refine derive_keeps (W := .any) (ih.serves hreg (u := u) hr (by omega))
          rfl trivial (fun hy => ?_) fun a ha => ?_
        · exact resolveWindow_concludes hreg ht hy.1
        · exact ha.reaches hreg ht hw hx
    · cases x with
      | none => exact .bind_get fun a _ => Keeps.pure _
      | some i =>
        have hr : 0 < rankIn s t (a₀.store.selectOf scope) (some i) := Nat.succ_pos _
        refine infer_keeps (W := .any) (ih.serves hreg (u := u) hr (by omega)) rfl trivial
          (fun _ => trivial) (ih.derive hx (by omega)) (fun a ha => ha.reaches hreg ht hw hx)
          (fun a ha y hy => ?_) fun _ a ha y hy => ?_
        · exact ha.reaches hreg ht hw hx y hy.transGen
        · cases y with
          | none => exact ⟨.absent, hr⟩
          | some j => exact ha.reaches hreg ht hw hx _ hy.transGen

end Engine

section Statements

variable {s : Setting} {t : Tree}

theorem pending_le_size (s : Store) : s.pending ≤ s.namespaces.size := by
  have hlen : s.statuses.length = s.namespaces.size := by
    rw [Store.statuses, List.length_map, Array.length_toList]
  exact hlen ▸ List.countP_le_length

theorem Registered.settles (hreg : Registered t a) (ht : t.Ordered) (hw : t.WindowsEnd s.matcher) :
    (engine (stepsFor a)).Settles s (Pending a a.store.pending) Concluded (.has t) := by
  refine (engine_ready hreg ht hw).settles hreg ht hw ?_
  rw [stepsFor, hreg.tree]
  exact Nat.mul_le_mul_right _ (Nat.succ_le_succ (pending_le_size a.store))

theorem analyse_concludes (ht : t.Ordered) (hw : t.WindowsEnd s.matcher)
    {root : Link} (hroot : t.Has root) (ha : Registered t a) :
    Ends Concluded (fun _ => True) (analyse root s a).1 := by
  obtain ⟨b, hb, _, ⟨h, hend, hrun⟩ | ⟨_, hrun⟩⟩ :=
    analyse_cases (s := s) (H := Concluded) (.inr ht) ha root
  · rw [hrun]
    exact hend
  · exact (hrun (hb.settles ht hw) (fun x _ => validateSource_keeps (hb.settles ht hw) trivial)
      hroot ⟨.refl b, Nat.le_refl _⟩).2

end Statements

end SqlAnalysis.Analysis

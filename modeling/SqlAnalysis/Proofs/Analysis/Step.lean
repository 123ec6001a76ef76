import SqlAnalysis.Proofs.Analysis.Advance
import SqlAnalysis.Tree.Equality

/-!
Reasoning about the steps of an analysis. `Runs s I H x Q` says of a step `x` under the settings `s`
that the analysis advances by it and keeps the property `I`, whether it succeeds or not, that what
it gives satisfies `Q`, and that it stops only for reasons in `H`.
-/

namespace SqlAnalysis.Analysis

theorem run_bind (x : AnalysisM α) (f : α → AnalysisM β) (s : Setting) (a : Analysis) :
    (x >>= f) s a = match x s a with
      | (.ok v, b) => f v s b
      | (.error h, b) => (.error h, b) := by
  simp only [bind, ReaderT.bind, ExceptT.bind, ExceptT.mk, StateT.bind]
  rcases x s a with ⟨_ | _, b⟩ <;> rfl

theorem run_bind_ok {f : α → AnalysisM β} (h : (x >>= f) s a = (.ok v, c)) :
    ∃ u b, x s a = (.ok u, b) ∧ f u s b = (.ok v, c) := by
  rw [run_bind] at h
  rcases hx : x s a with ⟨_ | u, b⟩ <;> rw [hx] at h
  · cases h
  · exact ⟨u, b, rfl, h⟩

theorem exists_of_isOk {x : AnalysisM α} (h : (x s a).1.isOk) : ∃ v b, x s a = (.ok v, b) := by
  rcases hx : x s a with ⟨_ | v, b⟩
  · rw [hx] at h
    cases h
  · exact ⟨v, b, rfl⟩

theorem run_unless_ok {p : Prop} [Decidable p] {f : Fault}
    (h : (if p then throw (.faulted f) >>= k else x : AnalysisM α) s a = (.ok v, b)) :
    ¬ p ∧ x s a = (.ok v, b) := by
  split at h
  · cases h
  · exact ⟨‹_›, h⟩

theorem run_bind_get (f : Analysis → AnalysisM β) (s : Setting) (a : Analysis) :
    (MonadState.get >>= f) s a = f a s a := rfl

theorem run_bind_read (f : Setting → AnalysisM β) (s : Setting) (a : Analysis) :
    (MonadReader.read >>= f) s a = f s s a := rfl

variable {id : Link}

theorem refuse_ne_ok {a : Analysis} {v : α} (b : Analysis) :
    refuse id c names signatures s a ≠ (.ok v, b) := by
  intro h
  cases h

theorem run_tryCatch :
    (tryCatch x f : AnalysisM α) s a = match x s a with
      | (.ok v, b) => (.ok v, b)
      | (.error h, b) => f h s b := by
  simp only [tryCatch, tryCatchThe, MonadExceptOf.tryCatch, ExceptT.tryCatch, ExceptT.mk, bind,
    StateT.bind]
  rcases x s a with ⟨_ | _, b⟩ <;> rfl

theorem attempt_ok (h : attempt x s a = (.ok r, b)) :
    (∃ v, x s a = (.ok v, b) ∧ r = some v) ∨
      r = none ∧ ∃ halt, x s a = (.error halt, b) ∧ halt ≠ .exhausted := by
  rw [attempt] at h
  rcases hx : x s a with ⟨(d | e | f | _) | v, c⟩ <;> rw [hx] at h
  · cases h
    exact .inr ⟨rfl, _, rfl, nofun⟩
  · cases h
    exact .inr ⟨rfl, _, rfl, nofun⟩
  · cases h
  · cases h
  · cases h
    exact .inl ⟨v, rfl, rfl⟩

/-- The result of a step is a value in `Q` or a reason in `H`. -/
def Ends (H : Halt → Prop) (Q : α → Prop) : Except Halt α → Prop
  | .ok v => Q v
  | .error h => H h

/-- Also says what the analysis is like that a successful step leaves. -/
def Gives (s : Setting) (I : Analysis → Prop) (H : Halt → Prop) (x : AnalysisM α)
    (J : α → Analysis → Prop) : Prop :=
  ∀ a, I a → (I (x s a).2 ∧ Advances a (x s a).2) ∧ Ends H (fun v => J v (x s a).2) (x s a).1

def Runs (s : Setting) (I : Analysis → Prop) (H : Halt → Prop) (x : AnalysisM α)
    (Q : α → Prop) : Prop :=
  Gives s I H x fun v _ => Q v

/-- A step that keeps `I`, whatever it gives. -/
abbrev Keeps (s : Setting) (I : Analysis → Prop) (H : Halt → Prop) (x : AnalysisM α) : Prop :=
  Runs s I H x fun _ => True

/-- Reasons among which are all that a rule gives by itself in a state in `I`: it refuses something
where a node stands. -/
class Refusing (I : Analysis → Prop) (H : Halt → Prop) : Prop where
  refused : ∀ {a d}, I a → AtNode d.span a → H (.refused d)
  catalog : ∀ e, H (.catalog e)
  faulted : ∀ f, H (.faulted f)

instance : Refusing I fun _ => True := ⟨fun _ _ => trivial, fun _ => trivial, fun _ => trivial⟩

instance {P : Analysis → Prop} [h : Refusing I H] : Refusing (fun a => I a ∧ P a) H :=
  ⟨fun ha => h.refused ha.1, h.catalog, h.faulted⟩

theorem Ends.imp {H' : Halt → Prop} {Q Q' : α → Prop} (hr : Ends H Q r)
    (hH : ∀ h, H h → H' h) (hQ : ∀ v, Q v → Q' v) : Ends H' Q' r := by
  cases r with
  | error h => exact hH h hr
  | ok v => exact hQ v hr

variable {l : List α} {P : Analysis → Prop}

namespace Gives

theorem pure (h : ∀ a, I a → J v a) : Gives s I H (pure v) J := fun a ha => ⟨⟨ha, .refl a⟩, h a ha⟩

theorem weaken {J' : α → Analysis → Prop} (hx : Gives s I H x J) (h : ∀ v a, I a → J v a → J' v a) :
    Gives s I H x J' := by
  intro a ha
  obtain ⟨hb, hr⟩ := hx a ha
  exact ⟨hb, hr.imp (fun _ => id) fun v => h v _ hb.1⟩

theorem bind (hx : Gives s I H x J) (hf : ∀ v, Gives s (fun b => I b ∧ J v b) H (f v) K) :
    Gives s I H (x >>= f) K := by
  intro a ha
  obtain ⟨⟨hb, hadv⟩, hv⟩ := hx a ha
  rw [run_bind]
  rcases h : x s a with ⟨_ | v, b⟩ <;> rw [h] at hb hadv hv
  · exact ⟨⟨hb, hadv⟩, hv⟩
  · obtain ⟨⟨hc, hadv'⟩, hr⟩ := hf v b ⟨hb, hv⟩
    exact ⟨⟨hc.1, hadv.trans hadv'⟩, hr⟩

/-- What a step gives is found out from its runs that succeed. -/
theorem of_ok (hx : Keeps s I H x) (h : ∀ a b v, I a → x s a = (.ok v, b) → I b → J v b) :
    Gives s I H x J := by
  intro a ha
  obtain ⟨hkeep, hend⟩ := hx a ha
  refine ⟨hkeep, ?_⟩
  rcases hr : x s a with ⟨halt | v, b⟩ <;> rw [hr] at hkeep hend
  · exact hend
  · exact h a b v ha hr hkeep.1

theorem seq (hx : Keeps s I H x) (hf : ∀ v, Gives s I H (f v) K) : Gives s I H (x >>= f) K := by
  refine bind (J := fun _ _ => True) hx fun v a ha => ?_
  obtain ⟨⟨hI, hadv⟩, hr⟩ := hf v a ha.1
  exact ⟨⟨⟨hI, trivial⟩, hadv⟩, hr⟩

theorem frame [Stable P] (hx : Gives s I H x J) :
    Gives s (fun a => I a ∧ P a) H x fun v a => J v a ∧ P a := by
  intro a ha
  obtain ⟨⟨hI, hadv⟩, hr⟩ := hx a ha.1
  have hP := Stable.advances ha.2 hadv
  exact ⟨⟨⟨hI, hP⟩, hadv⟩, hr.imp (fun _ => id) fun _ h => ⟨h, hP⟩⟩

theorem bind_get {f : Analysis → AnalysisM β} (hf : ∀ a, I a → Gives s I H (f a) K) :
    Gives s I H (MonadState.get >>= f) K :=
  fun a ha => hf a ha a ha

theorem refuse [Refusing I H] : Gives s I H (refuse id c names signatures : AnalysisM α) J :=
  fun a ha => ⟨⟨ha, .refl a⟩, Refusing.refused ha ⟨id, rfl⟩⟩

theorem mapM [∀ v, Stable (K v)] (h : ∀ x ∈ l, Gives s I H (f x) K) :
    Gives s I H (l.mapM f) fun vs a => ∀ v ∈ vs, K v a := by
  induction l with
  | nil => exact pure fun _ _ => nofun
  | cons x l ih =>
    rw [List.mapM_cons]
    refine bind (h x List.mem_cons_self) fun v => ?_
    refine bind (ih fun y hy => h y (List.mem_cons_of_mem x hy)).frame fun vs => pure fun a ha => ?_
    exact List.forall_mem_cons.mpr ⟨ha.2.2, ha.2.1⟩

theorem forM {f : α → AnalysisM Unit} {K : α → Analysis → Prop}
    [∀ x, Stable (K x)] (h : ∀ x ∈ l, Gives s I H (f x) fun _ => K x) :
    Gives s I H (l.forM f) fun _ a => ∀ x ∈ l, K x a := by
  induction l with
  | nil => exact pure fun _ _ => nofun
  | cons x l ih =>
    refine bind (h x List.mem_cons_self) fun _ => ?_
    refine (ih fun y hy => h y (List.mem_cons_of_mem x hy)).frame.weaken fun _ a _ ha => ?_
    exact List.forall_mem_cons.mpr ⟨ha.2, ha.1⟩

end Gives

/-- What a step does in one state, for steps whose state is known. -/
abbrev GivesFrom (s : Setting) (I : Analysis → Prop) (H : Halt → Prop) (x : AnalysisM α)
    (J : α → Analysis → Prop) (a : Analysis) : Prop :=
  (I (x s a).2 ∧ Advances a (x s a).2) ∧ Ends H (fun v => J v (x s a).2) (x s a).1

namespace GivesFrom

theorem of_ok (h : x s a = (.ok v, b)) (hb : I b) (hadv : Advances a b) (hv : J v b) :
    GivesFrom s I H x J a := by
  rw [GivesFrom, h]
  exact ⟨⟨hb, hadv⟩, hv⟩

theorem pure (ha : I a) (h : J v a) : GivesFrom s I H (pure v) J a := ⟨⟨ha, .refl a⟩, h⟩

theorem refuse [Refusing I H] (ha : I a) :
    GivesFrom s I H (refuse id c names signatures : AnalysisM α) J a :=
  ⟨⟨ha, .refl a⟩, Refusing.refused ha ⟨id, rfl⟩⟩

theorem bind_get {f : Analysis → AnalysisM β} (h : GivesFrom s I H (f a) K a) :
    GivesFrom s I H (MonadState.get >>= f) K a := h

theorem bind_read {f : Setting → AnalysisM β} (h : GivesFrom s I H (f s) K a) :
    GivesFrom s I H (read >>= f) K a := h

theorem bind_gives (hx : GivesFrom s I H x J a)
    (hf : ∀ v b, x s a = (.ok v, b) → I b → Advances a b → J v b → GivesFrom s I H (f v) K b) :
    GivesFrom s I H (x >>= f) K a := by
  obtain ⟨⟨hb, hadv⟩, hr⟩ := hx
  rw [GivesFrom, run_bind]
  rcases h : x s a with ⟨halt | v, b⟩ <;> rw [h] at hb hadv hr
  · exact ⟨⟨hb, hadv⟩, hr⟩
  · obtain ⟨⟨hc, hadv'⟩, hr'⟩ := hf v b h hb hadv hr
    exact ⟨⟨hc, hadv.trans hadv'⟩, hr'⟩

theorem bind (hx : Keeps s I H x) (ha : I a)
    (hf : ∀ v b, x s a = (.ok v, b) → I b → Advances a b → GivesFrom s I H (f v) K b) :
    GivesFrom s I H (x >>= f) K a :=
  bind_gives (J := fun _ _ => True) (hx a ha) fun v b h hb hadv _ => hf v b h hb hadv

theorem seq (hx : GivesFrom s I H x J a) (hf : ∀ v, Gives s I H (f v) K) :
    GivesFrom s I H (x >>= f) K a :=
  bind_gives hx fun v b _ hb _ _ => hf v b hb

end GivesFrom

theorem Gives.of_from {J : α → Analysis → Prop} (h : ∀ a, I a → GivesFrom s I H x J a) :
    Gives s I H x J := h

variable {g : Analysis → α × Analysis}

namespace Runs

theorem pure (h : Q v) : Runs s I H (pure v) Q := fun a ha => ⟨⟨ha, .refl a⟩, h⟩

theorem get : Runs s I H get I := fun a h => ⟨⟨h, .refl a⟩, h⟩

theorem throw (hh : H h) : Runs s I H (throw h : AnalysisM α) Q :=
  fun a ha => ⟨⟨ha, .refl a⟩, hh⟩

theorem refuse [Refusing I H] : Runs s I H (refuse id c names signatures : AnalysisM α) Q :=
  Gives.refuse

theorem refuse_bind [Refusing I H] : Runs s I H (Analysis.refuse id c names signatures >>= f) R :=
  fun a ha => ⟨⟨ha, .refl a⟩, Refusing.refused ha ⟨id, rfl⟩⟩

theorem fault [Refusing I H] : Runs s I H (MonadExcept.throw (.faulted d) : AnalysisM α) Q :=
  throw (Refusing.faulted I d)

theorem fault_bind [Refusing I H] :
    Runs s I H ((MonadExcept.throw (.faulted d) : AnalysisM α) >>= f) R :=
  fun a ha => ⟨⟨ha, .refl a⟩, Refusing.faulted I d⟩

theorem weaken (hx : Runs s I H x Q) (h : ∀ v, Q v → Q' v) : Runs s I H x Q' :=
  fun a ha => ⟨(hx a ha).1, (hx a ha).2.imp (fun _ => id) h⟩

theorem keeps (hx : Runs s I H x Q) : Keeps s I H x := hx.weaken fun _ _ => trivial

theorem of_run (h : x s a = y s a) (hy : Runs s (fun b => b = a) H y Q) :
    Runs s (fun b => b = a) H x Q := by
  rintro b rfl
  rw [h]
  exact hy b rfl

/-- What holds from some time on is not affected by a step. -/
theorem frame [Stable P] (hx : Runs s I H x Q) : Runs s (fun a => I a ∧ P a) H x Q := by
  intro a ha
  obtain ⟨⟨hI, hadv⟩, hr⟩ := hx a ha.1
  exact ⟨⟨⟨hI, Stable.advances ha.2 hadv⟩, hadv⟩, hr⟩

theorem of_from (h : ∀ a, I a → GivesFrom s I H x (fun v _ => Q v) a) : Runs s I H x Q := h

theorem of_state (h : ∀ a, I a → Runs s I H x Q) : Runs s I H x Q := fun a ha => h a ha a ha

/-- A step that changes nothing may be looked at in one state at a time. -/
theorem of_eq (h : ∀ a, I a → Runs s (fun b => b = a) H x Q) : Runs s I H x Q := by
  intro a ha
  obtain ⟨⟨hb, hadv⟩, hr⟩ := h a ha a rfl
  exact ⟨⟨by rwa [hb], hadv⟩, hr⟩

theorem giving (hx : Keeps s I H x) (hq : Runs s I (fun _ => True) x Q) : Runs s I H x Q := by
  intro a ha
  obtain ⟨h, hr⟩ := hx a ha
  refine ⟨h, ?_⟩
  have hr' := (hq a ha).2
  cases hv : (x s a).1 with
  | error _ => rwa [hv] at hr
  | ok _ => rwa [hv] at hr'

theorem congr {I' : Analysis → Prop} (h : ∀ a, I a ↔ I' a) (hx : Runs s I H x Q) :
    Runs s I' H x Q := by
  obtain rfl : I = I' := funext fun a => propext (h a)
  exact hx

theorem bind_gives {J : α → Analysis → Prop} (hx : Gives s I H x J)
    (hf : ∀ v, Runs s (fun b => I b ∧ J v b) H (f v) R) : Runs s I H (x >>= f) R :=
  hx.bind hf

theorem bind (hx : Runs s I H x Q) (hf : ∀ v, Q v → Runs s I H (f v) R) :
    Runs s I H (x >>= f) R := by
  refine bind_gives (J := fun v _ => Q v) hx fun v a ha => ?_
  obtain ⟨⟨hI, hadv⟩, hr⟩ := hf v ha.2 a ha.1
  exact ⟨⟨⟨hI, ha.2⟩, hadv⟩, hr⟩

theorem seq (hx : Keeps s I H x) (hf : ∀ v, Runs s I H (f v) R) : Runs s I H (x >>= f) R :=
  hx.bind fun v _ => hf v

theorem bind_get {f : Analysis → AnalysisM β} (hf : ∀ a, I a → Runs s I H (f a) R) :
    Runs s I H (MonadState.get >>= f) R :=
  get.bind hf

theorem bind_get_after {f : Analysis → AnalysisM β}
    (hf : ∀ a, I a → Runs s (fun b => I b ∧ Advances a b) H (f a) R) :
    Runs s I H (MonadState.get >>= f) R := by
  intro a ha
  obtain ⟨⟨hI, hadv⟩, hr⟩ := hf a ha a ⟨ha, .refl a⟩
  exact ⟨⟨hI.1, hadv⟩, hr⟩

theorem bind_read {f : Setting → AnalysisM β} (hf : Runs s I H (f s) R) :
    Runs s I H (read >>= f) R :=
  fun a ha => hf a ha

theorem modify {g : Analysis → Analysis} (h : ∀ a, I a → I (g a) ∧ Advances a (g a)) :
    Keeps s I H (modify g) :=
  fun a ha => ⟨h a ha, trivial⟩

theorem modifyGet (h : ∀ a, I a → I (g a).2 ∧ Advances a (g a).2) : Keeps s I H (modifyGet g) :=
  fun a ha => ⟨h a ha, trivial⟩

theorem attempt (hx : Keeps s I H x) : Keeps s I H (attempt x) := by
  intro a ha
  have h := hx a ha
  simp only [Analysis.attempt]
  rcases hr : x s a with ⟨(_ | _ | _ | _) | v, b⟩ <;> rw [hr] at h
  · exact ⟨h.1, trivial⟩
  · exact ⟨h.1, trivial⟩
  · exact h
  · exact h
  · exact ⟨h.1, trivial⟩

end Runs

namespace Keeps

theorem ok (hx : Keeps s I H x) (ha : I a) (h : x s a = (.ok v, b)) : I b ∧ Advances a b := by
  have hkeep := (hx a ha).1
  rwa [h] at hkeep

theorem from_frame (hx : Keeps s (fun a => I a ∧ P a) H x) (ha : I a) (hp : P a) :
    GivesFrom s I H x (fun _ _ => True) a :=
  have hend := hx a ⟨ha, hp⟩
  ⟨⟨hend.1.1.1, hend.1.2⟩, hend.2⟩

theorem pure (v : α) : Keeps s I H (pure v) := Runs.pure trivial

theorem forM {f : α → AnalysisM Unit} (h : ∀ x ∈ l, Keeps s I H (f x)) :
    Keeps s I H (l.forM f) := by
  induction l with
  | nil => exact pure _
  | cons x l ih =>
    exact .seq (h x List.mem_cons_self) fun _ => ih fun y hy => h y (List.mem_cons_of_mem x hy)

theorem mapM {f : α → AnalysisM β} (h : ∀ x ∈ l, Keeps s I H (f x)) : Keeps s I H (l.mapM f) := by
  induction l with
  | nil => exact pure _
  | cons x l ih =>
    rw [List.mapM_cons]
    exact .seq (h x List.mem_cons_self) fun _ =>
      .seq (ih fun y hy => h y (List.mem_cons_of_mem x hy)) fun _ => pure _

theorem filterM {f : α → AnalysisM Bool} (h : ∀ x ∈ l, Keeps s I H (f x)) :
    Keeps s I H (l.filterM f) := by
  have haux (acc : List α) : Keeps s I H (l.filterAuxM f acc) := by
    induction l generalizing acc with
    | nil => exact pure _
    | cons x l ih =>
      exact .seq (h x List.mem_cons_self) fun _ =>
        ih (fun y hy => h y (List.mem_cons_of_mem x hy)) _
  exact .seq (haux []) fun _ => pure _

end Keeps

attribute [grind .] Runs.refuse Runs.refuse_bind Runs.fault Runs.fault_bind Keeps.pure
attribute [grind ←] Runs.seq Runs.bind_get Runs.bind_read Runs.attempt Keeps.forM Keeps.mapM

theorem equalUpTo_keeps {t : Tree} {same : List String → List String → AnalysisM Bool}
    (h : ∀ x y, Keeps s I H (same x y)) (depth : Nat) (a b : Link) :
    Keeps s I H (t.equalUpTo same depth a b) := by
  induction depth generalizing a b with
  | zero => exact Keeps.pure _
  | succ depth ih =>
    have hparts (xs ys) : Keeps s I H (Tree.sameParts (t.equalUpTo same depth) xs ys) := by
      induction xs generalizing ys with
      | nil => cases ys <;> exact Keeps.pure _
      | cons x xs ihs =>
        cases ys with
        | nil => exact Keeps.pure _
        | cons y ys =>
          refine .seq (ih x y) fun v => ?_
          split
          · exact ihs ys
          · exact Keeps.pure _
    rw [Tree.equalUpTo]
    grind

section Primitives

variable [Hushed I]

theorem building_keeps {x : TypeM α} (hx : x.Steady) : Keeps s I H (building x) :=
  Runs.modifyGet fun a ha =>
    ⟨Hushed.silent ha (.build (hx a.types).1), (Silent.build (hx a.types).1).advances⟩

theorem growing_keeps {x : TreeM α} (hx : ∀ a, I a → a.tree.Grows (x a.tree).2) :
    Keeps s I H (growing x) :=
  Runs.modifyGet fun a ha => ⟨Hushed.silent ha (.grow (hx a ha)), (Silent.grow (hx a ha)).advances⟩

theorem modify_keeps {g : Analysis → Analysis} (h : ∀ a, Silent a (g a)) : Keeps s I H (modify g) :=
  Runs.modify fun a ha => ⟨Hushed.silent ha (h a), (h a).advances⟩

theorem modifyGet_keeps (h : ∀ a, Silent a (g a).2) : Keeps s I H (modifyGet g) :=
  Runs.modifyGet fun a ha => ⟨Hushed.silent ha (h a), (h a).advances⟩

theorem modifyNamespace_keeps {id : NamespaceId} {f : Namespace → Namespace}
    (hprogress : ∀ a, I a → InProgress id a) (hd : ∀ n, (f n).declared = n.declared)
    (hs : ∀ n, (f n).status = n.status) : Keeps s I H (modifyNamespace id f) :=
  Runs.modify fun a ha =>
    have hsilent := Silent.modifyNamespace (hprogress a ha) hd hs
    ⟨Hushed.silent ha hsilent, hsilent.advances⟩

omit [Hushed I] in
theorem namespaceOfId_keeps (id : NamespaceId) : Keeps s I H (namespaceOfId id) := by
  unfold namespaceOfId
  grind

omit [Hushed I] in
theorem similar_keeps (name : String) (candidates : List String) :
    Keeps s I H (similar name candidates) := by
  unfold similar
  grind

omit [Hushed I] in
theorem field?_keeps (row : SqlType) (name : String) : Keeps s I H (field? row name) := by
  unfold field?
  grind

theorem boolean_keeps : Keeps s I H boolean :=
  building_keeps (TypeTable.scalar_steady.bind fun t => TypeTable.withNullable_steady true t)

end Primitives

attribute [grind .] building_keeps namespaceOfId_keeps similar_keeps field?_keeps boolean_keeps

end SqlAnalysis.Analysis

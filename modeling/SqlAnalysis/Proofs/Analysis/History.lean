import SqlAnalysis.Proofs.Analysis.Statement

/-!
How relations became valid. Once the statement is registered, a relation is valid only after its row
type has been found out by a run of the engine that succeeded. `Attests` keeps the two ends of that
run, so that what it says about its relation can be used at the end of the analysis.
-/

namespace SqlAnalysis.Analysis

variable {id : NamespaceId}

/-- What is registered is the same, types have been added at most, and what was valid is as it
was. -/
structure Later (a b : Analysis) : Prop extends SameDeclared a b where
  types : a.types.Extends b.types
  kept : ∀ {id n}, a.store.namespace? id = some n → n.isValid → b.store.namespace? id = some n

namespace Later

theorem refl (a : Analysis) : Later a a := ⟨.refl a, .refl _, fun h _ => h⟩

theorem trans (h : Later a b) (h' : Later b c) : Later a c :=
  ⟨h.toSameDeclared.trans h'.toSameDeclared, h.types.trans h'.types,
    fun hn hvalid => h'.kept (h.kept hn hvalid) hvalid⟩

theorem of_notes (h : Notes a b) : Later a b := ⟨h.toSameDeclared, h.types, h.kept⟩

theorem valid (h : Later a b) (id : NamespaceId) (row : SqlType)
    (hid : a.store.status? id = some (.valid row)) : b.store.status? id = some (.valid row) := by
  obtain ⟨n, hn, hst⟩ := Option.map_eq_some_iff.mp hid
  rw [Store.status?, h.kept hn (by rw [Namespace.isValid, hst]; rfl), Option.map_some, hst]

theorem withStatus (h : ∀ row, a.store.status? id ≠ some (.valid row)) (st : Status) :
    Later a (a.withStatus id st) := by
  refine ⟨sameDeclared_withStatus, .refl _, fun {id' n} hn hvalid => ?_⟩
  rw [namespace?_withStatus_of_ne, hn]
  rintro rfl
  obtain ⟨row, hrow⟩ := Status.isValid_iff.mp hvalid
  exact h row (by rw [Store.status?, hn, Option.map_some, hrow])

end Later

/-- The row type of the relation was found out on the way to `a` by a run between states with the
property `P`, of which the second and `a` are related by `Q`. -/
def Attests (s : Setting) (P : Analysis → Prop) (Q : Namespace → Analysis → Analysis → Prop)
    (a₀ : Analysis) (id : NamespaceId) (row : SqlType) (a : Analysis) : Prop :=
  ∃ n steps target b c, a₀.store.declared? id = some n ∧ SameDeclared a₀ b ∧ InProgress id b ∧
    rowType (engine steps) id n target s b = (.ok row, c) ∧ Later c a ∧ P b ∧ P c ∧ Q n c a

theorem Attests.later (h : Attests s P Q a₀ id row a) (hab : Later a b)
    (hQ : ∀ n c, a₀.store.declared? id = some n → Q n c a → Q n c b) :
    Attests s P Q a₀ id row b := by
  obtain ⟨n, steps, target, c, d, hn, hc, hprogress, hrun, hd, hP, hP', hlast⟩ := h
  exact ⟨n, steps, target, c, d, hn, hc, hprogress, hrun, hd.trans hab, hP, hP', hQ n d hn hlast⟩

/-- What is registered is as in `a₀`, and relations are valid by runs that started there. -/
structure Attested (s : Setting) (P : Analysis → Prop) (Q : Namespace → Analysis → Analysis → Prop)
    (a₀ a : Analysis) : Prop where
  same : SameDeclared a₀ a
  holds : P a
  runs : ∀ id row, a.store.status? id = some (.valid row) → Attests s P Q a₀ id row a

namespace Attested

theorem later (h : Attested s P Q a₀ a) (hab : Later a b) (hP : P b)
    (hback : ∀ id row, b.store.status? id = some (.valid row) → a.store.status? id = some
    (.valid row) ∨ Attests s P Q a₀ id row b) (hQ : ∀ id n row c, a.store.status? id = some
    (.valid row) → a₀.store.declared? id = some n → Q n c a → Q n c b) : Attested s P Q a₀ b where
  same := h.same.trans hab.toSameDeclared
  holds := hP
  runs id row hid := (hback id row hid).elim (fun hid => (h.runs id row hid).later hab fun n c =>
    hQ id n row c hid) fun h => h

theorem of_notes (h : Attested s P Q a₀ a) (hab : Notes a b) (hP : P b)
    (hQ : ∀ n c, Q n c a → Q n c b) : Attested s P Q a₀ b :=
  h.later (.of_notes hab) hP (fun id _ hid => .inl ((hab.status id).symm.trans hid))
    fun _ n _ c _ _ => hQ n c

theorem withStatus (h : Attested s P Q a₀ a) (hid : ∀ row, a.store.status? id ≠ some (.valid row))
    (hP : P (a.withStatus id st)) (hQ : ∀ n c, Q n c a → Q n c (a.withStatus id st))
    (hst : ∀ row, st = .valid row → Attests s P Q a₀ id row a) :
    Attested s P Q a₀ (a.withStatus id st) := by
  have hlater := Later.withStatus hid st
  refine h.later hlater hP (fun id' row hid' => ?_) fun _ n _ c _ _ => hQ n c
  rw [status?_withStatus] at hid'
  split at hid'
  · rename_i heq
    subst heq
    obtain ⟨_, _, rfl⟩ := Option.map_eq_some_iff.mp hid'
    exact .inr ((hst row rfl).later hlater fun n c _ => hQ n c)
  · exact .inl hid'

end Attested

/-- A run that succeeds is a reason for the status it leads to, if the two properties have nothing
to do with how far relations are. -/
theorem engine_attested_of [Hushed (Attested s P Q a₀)] [Heeding s .any (Attested s P Q a₀)]
    [Entering s (Attested s P Q a₀)] (hP : ∀ a id st, P a → P (a.withStatus id st))
    (hQ : ∀ n c a id st, Q n c a → Q n c (a.withStatus id st)) (hrefl : ∀ n c, Q n c c)
    (hlists : ∀ id n target, a₀.store.declared? id = some n → n.kind = .select →
    Lists s (fun a => Attested s P Q a₀ a ∧ InProgress id a) target n.node) :
    (engine steps).Settles s (Attested s P Q a₀) (fun _ => True) .any := by
  refine engine_settles_of trivial Requests.closed_any (fun steps he id target _ => ?_) steps
  have hstatus {b : Analysis} (st : Status) (hb : Attested s P Q a₀ b)
    (hid : ∀ row, b.store.status? id ≠ some (.valid row))
      (hst : ∀ row, st = .valid row → Attests s P Q a₀ id row b) : Attested
      s P Q a₀ (b.withStatus id st) :=
    hb.withStatus hid (hP _ _ _ hb.holds) (fun n c => hQ n c _ _ _) hst
  refine validate_keeps (J := fun a => Attested s P Q a₀ a ∧ InProgress id a)
    (K := Attests s P Q a₀ id) (fun a n ha hn hst => ?_) (fun b row hb hrow => ?_) fun b hb => ?_
  · have hid : a.store.status? id = some n.status := by rw [Store.status?, hn, Option.map_some]
    have hdecl : a₀.store.declared? id = some n.declared := by
      rw [← ha.same.declared id, Store.declared?, hn, Option.map_some]
    have hJ := And.intro (hstatus (.inProgress none) ha (fun row => by rw [hid, hst]; rintro ⟨⟩)
      (by rintro _ ⟨⟩)) (inProgress_withStatus hid none)
    refine ⟨hJ, .of_ok ?_ fun b c _ hb hres hc =>
      ⟨n.declared, steps, target, b, c, hdecl, hb.1.same, hb.2, hres, .refl c,
        hb.1.holds, hc.1.holds, hrefl _ c⟩⟩
    exact rowType_keeps he.frame (Requests.opens_any _ _) (relates_withStatus hn hJ)
      (fun _ ha => ha.2) (hlists id n.declared target hdecl)
      (publish_keeps fun b row hb hprogress => hstatus _ hb hprogress.ne_valid (by rintro _ ⟨⟩))
  · exact hstatus _ hb.1 hb.2.ne_valid fun row' h => by cases h; exact hrow
  · exact hstatus _ hb.1 hb.2.ne_valid (by rintro _ ⟨⟩)

theorem Registered.attested (h : Registered t a) (hP : P a) : Attested s P Q a a := by
  refine ⟨.refl a, hP, fun id row hid => ?_⟩
  obtain ⟨n, hn, hst⟩ := Option.map_eq_some_iff.mp hid
  rw [h.fresh id n hn] at hst
  cases hst

/-- Relations are valid by runs that started in `a₀`. -/
abbrev Founded (s : Setting) (a₀ a : Analysis) : Prop :=
  Attested s (fun _ => True) (fun _ _ _ => True) a₀ a

instance : Recording (Founded s a₀) where
  notes h hn := h.of_notes hn trivial fun _ _ _ => trivial

theorem engine_founded (s : Setting) (a₀ : Analysis) (steps : Nat) :
    (engine steps).Settles s (Founded s a₀) (fun _ => True) .any :=
  engine_attested_of (fun _ _ _ _ => trivial) (fun _ _ _ _ _ _ => trivial)
    (fun _ _ => trivial) (fun _ _ _ _ _ => .of_listing _ _)

theorem analyse_founded (ha : Registered t a) (root : Link) :
    ∃ a₀, Registered t a₀ ∧ Founded s a₀ (analyse root s a).2 := by
  obtain ⟨b, hb, _, ⟨_, _, h⟩ | ⟨_, h⟩⟩ :=
    analyse_cases (s := s) (H := fun _ => True) (.inl trivial) ha root
  · rw [h]
    exact ⟨b, hb, hb.attested trivial⟩
  · exact ⟨b, hb,
      (h (engine_founded s b _) (engine_founded s b _).source trivial (hb.attested trivial)).1.1⟩

instance : Recording (SameDeclared a₀) := ⟨fun h hn => h.trans hn.toSameDeclared⟩

theorem engine_sameDeclared (s : Setting) (a₀ : Analysis) (steps : Nat) :
    (engine steps).Settles s (SameDeclared a₀) (fun _ => True) .any :=
  engine_settles_any trivial (fun _ _ _ hb => hb.trans sameDeclared_withStatus) steps

end SqlAnalysis.Analysis

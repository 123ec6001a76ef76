import SqlAnalysis.Catalog.Reader
import SqlAnalysis.Proofs.Text.Joined

/-!
Catalogs behind a cache. A catalog behind a cache gives the answers that the catalog itself gives,
for any sequence of requests, and is asked itself only for names that are not remembered. All that
this takes of a cache is that it gives for a key only what was added under it.
-/

namespace SqlAnalysis

namespace Recent

variable {r : Recent α}

def All (P : String → α → Prop) (r : Recent α) : Prop := ∀ e ∈ r.entries, P e.1 e.2

namespace All

theorem get? (h : r.All P) (hv : r.get? key = some value) : P key value := by
  obtain ⟨before, after, heq, _⟩ := List.lookup_eq_some_iff.mp hv
  exact h (key, value) (by rw [heq]; simp)

theorem erase (h : r.All P) (key : String) : (r.erase key).All P :=
  fun e he => h e (List.mem_filter.mp he).1

theorem use (h : r.All P) (hv : P key value) : (r.use key value).All P := by
  intro e he
  obtain rfl | he := List.mem_cons.mp (List.mem_of_mem_take he)
  · exact hv
  · exact h.erase key e he

theorem dropOldest (h : r.All P) : r.dropOldest.All P :=
  fun e he => h e ((List.dropLast_sublist _).subset he)

theorem clear (r : Recent α) : r.clear.All P := nofun

end All

theorem get?_eq_none (h : r.All fun k _ => k ≠ key) : r.get? key = none := by
  cases hv : r.get? key with
  | none => rfl
  | some value => exact absurd rfl (h.get? hv)

theorem all_ne_of_contains (h : r.contains key = false) : r.All fun k _ => k ≠ key := by
  intro e he heq
  rw [contains, List.any_eq_false] at h
  exact h e he (beq_iff_eq.mpr heq)

theorem get?_erase : (r.erase key).get? key = none :=
  get?_eq_none fun _ he => bne_iff_ne.mp (List.mem_filter.mp he).2

theorem get?_use (h : 0 < r.capacity) (key : String) (value : α) :
    (r.use key value).get? key = some value := by
  obtain ⟨n, hn⟩ := Nat.exists_eq_succ_of_ne_zero (Nat.ne_of_gt h)
  rw [use, Recent.get?, hn, List.take_succ_cons, List.lookup_cons_self]

end Recent

namespace Cache

variable {c : Cache α}

/-- Every answer that is kept satisfies `P`, and there is room for an answer. -/
structure Holds (P : String → α → Prop) (c : Cache α) : Prop where
  once : c.once.All P
  often : c.often.All P
  roomOnce : 0 < c.once.capacity
  roomOften : 0 < c.often.capacity

namespace Holds

section

variable (h : c.Holds P)
include h

theorem imp (hPQ : ∀ {k v}, P k v → Q k v) : c.Holds Q :=
  ⟨fun e he => hPQ (h.once e he), fun e he => hPQ (h.often e he), h.roomOnce, h.roomOften⟩

theorem get? (hv : c.get? key = some value) : P key value := by
  rcases Option.or_eq_some_iff.mp hv with hv | ⟨_, hv⟩
  · exact h.once.get? hv
  · exact h.often.get? hv

theorem keepOften (hv : P key value) : (c.keepOften key value).Holds P :=
  ⟨h.once.erase key, h.often.use hv, h.roomOnce, h.roomOften⟩

theorem giveUp (wasOften : Bool) : (c.giveUp wasOften).Holds P := by
  unfold Cache.giveUp
  split
  · split
    · exact ⟨h.once.dropOldest, h.often, h.roomOnce, h.roomOften⟩
    · exact h
  · split
    · exact ⟨h.once, h.often.dropOldest, h.roomOnce, h.roomOften⟩
    · exact h

theorem makeRoom (wasOften : Bool) : (c.makeRoom wasOften).Holds P := by
  unfold Cache.makeRoom
  split
  · exact h.giveUp wasOften
  · exact h

theorem withShare (share : Nat) : Holds P { c with share } :=
  ⟨h.once, h.often, h.roomOnce, h.roomOften⟩

theorem insert (hv : P key value) : (c.insert key value).Holds P := by
  unfold Cache.insert
  split
  · exact h.keepOften hv
  split
  · have hroom := (h.withShare
      (min c.capacity (c.share + shift c.lostOnce.size c.lostOften.size))).makeRoom false
    exact ⟨hroom.once, hroom.often.use hv, hroom.roomOnce, hroom.roomOften⟩
  split
  · have hroom := (h.withShare (c.share - shift c.lostOften.size c.lostOnce.size)).makeRoom true
    exact ⟨hroom.once, hroom.often.use hv, hroom.roomOnce, hroom.roomOften⟩
  · have hroom := h.makeRoom false
    exact ⟨hroom.once.use hv, hroom.often, hroom.roomOnce, hroom.roomOften⟩

theorem clear : c.clear.Holds Q := ⟨.clear _, .clear _, h.roomOnce, h.roomOften⟩

theorem get?_keepOften (key : String) (value : α) :
    (c.keepOften key value).get? key = some value := by
  rw [Cache.get?, Cache.keepOften, Recent.get?_erase, Recent.get?_use h.roomOften]
  rfl

theorem get?_insert (key : String) (value : α) : (c.insert key value).get? key = some value := by
  unfold Cache.insert
  split
  · exact h.get?_keepOften key value
  rename_i hnew
  -- a key that is not there does not appear when room is made
  have hne : c.Holds fun k _ => k ≠ key := by
    simp only [Bool.or_eq_true, not_or, Bool.not_eq_true] at hnew
    exact ⟨Recent.all_ne_of_contains hnew.1, Recent.all_ne_of_contains hnew.2,
      h.roomOnce, h.roomOften⟩
  split
  · have hroom := (hne.withShare
      (min c.capacity (c.share + shift c.lostOnce.size c.lostOften.size))).makeRoom false
    exact Option.or_eq_some_iff.mpr
      (.inr ⟨Recent.get?_eq_none hroom.once, Recent.get?_use hroom.roomOften key value⟩)
  split
  · have hroom := (hne.withShare (c.share - shift c.lostOften.size c.lostOnce.size)).makeRoom true
    exact Option.or_eq_some_iff.mpr
      (.inr ⟨Recent.get?_eq_none hroom.once, Recent.get?_use hroom.roomOften key value⟩)
  · exact Option.or_eq_some_iff.mpr (.inl (Recent.get?_use (h.makeRoom false).roomOnce key value))

end

end Holds

end Cache

/-- What is done to a cache. -/
inductive CacheStep (α : Type) where
  | keep (key : String) (value : α)
  | insert (key : String) (value : α)
  | clear

namespace CacheStep

variable {C : Type → Type} [AnswerCache C]

def run (c : C α) : CacheStep α → C α
  | keep key value => AnswerCache.keep c key value
  | insert key value => AnswerCache.insert c key value
  | clear => AnswerCache.clear c

/-- What was added since the cache was cleared. -/
def added (l : List (String × α)) : CacheStep α → List (String × α)
  | keep key value | insert key value => (key, value) :: l
  | clear => []

end CacheStep

/-- Whatever is done to the cache, it gives for a key only what was added under the key, and what
was added just now. -/
structure Faithful {α : Type} {C : Type → Type} [AnswerCache C] (c : C α) : Prop where
  added : ∀ (steps : List (CacheStep α)) key value, AnswerCache.get? (steps.foldl CacheStep.run c)
    key = some value → (key, value) ∈ steps.foldl CacheStep.added []
  keep : ∀ (steps : List (CacheStep α)) key value,
    AnswerCache.get? (AnswerCache.keep (steps.foldl CacheStep.run c) key value) key = some value
  insert : ∀ (steps : List (CacheStep α)) key value,
    AnswerCache.get? (AnswerCache.insert (steps.foldl CacheStep.run c) key value) key = some value

theorem Cache.Holds.run {c : Cache α} (h : c.Holds fun k v => (k, v) ∈ l)
    (steps : List (CacheStep α)) :
    (steps.foldl CacheStep.run c).Holds fun k v => (k, v) ∈ steps.foldl CacheStep.added l := by
  induction steps generalizing c l with
  | nil => exact h
  | cons step steps ih =>
    refine ih ?_
    cases step with
    | keep key value => exact (h.imp (List.mem_cons_of_mem _)).keepOften List.mem_cons_self
    | insert key value => exact (h.imp (List.mem_cons_of_mem _)).insert List.mem_cons_self
    | clear => exact h.clear

theorem Cache.faithful {α : Type} {size : Nat} (hsize : 0 < size) :
    Faithful ({ capacity := size } : Cache α) := by
  have hempty : ({ capacity := size } : Cache α).Holds fun k v => (k, v) ∈ [] :=
    ⟨nofun, nofun, hsize, hsize⟩
  exact ⟨fun steps _ _ => (hempty.run steps).get?, fun steps => (hempty.run steps).get?_keepOften,
    fun steps => (hempty.run steps).get?_insert⟩

namespace CatalogUseOf

/-- Names that a key is made from: at least one, and none with the character that separates them. -/
def Nameable (names : List String) : Prop := names ≠ [] ∧ ∀ name ∈ names, '\x00' ∉ name.toList

theorem cacheKey_injective (h : Nameable names) (h' : Nameable names')
    (heq : cacheKey names = cacheKey names') : names = names' := by
  have hfree {names : List String} (h : Nameable names) : ∀ u ∈ names.map String.toList,
      '\x00' ∉ u := by
    intro u hu
    obtain ⟨name, hname, rfl⟩ := List.mem_map.mp hu
    exact h.2 name hname
  have hnil : names.map String.toList = [] ↔ names'.map String.toList = [] := by
    rw [List.map_eq_nil_iff, List.map_eq_nil_iff]
    exact ⟨fun hn => absurd hn h.1, fun hn => absurd hn h'.1⟩
  have hjoined := congrArg String.toList heq
  rw [cacheKey, cacheKey, Text.join, Text.join, String.toList_intercalate,
    String.toList_intercalate] at hjoined
  exact List.map_injective_iff.mpr (fun _ _ => String.toList_inj.mp)
    (Text.intercalate_injective Text.eq_of_append_eq (hfree h) (hfree h') hnil hjoined)

section Remember

variable {C : Type → Type} [AnswerCache C] {c : C α}

def recalled? (remembered : Option (C α)) (names : List String) : Option α :=
  remembered.bind (AnswerCache.get? · (cacheKey names))

/-- The answer that is kept under the key is that of the catalog for all names of the key. -/
def Answers (ask : List String → Except CatalogFailure α) (key : String) (value : α) : Prop :=
  ∀ names, Nameable names → cacheKey names = key → ask names = .ok value

/-- What is remembered is the cache after answers of the catalog were added to it. -/
def Honest (ask : List String → Except CatalogFailure α) (c : C α)
    (remembered : Option (C α)) : Prop :=
  ∃ steps : List (CacheStep α), remembered = some (steps.foldl CacheStep.run c) ∧
    ∀ e ∈ steps.foldl CacheStep.added [], Answers ask e.1 e.2

theorem Honest.start (ask : List String → Except CatalogFailure α) (c : C α) :
    Honest ask c (some c) := ⟨[], rfl, nofun⟩

theorem Honest.step (h : Honest ask c remembered) (step : CacheStep α)
    (hstep : ∀ l, ∀ e ∈ step.added l, e ∈ l ∨ Answers ask e.1 e.2) :
    Honest ask c (remembered.map (CacheStep.run · step)) := by
  obtain ⟨steps, rfl, hsteps⟩ := h
  refine ⟨steps ++ [step], by rw [List.foldl_append]; rfl, fun e he => ?_⟩
  rw [List.foldl_append] at he
  exact (hstep _ e he).elim (hsteps e) id

/-- How a lookup changes what is remembered, and how often the catalog was asked: answers are
remembered, whether they are objects or absences, failures are not, and the catalog is asked for
names that are not remembered. -/
structure Recalls (ask : List String → Except CatalogFailure α) (names : List String)
    (before after : Option (C α)) (reads reads' : Nat) : Prop where
  answered : ∀ a, ask names = .ok a → recalled? after names = some a
  failed : ∀ e, ask names = .error e → after = before ∧ recalled? after names = none
  asked : reads' = reads + if (recalled? before names).isSome then 0 else 1

theorem remember_recalled {remembered : Option (C α)} (h : recalled? remembered names = some a) :
    remember remembered names ask =
      (.ok a, remembered.map (AnswerCache.keep · (cacheKey names) a), false) := by
  have h : remembered.bind (AnswerCache.get? · (cacheKey names)) = some a := h
  rw [remember, h]

theorem remember_unrecalled {remembered : Option (C α)} (h : recalled? remembered names = none) :
    remember remembered names ask = match ask names with
      | .error e => (.error e, remembered, true)
      | .ok a => (.ok a, remembered.map (AnswerCache.insert · (cacheKey names) a), true) := by
  have h : remembered.bind (AnswerCache.get? · (cacheKey names)) = none := h
  cases ha : ask names <;> simp only [remember, h, ha]

theorem Honest.remember (hc : Faithful c) (h : Honest ask c remembered)
    (hn : Nameable names) (reads : Nat) : (remember remembered names ask).1 = ask names ∧
      Honest ask c (remember remembered names ask).2.1 ∧ Recalls ask names remembered (remember
      remembered names ask).2.1 reads (reads + (remember remembered names ask).2.2.toNat) := by
  have hkept {a : α} (ha : ask names = .ok a) (l : List (String × α)) :
      ∀ e ∈ (cacheKey names, a) :: l, e ∈ l ∨ Answers ask e.1 e.2 := by
    rintro e (_ | ⟨_, he⟩)
    · exact .inr fun names' hn' hkey => cacheKey_injective hn' hn hkey ▸ ha
    · exact .inl he
  obtain ⟨steps, rfl, hsteps⟩ := id h
  cases hr : recalled? (some (steps.foldl CacheStep.run c)) names with
  | some a =>
    have ha : ask names = .ok a := hsteps _ (hc.added steps _ a hr) names hn rfl
    rw [remember_recalled hr]
    refine ⟨ha.symm, h.step (.keep _ a) (hkept ha), fun a' ha' => ?_, fun e he => ?_,
      by rw [hr]; rfl⟩
    · cases ha.symm.trans ha'
      exact hc.keep steps _ a
    · cases ha.symm.trans he
  | none =>
    rw [remember_unrecalled hr]
    cases ha : ask names with
    | error e =>
      refine ⟨rfl, h, fun a ha' => ?_, fun _ _ => ⟨rfl, hr⟩, by rw [hr]; rfl⟩
      cases ha.symm.trans ha'
    | ok a =>
      refine ⟨rfl, h.step (.insert _ a) (hkept ha), fun a' ha' => ?_, fun e he => ?_,
        by rw [hr]; rfl⟩
      · cases ha.symm.trans ha'
        exact hc.insert steps _ a
      · cases ha.symm.trans he

theorem Honest.recalled?_clear (hc : Faithful c) (h : Honest ask c remembered)
    (names : List String) : recalled? (remembered.map AnswerCache.clear) names = none := by
  obtain ⟨steps, rfl, _⟩ := h
  rw [recalled?, Option.map_some, Option.bind_some, Option.eq_none_iff_forall_ne_some]
  intro a ha
  have hadded := hc.added (steps ++ [.clear]) _ a (by rw [List.foldl_append]; exact ha)
  rw [List.foldl_append] at hadded
  cases hadded

end Remember

end CatalogUseOf

/-- A request to a catalog behind a cache. -/
inductive CatalogRequest where
  | table (names : List String)
  | type (names : List String)
  | objects (path : List String)
  | purge

inductive CatalogAnswer where
  | table (answer : Except CatalogFailure (Option Relation))
  | type (answer : Except CatalogFailure (Option SqlType))
  | objects (answer : Except CatalogFailure (List String))
  | purged

namespace CatalogRequest

open CatalogUseOf

variable {C : Type → Type} [AnswerCache C] {r : CatalogReader} {tables : C (Option Relation)}
    {types : C (Option SqlType)}
  {u : CatalogUseOf C}

/-- The names that are looked up can be told from their key. -/
def Named : CatalogRequest → Prop
  | table names | type names => Nameable names
  | objects _ | purge => True

def answer (r : CatalogReader) : CatalogRequest → CatalogAnswer
  | table names => .table (r.table names)
  | type names => .type (r.type names)
  | objects path => .objects (r.objects path)
  | purge => .purged

def run (r : CatalogReader) (u : CatalogUseOf C) : CatalogRequest → CatalogAnswer × CatalogUseOf C
  | table names => ((u.table r names).1 |> .table, (u.table r names).2)
  | type names => ((u.type r names).1 |> .type, (u.type r names).2)
  | objects path => (.objects (r.objects path), u)
  | purge => (.purged, u.purge)

/-- The answers to one request after the other, and what is remembered in the end. -/
def runAll (r : CatalogReader) : CatalogUseOf C → List CatalogRequest →
      List CatalogAnswer × CatalogUseOf C
  | u, [] => ([], u)
  | u, q :: qs => ((q.run r u).1 :: (runAll r (q.run r u).2 qs).1, (runAll r (q.run r u).2 qs).2)

/-- What a request does to what is remembered. A lookup of names that are remembered is the same
with any catalog. -/
def Remembers (r : CatalogReader) (u v : CatalogUseOf C) : CatalogRequest → Prop
  | table names => Recalls r.table names u.tables v.tables u.tableReads v.tableReads ∧
    v.types = u.types ∧
      v.typeReads = u.typeReads ∧
      ((recalled? u.tables names).isSome → ∀ r', u.table r' names = u.table r names)
  | type names => Recalls r.type names u.types v.types u.typeReads v.typeReads ∧
    v.tables = u.tables ∧
      v.tableReads = u.tableReads ∧
      ((recalled? u.types names).isSome → ∀ r', u.type r' names = u.type r names)
  | objects _ => v = u
  | purge => (∀ names, recalled? v.tables names = none ∧ recalled? v.types names = none) ∧
      v.tableReads = u.tableReads ∧ v.typeReads = u.typeReads

structure HonestUse (r : CatalogReader) (tables : C (Option Relation))
    (types : C (Option SqlType)) (u : CatalogUseOf C) : Prop where
  tables : Honest r.table tables u.tables
  types : Honest r.type types u.types

/-- One request is answered as the catalog answers it, and what is remembered are answers of the
catalog again. -/
theorem run_honest (htables : Faithful tables) (htypes : Faithful types)
    (hu : HonestUse r tables types u) {q : CatalogRequest} (hq : q.Named) :
    (q.run r u).1 = q.answer r ∧ HonestUse r tables types (q.run r u).2 ∧
      q.Remembers r u (q.run r u).2 := by
  cases q with
  | table names =>
    obtain ⟨hanswer, hhonest, hrecalls⟩ := hu.tables.remember htables hq u.tableReads
    refine ⟨congrArg CatalogAnswer.table hanswer, ⟨hhonest, hu.types⟩,
      hrecalls, rfl, rfl, fun hknown r' => ?_⟩
    obtain ⟨a, ha⟩ := Option.isSome_iff_exists.mp hknown
    rw [CatalogUseOf.table, CatalogUseOf.table, remember_recalled ha, remember_recalled ha]
  | type names =>
    obtain ⟨hanswer, hhonest, hrecalls⟩ := hu.types.remember htypes hq u.typeReads
    refine ⟨congrArg CatalogAnswer.type hanswer, ⟨hu.tables, hhonest⟩,
      hrecalls, rfl, rfl, fun hknown r' => ?_⟩
    obtain ⟨a, ha⟩ := Option.isSome_iff_exists.mp hknown
    rw [CatalogUseOf.type, CatalogUseOf.type, remember_recalled ha, remember_recalled ha]
  | objects path => exact ⟨rfl, hu, rfl⟩
  | purge =>
    refine ⟨rfl, ⟨hu.tables.step .clear fun _ => nofun, hu.types.step .clear fun _ => nofun⟩,
      fun names => ?_, rfl, rfl⟩
    exact ⟨hu.tables.recalled?_clear htables names, hu.types.recalled?_clear htypes names⟩

theorem runAll_append : runAll r u (qs ++ qs') = ((runAll r u qs).1 ++
      (runAll r (runAll r u qs).2 qs').1, (runAll r (runAll r u qs).2 qs').2) := by
  induction qs generalizing u with
  | nil => rfl
  | cons q qs ih => rw [List.cons_append, runAll, ih, runAll]; rfl

theorem runAll_honest (htables : Faithful tables) (htypes : Faithful types)
    (hu : HonestUse r tables types u) (hqs : ∀ q ∈ qs, q.Named) :
    (runAll r u qs).1 = qs.map (·.answer r) ∧ HonestUse r tables types (runAll r u qs).2 := by
  induction qs generalizing u with
  | nil => exact ⟨rfl, hu⟩
  | cons q qs ih =>
    rw [List.forall_mem_cons] at hqs
    obtain ⟨hanswer, hhonest, _⟩ := run_honest htables htypes hu hqs.1
    obtain ⟨hanswers, hend⟩ := ih hhonest hqs.2
    exact ⟨by rw [runAll, List.map_cons, hanswer, hanswers], hend⟩

/-- Every sequence of requests is answered as the catalog answers it. Of each request in it, what
the one before leaves is changed as remembering answers asks for: absences like objects, no
failures, and no question to the catalog for names that are remembered. -/
def Refines (r : CatalogReader) (u : CatalogUseOf C) : Prop :=
  ∀ qs : List CatalogRequest, (∀ q ∈ qs, q.Named) → (runAll r u qs).1 = qs.map (·.answer r) ∧
    ∀ before q after, qs = before ++ q :: after →
    q.Remembers r (runAll r u before).2 (runAll r u (before ++ [q])).2

theorem refines_of_faithful (r : CatalogReader) (htables : Faithful tables)
    (htypes : Faithful types) : Refines r { tables := some tables, types := some types } := by
  intro qs hqs
  have hu : HonestUse r tables types { tables := some tables, types := some types } :=
    ⟨.start _ _, .start _ _⟩
  refine ⟨(runAll_honest htables htypes hu hqs).1, ?_⟩
  rintro before q after rfl
  rw [List.forall_mem_append, List.forall_mem_cons] at hqs
  rw [runAll_append]
  exact (run_honest htables htypes (runAll_honest htables htypes hu hqs.1).2 hqs.2.1).2.2

/-- A catalog behind a cache of any size refines the catalog, and so does one behind any other
caches that give for a key only what was added under it. -/
theorem runAll_cached (r : CatalogReader) :
    (∀ size : Int, 1 ≤ size → ∃ u₀, CatalogUse.ofSize size = .ok u₀ ∧ Refines r u₀) ∧
    ∀ (C : Type → Type) [AnswerCache C] (tables : C (Option Relation))
      (types : C (Option SqlType)), Faithful tables → Faithful types →
      Refines r { tables := some tables, types := some types } := by
  refine ⟨fun size hsize => ⟨CatalogUse.cached size.toNat, ?_, ?_⟩,
    fun C _ _ _ => refines_of_faithful r⟩
  · rw [CatalogUse.ofSize, if_neg (by omega)]
  · exact refines_of_faithful r (Cache.faithful (by omega)) (Cache.faithful (by omega))

/-- A catalog whose types cannot be read, behind a cache with room for one answer. -/
theorem runAll_cached_failing :
    let r : CatalogReader := { CatalogReader.empty with type := fun _ => .error ⟨"no connection"⟩ }
    let qs :=
      [table ["EMP"], type ["MONEY"], table ["HR", "EMP"], type ["MONEY"], purge, table ["EMP"]]
    (1 : Int) ≤ 1 ∧ (∀ q ∈ qs, q.Named) ∧
      ∃ u₀, CatalogUse.ofSize 1 = .ok u₀ ∧ (runAll r u₀ qs).1 = qs.map (·.answer r) := by
  intro r qs
  have hnamed : ∀ q ∈ qs, q.Named := by simp [qs, Named, Nameable]
  obtain ⟨u₀, hu₀, hqs⟩ := (runAll_cached r).1 1 (Int.le_refl 1)
  exact ⟨Int.le_refl 1, hnamed, u₀, hu₀, (hqs qs hnamed).1⟩

end CatalogRequest

end SqlAnalysis

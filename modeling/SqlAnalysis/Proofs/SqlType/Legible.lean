import SqlAnalysis.Proofs.Number.Digits
import SqlAnalysis.Proofs.SqlType.Row
import SqlAnalysis.Proofs.Text.Nesting

/-!
Types can be told by their texts. The full text of a type says all of it, as long as names of fields
do not look like other parts of a text and nothing is set that is not shown: `Legible` collects
these conditions.
-/

namespace SqlAnalysis

/-- What the name of a scalar does not provide for has its default, as in all scalars that are
built. -/
structure Scalar.Formed (s : Scalar) : Prop where
  precision : s.name.allowsPrecision = false → s.precision = ScalarName.noPrecision
  scale : s.name ≠ .decimal → s.scale = 0
  collation : s.name.isChar = false → s.charset = "" ∧ s.collation = {}

/-- A time shows its precision, and a character type its character set. -/
structure Scalar.Legible (s : Scalar) : Prop where
  time : s.name = .time ∨ s.name = .timestamp → 0 ≤ s.precision
  charset : s.name.isChar → s.charset = s.collation.charset

namespace SqlType

/-- A name of a field that does not look like another part of a text. -/
def LegibleName (name : String) : Prop :=
  ∀ c ∈ name.toList, c ≠ ' ' ∧ c ≠ ',' ∧ c ≠ '(' ∧ c ≠ ')' ∧ c ≠ '"'

mutual
/-- The scalars in a type satisfy `P`. -/
def Scalars (P : Scalar → Prop) : SqlType → Prop
  | .scalar s _ => P s
  | .row fs _ => FieldScalars P fs
  | .multiset e _ => Scalars P e
  | .interval _ _ | .null | .unknown => True

def FieldScalars (P : Scalar → Prop) : List Field → Prop
  | [] => True
  | (_, t) :: fs => Scalars P t ∧ FieldScalars P fs
end

mutual
/-- The text of the type shows all that can be different in it; a row inside of another type shows
no nullability and has to exclude the null value. -/
def Legible : SqlType → Prop
  | .scalar s _ => s.Legible
  | .interval q _ => q.firstPrecision = 0 ∧ q.fractionPrecision = 0
  | .row fs _ => LegibleFields fs
  | .multiset e _ => Legible e ∧ (e.isRow → e.nullable = false)
  | .null | .unknown => True

def LegibleFields : List Field → Prop
  | [] => True
  | (name, t) :: fs => LegibleName name ∧ Legible t ∧ (t.isRow → t.nullable = false) ∧
    LegibleFields fs
end

end SqlType

/-! ### Words -/

namespace Text

/-- What stands after the last blank is the same. -/
theorem eq_of_append_blank_eq (hw : ' ' ∉ w) (hx : ' ' ∉ x) (h : u ++ ' ' :: w = v ++ ' ' :: x) :
    u = v ∧ w = x := by
  have hrev := congrArg List.reverse h
  simp only [List.reverse_append, List.reverse_cons, List.append_assoc] at hrev
  obtain ⟨hwx, huv⟩ := eq_of_append_eq (by simpa) (by simpa) (.inr rfl) (.inr rfl) hrev
  exact ⟨List.reverse_injective (List.cons.inj huv).2, List.reverse_injective hwx⟩

theorem not_suffix_of_blankless (hu : ' ' ∉ u) : ¬ (s ++ ' ' :: w) <:+ u := by
  rintro ⟨v, rfl⟩
  exact hu (by simp)

theorem not_suffix_of_word (hu : u = v ++ ' ' :: w) (hw : ' ' ∉ w) (hx : ' ' ∉ x) (hne : w ≠ x) :
    ¬ (s ++ ' ' :: x) <:+ u := by
  rintro ⟨y, hy⟩
  rw [hu, ← List.append_assoc] at hy
  exact hne (eq_of_append_blank_eq hx hw hy).2.symm

theorem not_suffix_of_last (hx : x ≠ []) (hc : x.getLast? ≠ some c) :
    ¬ (s ++ ' ' :: x) <:+ u ++ [c] := by
  rintro ⟨y, hy⟩
  have hlast := congrArg List.getLast? hy
  rw [List.getLast?_concat, ← List.append_assoc, List.getLast?_append_cons,
    List.getLast?_cons_of_ne_nil hx] at hlast
  exact hc hlast

def firstWord (u : List Char) : List Char := u.takeWhile fun c => c != ' ' && c != '('

theorem firstWord_append {w r : List Char} (hw : ∀ c ∈ w, c ≠ ' ' ∧ c ≠ '(')
    (hr : r = [] ∨ r.head? = some ' ' ∨ r.head? = some '(') : firstWord (w ++ r) = w := by
  unfold firstWord
  rw [List.takeWhile_append_of_pos]
  · obtain rfl | hr := hr
    · simp
    · cases r with
      | nil => simp
      | cons c r => obtain hr | hr := hr <;> cases hr <;> simp
  · intro c hc
    obtain ⟨h, h'⟩ := hw c hc
    simp [h, h']

end Text

/-! ### Scalars -/

theorem Coercibility.toText_injective {c d : Coercibility} (h : c.toText = d.toText) : c = d := by
  have hunlisted (r : Int) : (Coercibility.unlisted r).toText.toList =
      'C' :: 'o' :: ("ercibility(".toList ++ ((Number.intText r).toList ++ [')'])) := by
    simp [toText]
  have hlist := congrArg String.toList h
  cases c with
  | unlisted r =>
    rw [hunlisted] at hlist
    cases d with
    | unlisted r' =>
      rw [hunlisted] at hlist
      simp only [List.cons.injEq, true_and, List.append_cancel_left_eq,
        List.append_cancel_right_eq] at hlist
      rw [Number.intText_injective (String.toList_inj.mp hlist)]
    | _ => simp [toText] at hlist
  | _ =>
    cases d with
    | unlisted r' =>
      simp [toText] at hlist
    | _ => first | rfl | exact absurd h (by decide)

namespace ScalarName

theorem mem_toText (n : ScalarName) :
    ∀ c ∈ n.toText.toList, c ≠ ' ' ∧ c ≠ ',' ∧ c ≠ '(' ∧ c ≠ ')' ∧ c ≠ '"' := by
  cases n <;> decide

theorem toText_injective {m n : ScalarName} (h : m.toText = n.toText) : m = n := by
  cases m <;> cases n <;> first | rfl | exact absurd h (by decide)

end ScalarName

namespace Scalar

open Text

variable {s : Scalar}

def head (s : Scalar) : List Char :=
  if s.name = .decimal then "DECIMAL(".toList ++ ((Number.intText s.precision).toList ++
    (", ".toList ++ ((Number.intText s.scale).toList ++ [')'])))
  else s.name.toText.toList ++ s.precisionText.toList

def collationText (s : Scalar) : List Char :=
  if s.name.isChar then
    " CHARACTER SET ".toList ++ ((quote s.charset).toList ++ (" COLLATE ".toList ++
    ((quote s.collation.name).toList ++ (' ' :: s.collation.coercibility.toText.toList)))) else []

theorem toList_toText (s : Scalar) : (s.toText true).toList = s.head ++ s.collationText := by
  unfold toText head collationText
  simp only [Bool.true_and]
  split <;> split <;> simp

theorem precisionText_cases (s : Scalar) :
    s.precisionText.toList = '(' :: ((Number.intText s.precision).toList ++ [')']) ∨
    s.precisionText.toList = [] ∧ (s.name.allowsPrecision → s.precision = ScalarName.noPrecision ∨
      (s.name = .time ∨ s.name = .timestamp) ∧ s.precision = 0) := by
  unfold precisionText
  split
  · exact .inl (by simp)
  · rename_i hhidden
    refine .inr ⟨rfl, fun hallows => ?_⟩
    simp only [hallows, Bool.true_and, Bool.and_eq_true, bne_iff_ne, Bool.not_eq_true',
      Bool.and_eq_false_iff, beq_eq_false_iff_ne, not_and, not_or, Decidable.not_not] at hhidden
    by_cases hp : s.precision = ScalarName.noPrecision
    · exact .inl hp
    · obtain ⟨hname, hzero⟩ := hhidden hp
      exact .inr ⟨by grind, hzero⟩

theorem precision_eq {s' : Scalar} (hf : s.Formed) (hf' : s'.Formed)
    (hl : s.Legible) (hl' : s'.Legible) (hname : s.name = s'.name)
    (h : s.precisionText.toList = s'.precisionText.toList) : s.precision = s'.precision := by
  obtain hs | ⟨hs, hp⟩ := s.precisionText_cases <;> obtain hs' | ⟨hs', hp'⟩ :=
    s'.precisionText_cases <;> rw [hs, hs'] at h
  · have htext := List.append_cancel_right (List.cons.inj h).2
    exact Number.intText_injective (String.toList_inj.mp htext)
  · cases h
  · cases h
  · cases hallows : s.name.allowsPrecision with
    | false => rw [hf.precision hallows, hf'.precision (hname ▸ hallows)]
    | true =>
      have htime := hl.time
      have htime' := hl'.time
      rw [← hname] at hp' htime'
      have hnone : ScalarName.noPrecision = -1 := rfl
      rcases hp hallows with hp | ⟨ht, hp⟩ <;> rcases hp' hallows with hp' | ⟨ht', hp'⟩
      · rw [hp, hp']
      · have := htime ht'; omega
      · have := htime' ht; omega
      · rw [hp, hp']

theorem blank_not_mem_precisionText (s : Scalar) : ' ' ∉ s.precisionText.toList := by
  obtain hs | ⟨hs, _⟩ := s.precisionText_cases <;> rw [hs]
  · simp only [List.mem_cons, List.mem_append, not_or]
    exact ⟨by decide, Number.not_mem_intText (by decide) (by decide) _, by decide⟩
  · nofun

theorem collationText_eq (s : Scalar) (h : s.name.isChar = false) : s.collationText = [] := by
  rw [collationText, h]
  rfl

theorem collation_eq {s' : Scalar} (hl : s.Legible) (hl' : s'.Legible)
    (hc : s.name.isChar) (hc' : s'.name.isChar) (h : s.collationText = s'.collationText) :
    s.charset = s'.charset ∧ s.collation = s'.collation := by
  rw [collationText, collationText, if_pos hc, if_pos hc', List.append_cancel_left_eq] at h
  obtain ⟨hcharset, h⟩ := quote_append_injective h
  rw [List.append_cancel_left_eq] at h
  obtain ⟨hname, h⟩ := quote_append_injective h
  have hcoercibility := Coercibility.toText_injective (String.toList_inj.mp (List.cons.inj h).2)
  refine ⟨hcharset, ?_⟩
  have hset := hl.charset hc
  have hset' := hl'.charset hc'
  cases hcoll : s.collation
  cases hcoll' : s'.collation
  rw [hcoll, hcoll'] at hname hcoercibility
  rw [hcoll] at hset
  rw [hcoll'] at hset'
  simp only at hname hcoercibility hset hset'
  rw [hname, hcoercibility, ← hset, ← hset', hcharset]

theorem texts_eq {s' : Scalar} (hname : s.name = s'.name) (hdecimal : s.name ≠ .decimal)
    (h : s.head ++ s.collationText = s'.head ++ s'.collationText) :
    s.precisionText.toList = s'.precisionText.toList ∧ s.collationText = s'.collationText := by
  have hends (s : Scalar) : s.collationText = [] ∨ s.collationText.head? = some ' ' := by
    unfold collationText
    split
    · exact .inr rfl
    · exact .inl rfl
  rw [head, head, if_neg hdecimal, if_neg (hname ▸ hdecimal), ← hname, List.append_assoc,
    List.append_assoc, List.append_cancel_left_eq] at h
  exact eq_of_append_eq s.blank_not_mem_precisionText s'.blank_not_mem_precisionText (hends s)
    (hends s') h

theorem eq_of_text (hf : s.Formed) (hf' : s'.Formed) (hl : s.Legible) (hl' : s'.Legible)
    (hname : s.name = s'.name) (h : s.head ++ s.collationText = s'.head ++ s'.collationText) :
    s = s' := by
  suffices hparts : s.precision = s'.precision ∧ s.scale = s'.scale ∧ s.charset = s'.charset ∧
      s.collation = s'.collation by
    obtain ⟨hprecision, hscale, hcharset, hcollation⟩ := hparts
    cases s
    cases s'
    simp only at *
    rw [hname, hprecision, hscale, hcharset, hcollation]
  by_cases hdecimal : s.name = .decimal
  · have hdecimal' : s'.name = .decimal := hname ▸ hdecimal
    have hchar : s.name.isChar = false := by rw [hdecimal]; rfl
    have hchar' : s'.name.isChar = false := by rw [hdecimal']; rfl
    rw [s.collationText_eq hchar, s'.collationText_eq hchar', head, head, if_pos hdecimal,
      if_pos hdecimal', List.append_nil, List.append_nil, List.append_cancel_left_eq] at h
    have hcomma {t : Scalar} :=
      Number.not_mem_intText (c := ',') (by decide) (by decide) t.precision
    obtain ⟨hprecision, h⟩ := eq_of_append_eq hcomma hcomma (.inr rfl) (.inr rfl) h
    rw [List.append_cancel_left_eq, List.append_cancel_right_eq] at h
    refine ⟨Number.intText_injective (String.toList_inj.mp hprecision),
      Number.intText_injective (String.toList_inj.mp h), ?_⟩
    rw [(hf.collation hchar).1, (hf.collation hchar).2, (hf'.collation hchar').1,
      (hf'.collation hchar').2]
    exact ⟨rfl, rfl⟩
  · have hdecimal' : s'.name ≠ .decimal := hname ▸ hdecimal
    obtain ⟨hprecision, h⟩ := texts_eq hname hdecimal h
    refine ⟨precision_eq hf hf' hl hl' hname hprecision,
      by rw [hf.scale hdecimal, hf'.scale hdecimal'], ?_⟩
    cases hchar : s.name.isChar with
    | true => exact collation_eq hl hl' hchar (hname ▸ hchar) h
    | false =>
      have hchar' : s'.name.isChar = false := hname ▸ hchar
      rw [(hf.collation hchar).1, (hf.collation hchar).2, (hf'.collation hchar').1,
        (hf'.collation hchar').2]
      exact ⟨rfl, rfl⟩

end Scalar

/-! ### The two ends of a text -/

theorem TimeUnit.blank_not_mem (u : TimeUnit) : ' ' ∉ u.toText.toList := by
  cases u <;> decide

theorem TimeUnit.toText_injective {u v : TimeUnit} (h : u.toText = v.toText) : u = v := by
  cases u <;> cases v <;> first | rfl | exact absurd h (by decide)

theorem Qualifier.toList_toText {q : Qualifier} (hf : q.firstPrecision = 0)
    (hs : q.fractionPrecision = 0) : q.toText.toList = q.first.toText.toList ++
      if q.last = q.first then [] else ' ' :: ("TO ".toList ++ q.last.toText.toList) := by
  simp only [toText, hf, hs]
  split <;> simp

namespace SqlType

open Text

def bare : SqlType → String
  | .scalar s _ => s.toText true
  | .interval q _ => "INTERVAL " ++ q.toText
  | .row fs _ => "RecordType(" ++ join ", " (renderFields true fs) ++ ")"
  | .multiset e _ => e.fullText ++ " MULTISET"
  | .null => "NULL"
  | .unknown => "UNKNOWN"

def excludesNull : SqlType → Bool
  | .scalar _ n | .interval _ n | .multiset _ n => !n
  | _ => false

theorem fullText_eq (t : SqlType) :
    t.fullText = t.bare ++ if t.excludesNull then " NOT NULL" else "" := by
  have hnotNull (n : Bool) (text : String) : notNull n text =
      text ++ if !n then " NOT NULL" else "" := by
    cases n
    · rfl
    · exact String.append_empty.symm
  cases t with
  | scalar s n | interval q n | multiset e n =>
    rw [fullText, render, hnotNull]
    rfl
  | row fs n | null | unknown =>
    rw [fullText, render, bare]
    exact String.append_empty.symm

/-- The words that end a text and are not part of what comes before. -/
def endings : List (List Char) := ["NULL".toList, "MULTISET".toList]

theorem not_suffix_bare {t : SqlType} (ht : t.Legible) (hx : x ∈ endings)
    (hm : t.isMultiset → x ≠ "MULTISET".toList) (s : List Char) :
    ¬ (s ++ ' ' :: x) <:+ t.bare.toList := by
  have hword : ∀ x ∈ endings, ' ' ∉ x ∧ x ≠ [] ∧ x.getLast? ≠ some ')' := by decide
  obtain ⟨hblank, hne, hlast⟩ := hword x hx
  cases t with
  | scalar c n =>
    rw [bare, Scalar.toList_toText]
    cases hchar : c.name.isChar with
    | true =>
      have htext : c.head ++ c.collationText = (c.head ++
          (" CHARACTER SET ".toList ++ ((quote c.charset).toList ++ (" COLLATE ".toList ++
          (quote c.collation.name).toList)))) ++ ' ' :: c.collation.coercibility.toText.toList := by
        simp [Scalar.collationText, hchar]
      rw [htext]
      cases hc : c.collation.coercibility with
      | unlisted r =>
        have hend (u : List Char) : u ++ ' ' :: (Coercibility.unlisted r).toText.toList =
            (u ++ ' ' :: ("Coercibility(".toList ++ (Number.intText r).toList)) ++ [')'] := by
          simp [Coercibility.toText]
        rw [hend]
        exact not_suffix_of_last hne hlast
      | none | coercible | implicit | explicit =>
        refine not_suffix_of_word rfl (by decide) hblank ?_
        clear hm hblank hne hlast
        revert x
        decide
    | false =>
      rw [c.collationText_eq hchar, List.append_nil, Scalar.head]
      split
      · have hend : ∃ u, "DECIMAL(".toList ++ ((Number.intText c.precision).toList ++
            (", ".toList ++ ((Number.intText c.scale).toList ++ [')']))) =
            u ++ [')'] := ⟨"DECIMAL(".toList ++ ((Number.intText c.precision).toList ++
              (", ".toList ++ (Number.intText c.scale).toList)), by simp⟩
        obtain ⟨u, hu⟩ := hend
        rw [hu]
        exact not_suffix_of_last hne hlast
      · refine not_suffix_of_blankless fun h => ?_
        rcases List.mem_append.mp h with h | h
        · exact (c.name.mem_toText _ h).1 rfl
        · exact c.blank_not_mem_precisionText h
  | interval q n =>
    have hunits : ∀ x ∈ endings, ∀ u : TimeUnit, u.toText.toList ≠ x := by
      intro x hx u
      cases u <;> revert x <;> decide
    rw [bare, String.toList_append, Qualifier.toList_toText ht.1 ht.2]
    split
    · exact not_suffix_of_word (v := "INTERVAL".toList) (by simp) q.first.blank_not_mem
        hblank (hunits x hx _)
    · refine not_suffix_of_word (v := "INTERVAL ".toList ++ (q.first.toText.toList ++ " TO".toList))
        (by simp) q.last.blank_not_mem hblank (hunits x hx _)
  | row fs n =>
    rw [bare, String.toList_append]
    exact not_suffix_of_last hne hlast
  | multiset e n =>
    rw [bare, String.toList_append]
    exact not_suffix_of_word rfl (by decide) hblank fun h => hm rfl h.symm
  | null | unknown => exact not_suffix_of_blankless (by decide)

section Ends

variable {a b : SqlType} (ha : a.Legible) (hb : b.Legible)
include ha hb

theorem bare_eq (h : a.fullText = b.fullText) :
    a.bare = b.bare ∧ a.excludesNull = b.excludesNull := by
  have hsuffix {a b : SqlType} (hb : b.Legible) (hna : a.excludesNull)
    (hnb : b.excludesNull = false)
      (h : a.fullText = b.fullText) : False := by
    rw [fullText_eq, fullText_eq, hna, hnb] at h
    have htext : b.bare.toList = a.bare.toList ++ (" NOT".toList ++ ' ' :: "NULL".toList) := by
      have h := congrArg String.toList h
      simpa using h.symm
    exact not_suffix_bare hb (by decide) (fun _ => by decide) " NOT".toList ⟨_, htext.symm⟩
  cases hna : a.excludesNull <;> cases hnb : b.excludesNull
  · rw [fullText_eq, fullText_eq, hna, hnb] at h
    exact ⟨String.append_left_inj _ |>.mp h, rfl⟩
  · exact (hsuffix ha hnb hna h.symm).elim
  · exact (hsuffix hb hna hnb h).elim
  · rw [fullText_eq, fullText_eq, hna, hnb] at h
    exact ⟨String.append_left_inj _ |>.mp h, rfl⟩

theorem isMultiset_eq (h : a.bare = b.bare) : a.isMultiset = b.isMultiset := by
  have hsuffix {a b : SqlType} (hb : b.Legible) (hma : a.isMultiset) (hmb : b.isMultiset = false)
      (h : a.bare = b.bare) :
      False := by
    cases a with
    | multiset e n =>
      have htext : b.bare.toList = e.fullText.toList ++ ([] ++ ' ' :: "MULTISET".toList) := by
        rw [← h, bare, String.toList_append]
        rfl
      exact not_suffix_bare hb (by decide) (fun h => by rw [hmb] at h; cases h) [] ⟨_, htext.symm⟩
    | _ => cases hma
  cases hma : a.isMultiset <;> cases hmb : b.isMultiset
  · rfl
  · exact (hsuffix ha hmb hma h.symm).elim
  · exact (hsuffix hb hma hmb h).elim
  · rfl

end Ends

def leading : SqlType → String
  | .scalar s _ => s.name.toText
  | .interval _ _ => "INTERVAL"
  | .row _ _ => "RecordType"
  | .multiset _ _ => ""
  | .null => "NULL"
  | .unknown => "UNKNOWN"

theorem firstWord_bare {t : SqlType} (h : t.isMultiset = false) :
    firstWord t.bare.toList = t.leading.toList := by
  cases t with
  | scalar s n =>
    have hword : ∀ c ∈ s.name.toText.toList, c ≠ ' ' ∧ c ≠ '(' := fun c hc =>
      ⟨(s.name.mem_toText c hc).1, (s.name.mem_toText c hc).2.2.1⟩
    have hcollation : s.collationText = [] ∨ s.collationText.head? = some ' ' := by
      unfold Scalar.collationText
      split
      · exact .inr rfl
      · exact .inl rfl
    rw [bare, leading, Scalar.toList_toText, Scalar.head]
    split
    · rename_i hdecimal
      rw [hdecimal] at hword ⊢
      rw [show "DECIMAL(".toList = ScalarName.decimal.toText.toList ++
        ['('] by decide, List.append_assoc, List.append_assoc]
      exact firstWord_append hword (.inr (.inr rfl))
    · rw [List.append_assoc]
      refine firstWord_append hword ?_
      obtain hp | ⟨hp, _⟩ := s.precisionText_cases <;> rw [hp]
      · exact .inr (.inr rfl)
      · exact hcollation.imp_right .inl
  | interval q n =>
    rw [bare, String.toList_append, show "INTERVAL ".toList =
      "INTERVAL".toList ++ [' '] by decide, List.append_assoc]
    exact firstWord_append (by decide) (.inr (.inl rfl))
  | row fs n =>
    rw [bare, String.toList_append, String.toList_append, show "RecordType(".toList =
      "RecordType".toList ++ ['('] by decide, List.append_assoc, List.append_assoc]
    exact firstWord_append (by decide) (.inr (.inr rfl))
  | multiset e n => cases h
  | null | unknown => decide

/-- Types of the same form, their parts aside. -/
def sameForm : SqlType → SqlType → Bool
  | .scalar _ _, .scalar _ _ | .interval _ _, .interval _ _ | .row _ _, .row _ _
    | .multiset _ _, .multiset _ _ | .null, .null
  | .unknown, .unknown => true
  | _, _ => false

theorem sameForm_of_leading {a b : SqlType} (ha : a.isMultiset = false)
    (h : a.leading = b.leading) : a.sameForm b := by
  have hscalar (n : ScalarName) : ∀ w ∈ ["INTERVAL", "RecordType", "", "NULL", "UNKNOWN"],
      n.toText ≠ w := by
    cases n <;> decide
  cases a with
  | multiset => cases ha
  | scalar s n =>
    cases b with
    | scalar => rfl
    | _ =>
      rw [leading, leading] at h
      exact absurd h (hscalar _ _ (by decide))
  | _ =>
    cases b with
    | scalar =>
      rw [leading, leading] at h
      exact absurd h.symm (hscalar _ _ (by decide))
    | _ =>
      first
      | rfl
      | rw [leading, leading] at h
        exact absurd h (by decide)

/-! ### Texts of fields -/

theorem chunk_intText (n : Int) : Chunk (Number.intText n).toList := by
  refine .of_plain fun c hc => ?_
  have hne {d : Char} (hdigit : Number.isDigit d = false) (hsign : d ≠ '-') : c ≠ d :=
    fun h => Number.not_mem_intText hdigit hsign n (h ▸ hc)
  exact ⟨hne (by decide) (by decide), hne (by decide) (by decide), hne (by decide) (by decide),
    hne (by decide) (by decide)⟩

theorem whole_comma : Whole ", ".toList := rfl

theorem chunk_scalar (s : Scalar) : Chunk (s.toText true).toList := by
  have hname : Chunk s.name.toText.toList := .of_plain fun c hc => by
    obtain ⟨_, hcomma, hopen, hclose, hquote⟩ := s.name.mem_toText c hc
    exact ⟨hquote, hopen, hclose, hcomma⟩
  have hcoercibility : Chunk s.collation.coercibility.toText.toList := by
    cases s.collation.coercibility with
    | unlisted r =>
      have htext : (Coercibility.unlisted r).toText.toList =
          "Coercibility".toList ++ '(' :: ((Number.intText r).toList ++ [')']) := by
        simp [Coercibility.toText]
      rw [htext]
      exact .append (.of_plain (by decide)) (.parens (chunk_intText r).whole)
    | none | coercible | implicit | explicit => exact .of_plain (by decide)
  rw [Scalar.toList_toText]
  refine .append ?_ ?_
  · unfold Scalar.head
    split
    · rw [show "DECIMAL(".toList = "DECIMAL".toList ++ ['('] by decide, List.append_assoc]
      refine .append (.of_plain (by decide)) ?_
      have hparens := Chunk.parens (((chunk_intText s.precision).whole.append whole_comma).append
        (chunk_intText s.scale).whole)
      rw [List.append_assoc, List.append_assoc] at hparens
      exact hparens
    · refine hname.append ?_
      obtain hp | ⟨hp, _⟩ := s.precisionText_cases <;> rw [hp]
      · exact .parens (chunk_intText _).whole
      · exact .of_plain nofun
  · unfold Scalar.collationText
    split
    · refine .append (.of_plain (by decide))
        (.append (.quote _) (.append (.of_plain (by decide)) (.append (.quote _) ?_)))
      exact .append (u := [' ']) (.of_plain (by decide)) hcoercibility
    · exact .of_plain nofun

theorem chunk_qualifier {q : Qualifier} (hf : q.firstPrecision = 0) (hs : q.fractionPrecision = 0) :
    Chunk q.toText.toList := by
  have hunit (u : TimeUnit) : Chunk u.toText.toList := .of_plain (by cases u <;> decide)
  rw [Qualifier.toList_toText hf hs]
  refine (hunit _).append ?_
  split
  · exact .of_plain nofun
  · exact .append (u := " TO ".toList) (.of_plain (by decide)) (hunit _)

theorem whole_intercalate (h : ∀ u ∈ us, Chunk u) : Whole (", ".toList.intercalate us) := by
  induction us with
  | nil => rfl
  | cons u us ih =>
    rw [List.forall_mem_cons] at h
    cases us with
    | nil => simpa using h.1.whole
    | cons v us =>
      have hstep : ", ".toList.intercalate (u :: v :: us) =
          u ++ (", ".toList ++ ", ".toList.intercalate (v :: us)) := by
        simp
      rw [hstep]
      exact h.1.whole.append (whole_comma.append (ih h.2))

theorem chunk_of_bare {t : SqlType} (h : Chunk t.bare.toList) : Chunk t.fullText.toList := by
  have hend : Chunk (if t.excludesNull then " NOT NULL" else "").toList := by
    split <;> exact .of_plain (by decide)
  rw [fullText_eq, String.toList_append]
  exact h.append hend

theorem chunk_column (hname : LegibleName f.1) (h : Chunk f.2.fullText.toList) :
    Chunk (columnText f).toList := by
  rw [columnText, String.toList_append, String.toList_append]
  refine .append (.append h (.of_plain (by decide))) (.of_plain fun c hc => ?_)
  obtain ⟨_, hcomma, hopen, hclose, hquote⟩ := hname c hc
  exact ⟨hquote, hopen, hclose, hcomma⟩

theorem chunk_row (n : Bool) (h : ∀ u ∈ (renderFields true fs).map String.toList, Chunk u) :
    Chunk (row fs n).bare.toList := by
  rw [bare, join, String.toList_append, String.toList_append, String.toList_intercalate,
    show "RecordType(".toList = "RecordType".toList ++ ['('] by
    decide, List.append_assoc, List.append_assoc]
  exact .append (.of_plain (by decide)) (.parens (whole_intercalate h))

mutual
theorem chunk_fullText (t : SqlType) (h : t.Legible) : Chunk t.fullText.toList := by
  refine chunk_of_bare ?_
  cases t with
  | scalar s n => exact chunk_scalar s
  | interval q n =>
    rw [bare, String.toList_append]
    exact .append (.of_plain (by decide)) (chunk_qualifier h.1 h.2)
  | row fs n => exact chunk_row n (chunk_fields fs h)
  | multiset e n =>
    rw [bare, String.toList_append]
    exact .append (chunk_fullText e h.1) (.of_plain (by decide))
  | null | unknown => exact .of_plain (by decide)

theorem chunk_fields (fs : List Field) (h : LegibleFields fs) :
    ∀ u ∈ (renderFields true fs).map String.toList, Chunk u := by
  cases fs with
  | nil => nofun
  | cons f fs =>
    obtain ⟨hname, ht, _, hfs⟩ := h
    exact List.forall_mem_cons.mpr ⟨chunk_column hname (chunk_fullText f.2 ht), chunk_fields fs hfs⟩
end

/-! ### Types of one text -/

theorem renderFields_eq (hfs : ∀ u ∈ (renderFields true fs).map String.toList, Chunk u)
    (hgs : ∀ u ∈ (renderFields true gs).map String.toList, Chunk u)
    (h : join ", " (renderFields true fs) = join ", " (renderFields true gs)) :
    renderFields true fs = renderFields true gs := by
  have hne {fs : List Field} : ∀ u ∈ (renderFields true fs).map String.toList, u ≠ [] := by
    rw [renderFields_eq_map]
    intro u hu
    obtain ⟨_, htext, rfl⟩ := List.mem_map.mp hu
    obtain ⟨f, _, rfl⟩ := List.mem_map.mp htext
    simp [columnText]
  have hjoined := congrArg String.toList h
  rw [join, join, String.toList_intercalate, String.toList_intercalate] at hjoined
  have hnil {us vs : List (List Char)} (hvs : ∀ v ∈ vs, v ≠ [])
    (h : ", ".toList.intercalate us = ", ".toList.intercalate vs)
      (hus : us = []) : vs = [] :=
    eq_nil_of_intercalate_eq_nil hvs (h.symm.trans (by rw [hus]; rfl))
  have htexts := intercalate_injective Chunk.eq_of_append_eq hfs hgs
    ⟨hnil hne hjoined, hnil hne hjoined.symm⟩ hjoined
  exact List.map_injective_iff.mpr (fun _ _ => String.toList_inj.mp) htexts

theorem field_eq (hf : LegibleName f.1) (hg : LegibleName g.1) (h : columnText f = columnText g) :
    f.2.fullText = g.2.fullText ∧ f.1 = g.1 := by
  have htext := congrArg String.toList h
  simp only [columnText, String.toList_append, List.append_assoc] at htext
  have hblank {name : String} (h : LegibleName name) : ' ' ∉ name.toList :=
    fun hmem => (h _ hmem).1 rfl
  exact (eq_of_append_blank_eq (hblank hf) (hblank hg) htext).imp String.toList_inj.mp
    String.toList_inj.mp

theorem eq_of_qualifierText {q r : Qualifier} (hq : q.firstPrecision = 0 ∧ q.fractionPrecision = 0)
    (hr : r.firstPrecision = 0 ∧ r.fractionPrecision = 0) (h : q.toText = r.toText) : q = r := by
  have htext := congrArg String.toList h
  rw [Qualifier.toList_toText hq.1 hq.2, Qualifier.toList_toText hr.1 hr.2] at htext
  have hends (q : Qualifier) : (if q.last = q.first then [] else ' ' ::
      ("TO ".toList ++ q.last.toText.toList)) = [] ∨
      (if q.last = q.first then [] else ' ' :: ("TO ".toList ++ q.last.toText.toList)).head? =
        some ' ' := by
    split
    · exact .inl rfl
    · exact .inr rfl
  obtain ⟨hfirst, hlast⟩ :=
    eq_of_append_eq q.first.blank_not_mem r.first.blank_not_mem (hends q) (hends r) htext
  have hfirst : q.first = r.first := TimeUnit.toText_injective (String.toList_inj.mp hfirst)
  have hlast : q.last = r.last := by
    split at hlast <;> split at hlast
    · rw [‹q.last = _›, ‹r.last = _›, hfirst]
    · cases hlast
    · cases hlast
    · rw [List.cons.injEq, List.append_cancel_left_eq] at hlast
      exact TimeUnit.toText_injective (String.toList_inj.mp hlast.2)
  cases q
  cases r
  simp only at hfirst hlast hq hr
  rw [hfirst, hlast, hq.1, hq.2, hr.1, hr.2]

mutual
/-- Legible types with the same text are the same; of rows the nullability has to be known
besides. -/
theorem eq_of_fullText (a b : SqlType) (ha : a.Legible) (hb : b.Legible)
    (hfa : a.Scalars Scalar.Formed) (hfb : b.Scalars Scalar.Formed)
    (hrow : a.isRow → a.nullable = b.nullable) (h : a.fullText = b.fullText) : a = b := by
  obtain ⟨hbare, hnull⟩ := bare_eq ha hb h
  have hmultiset := isMultiset_eq ha hb hbare
  cases hm : a.isMultiset with
  | true =>
    cases a with
    | multiset e n =>
      cases b with
      | multiset e' n' =>
        have htext : e.fullText = e'.fullText := String.append_left_inj _ |>.mp hbare
        have hinner : e.isRow → e.nullable = e'.nullable := fun he => by
          rw [ha.2 he, hb.2]
          cases e with
          | row fs m => exact isRow_of_fullText htext.symm
          | _ => cases he
        rw [eq_of_fullText e e' ha.1 hb.1 hfa hfb hinner htext, Bool.not_inj hnull]
      | _ => cases hmultiset
    | _ => cases hm
  | false =>
    have hword : a.leading = b.leading := by
      rw [← String.toList_inj, ← firstWord_bare hm, ← firstWord_bare (hmultiset ▸ hm), hbare]
    have hform := sameForm_of_leading hm hword
    cases a with
    | multiset => cases hm
    | scalar s n =>
      cases b with
      | scalar s' n' =>
        rw [bare, bare] at hbare
        have htext := congrArg String.toList hbare
        rw [Scalar.toList_toText, Scalar.toList_toText] at htext
        rw [Scalar.eq_of_text hfa hfb ha hb (ScalarName.toText_injective hword) htext,
          Bool.not_inj hnull]
      | _ => cases hform
    | interval q n =>
      cases b with
      | interval q' n' =>
        rw [eq_of_qualifierText ha hb (String.append_right_inj _ |>.mp hbare), Bool.not_inj hnull]
      | _ => cases hform
    | row fs n =>
      cases b with
      | row gs n' =>
        have hjoined := String.append_right_inj _ |>.mp (String.append_left_inj _ |>.mp hbare)
        rw [eq_of_renderFields fs gs ha hb hfa hfb (renderFields_eq (chunk_fields fs ha)
          (chunk_fields gs hb) hjoined), show n = n' from hrow rfl]
      | _ => cases hform
    | null =>
      cases b with
      | null => rfl
      | _ => cases hform
    | unknown =>
      cases b with
      | unknown => rfl
      | _ => cases hform

theorem eq_of_renderFields (fs gs : List Field) (hfs : LegibleFields fs)
    (hgs : LegibleFields gs) (hf : FieldScalars Scalar.Formed fs)
    (hg : FieldScalars Scalar.Formed gs) (h : renderFields true fs = renderFields true gs) :
    fs = gs := by
  cases fs with
  | nil =>
    cases gs with
    | nil => rfl
    | cons g gs => cases g; cases h
  | cons f fs =>
    obtain ⟨name, t⟩ := f
    cases gs with
    | nil => cases h
    | cons g gs =>
      obtain ⟨name', t'⟩ := g
      obtain ⟨hname, ht, hrow, hfs⟩ := hfs
      obtain ⟨hname', ht', hrow', hgs⟩ := hgs
      rw [renderFields, renderFields, List.cons.injEq] at h
      obtain ⟨htype, hnames⟩ : t.fullText = t'.fullText ∧ name = name' :=
        field_eq (f := (name, t)) (g := (name', t')) hname hname' h.1
      have hinner : t.isRow → t.nullable = t'.nullable := fun he => by
        rw [hrow he, hrow']
        cases t with
        | row fs m => exact isRow_of_fullText htype.symm
        | _ => cases he
      rw [eq_of_fullText t t' ht ht' hf.1 hg.1 hinner htype,
        eq_of_renderFields fs gs hfs hgs hf.2 hg.2 h.2, hnames]
end

theorem eq_of_key {a b : SqlType} (ha : a.Legible) (hb : b.Legible) (hfa : a.Scalars Scalar.Formed)
    (hfb : b.Scalars Scalar.Formed) (h : a.key = b.key) : a = b :=
  eq_of_fullText a b ha hb hfa hfb (fun _ => congrArg TypeKey.nullable h) (congrArg TypeKey.text h)

end SqlType

end SqlAnalysis

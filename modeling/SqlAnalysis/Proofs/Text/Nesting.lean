import Mathlib.Algebra.Group.Nat.Defs
import SqlAnalysis.Proofs.Text.Joined
import SqlAnalysis.Text.Quoted

/-!
Texts with parentheses and quotes. A text that leaves neither open and has commas only inside of
them is a `Chunk`: chunks can be read off from their list, whatever they enclose. Texts in quotes
are chunks and can be read back.
-/

namespace SqlAnalysis.Text

/-- Whether all characters of a text have a property is seen from these, not from all characters
there are. -/
instance (priority := high) decidableForallMem (p : Char → Prop) [DecidablePred p]
    (cs : List Char) :
    Decidable (∀ c ∈ cs, p c) := List.decidableBAll p cs

inductive QuoteMode where
  | plain
  | quoted
  | escaped
deriving DecidableEq

/-- A place in a text: how many parentheses are open, and whether it is inside quotes. -/
structure Nesting where
  depth : Nat := 0
  mode : QuoteMode := .plain
deriving DecidableEq

namespace Nesting

def step : Nesting → Char → Option Nesting
  | ⟨d, .escaped⟩, _ => some ⟨d, .quoted⟩
  | ⟨d, .quoted⟩, c => some ⟨d, if c = '"' then .plain else if c = '\\' then .escaped else .quoted⟩
  | ⟨d, .plain⟩, c =>
    if c = '"' then some ⟨d, .quoted⟩
    else if c = '(' then some ⟨d + 1, .plain⟩
    else if c = ')' then (if d = 0 then none else some ⟨d - 1, .plain⟩)
    else some ⟨d, .plain⟩

/-- The place after a text; none if a parenthesis is closed that was not open. -/
def scan : Nesting → List Char → Option Nesting
  | s, [] => some s
  | s, c :: cs => (s.step c).bind (·.scan cs)

/-- No comma stands outside of parentheses and quotes. -/
def HidesCommas : Nesting → List Char → Prop
  | _, [] => True
  | s, c :: cs => ¬(s = {} ∧ c = ',') ∧ ∀ s', s.step c = some s' → s'.HidesCommas cs

variable {s : Nesting}

theorem scan_append : s.scan (u ++ v) = (s.scan u).bind (·.scan v) := by
  induction u generalizing s with
  | nil => rfl
  | cons c u ih =>
    rw [List.cons_append, scan, scan]
    cases s.step c with
    | none => rfl
    | some s' => exact ih

theorem hidesCommas_append : s.HidesCommas (u ++ v) ↔ s.HidesCommas u ∧
      ∀ s', s.scan u = some s' → s'.HidesCommas v := by
  induction u generalizing s with
  | nil =>
    refine ⟨fun h => ⟨trivial, ?_⟩, fun h => h.2 s rfl⟩
    rintro _ ⟨⟩
    exact h
  | cons c u ih =>
    rw [List.cons_append, HidesCommas, HidesCommas, and_assoc]
    refine and_congr_right fun _ => ?_
    rw [scan]
    cases s.step c with
    | none => exact ⟨fun _ => ⟨nofun, nofun⟩, fun _ => nofun⟩
    | some s' =>
      have ih := ih (s := s')
      constructor
      · intro h
        obtain ⟨hu, hv⟩ := ih.mp (h s' rfl)
        exact ⟨fun _ hs => Option.some.inj hs ▸ hu, hv⟩
      · rintro ⟨hu, hv⟩ _ ⟨⟩
        exact ih.mpr ⟨hu s' rfl, hv⟩

/-- The same place inside one more pair of parentheses. -/
def deeper (s : Nesting) : Nesting := ⟨s.depth + 1, s.mode⟩

theorem step_deeper (h : s.step c = some s') : s.deeper.step c = some s'.deeper := by
  obtain ⟨d, mode⟩ := s
  cases mode with
  | escaped | quoted => cases h; rfl
  | plain =>
    unfold step deeper at *
    dsimp only at *
    split at h
    · cases h
      rw [if_pos ‹_›]
    rw [if_neg ‹_›]
    split at h
    · cases h
      rw [if_pos ‹_›]
    rw [if_neg ‹_›]
    split at h
    · rw [if_pos ‹_›]
      split at h
      · cases h
      · cases h
        rename_i hd
        rw [if_neg (Nat.succ_ne_zero d)]
        exact congrArg (fun d => some (⟨d, .plain⟩ : Nesting)) (show d + 1 - 1 = d - 1 + 1 by omega)
    · cases h
      rw [if_neg ‹_›]

theorem scan_deeper (h : s.scan u = some s') :
    s.deeper.scan u = some s'.deeper ∧ s.deeper.HidesCommas u := by
  induction u generalizing s with
  | nil => cases h; exact ⟨rfl, trivial⟩
  | cons c u ih =>
    rw [scan] at h
    cases hc : s.step c with
    | none => rw [hc] at h; cases h
    | some s₁ =>
      rw [hc] at h
      obtain ⟨hscan, hhides⟩ := ih h
      refine ⟨by rw [scan, step_deeper hc]; exact hscan, ?_, ?_⟩
      · rintro ⟨hs, _⟩
        cases congrArg depth hs
      · intro s₂ hs₂
        rw [step_deeper hc] at hs₂
        exact Option.some.inj hs₂ ▸ hhides

end Nesting

open Nesting

def Whole (u : List Char) : Prop := scan {} u = some {}

/-- A text that can stand between commas. -/
structure Chunk (u : List Char) : Prop where
  whole : Whole u
  hides : HidesCommas {} u

theorem Whole.append (hu : Whole u) (hv : Whole v) : Whole (u ++ v) := by
  rw [Whole, scan_append, hu]
  exact hv

namespace Chunk

theorem append (hu : Chunk u) (hv : Chunk v) : Chunk (u ++ v) := by
  refine ⟨hu.whole.append hv.whole, hidesCommas_append.mpr ⟨hu.hides, fun s hs => ?_⟩⟩
  cases hu.whole.symm.trans hs
  exact hv.hides

theorem of_plain (h : ∀ c ∈ u, c ≠ '"' ∧ c ≠ '(' ∧ c ≠ ')' ∧ c ≠ ',') : Chunk u := by
  induction u with
  | nil => exact ⟨rfl, trivial⟩
  | cons c u ih =>
    rw [List.forall_mem_cons] at h
    obtain ⟨⟨hquote, hopen, hclose, hcomma⟩, hu⟩ := h
    have hstep : step {} c = some {} := by
      rw [step, if_neg hquote, if_neg hopen, if_neg hclose]
    have hrest := ih hu
    refine ⟨by rw [Whole, scan, hstep]; exact hrest.whole, fun h => hcomma h.2, fun s hs => ?_⟩
    cases hstep.symm.trans hs
    exact hrest.hides

theorem parens (h : Whole u) : Chunk ('(' :: (u ++ [')'])) := by
  obtain ⟨hscan, hhides⟩ := scan_deeper h
  have hopen : step {} '(' = some (deeper {}) := rfl
  constructor
  · rw [Whole, scan, hopen, Option.bind_some, scan_append, hscan]
    rfl
  · refine ⟨nofun, fun s hs => ?_⟩
    cases hopen.symm.trans hs
    refine hidesCommas_append.mpr ⟨hhides, fun s hs => ?_⟩
    cases hscan.symm.trans hs
    exact ⟨nofun, fun _ _ => trivial⟩

/-- What stands before the first comma outside of parentheses and quotes is the same. -/
theorem eq_of_append_eq (hu : Chunk u) (hv : Chunk v) (hr : r = [] ∨ r.head? = some ',')
    (hr' : r' = [] ∨ r'.head? = some ',') (h : u ++ r = v ++ r') : u = v ∧ r = r' := by
  have hprefix {u v x r r' : List Char} (hu : Chunk u) (hv : Chunk v) (hr : r = [] ∨
    r.head? = some ',') (hvx : v = u ++ x)
      (hrx : r = x ++ r') : x = [] := by
    cases x with
    | nil => rfl
    | cons c x =>
      subst hrx
      cases hr.resolve_left nofun
      have hhides : HidesCommas {} (u ++ ',' :: x) := hvx ▸ hv.hides
      have hcomma : HidesCommas {} (',' :: x) := (hidesCommas_append.mp hhides).2 _ hu.whole
      exact absurd ⟨rfl, rfl⟩ hcomma.1
  obtain ⟨x, hvx, hrx⟩ | ⟨x, hux, hrx⟩ := List.append_eq_append_iff.mp h
  · cases hprefix hu hv hr hvx hrx
    exact ⟨by simpa using hvx.symm, by simpa using hrx⟩
  · cases hprefix hv hu hr' hux hrx
    exact ⟨by simpa using hux, by simpa using hrx.symm⟩

end Chunk

/-! ### Texts in quotes -/

def hexValue (c : Char) : Nat := if c.toNat < 58 then c.toNat - 48 else c.toNat - 87

def ofHexDigits (cs : List Char) : Nat := cs.foldl (fun n c => 16 * n + hexValue c) 0

/-- What a character is read as after a backslash. -/
def unescaped (c : Char) : Char :=
  match c with
  | 'a' => Char.ofNat 7
  | 'b' => Char.ofNat 8
  | 't' => Char.ofNat 9
  | 'n' => Char.ofNat 10
  | 'v' => Char.ofNat 11
  | 'f' => Char.ofNat 12
  | 'r' => Char.ofNat 13
  | c => c

/-- Reads one character of a text in quotes. -/
def unquoteChar? : List Char → Option (Char × List Char)
  | '\\' :: 'x' :: cs => some (Char.ofNat (ofHexDigits (cs.take 2)), cs.drop 2)
  | '\\' :: 'u' :: cs => some (Char.ofNat (ofHexDigits (cs.take 4)), cs.drop 4)
  | '\\' :: 'U' :: cs => some (Char.ofNat (ofHexDigits (cs.take 8)), cs.drop 8)
  | '\\' :: c :: cs => some (unescaped c, cs)
  | c :: cs => some (c, cs)
  | [] => none

theorem length_hexDigits (width n : Nat) : (hexDigits width n).length = width := by
  induction width generalizing n with
  | zero => rfl
  | succ width ih => rw [hexDigits, List.length_append, ih]; rfl

theorem hexValue_hexDigit : ∀ n < 16, hexValue (hexDigit n) = n := by decide

theorem ofHexDigits_hexDigits : ofHexDigits (hexDigits width n) = n % 16 ^ width := by
  induction width generalizing n with
  | zero => rw [Nat.pow_zero, Nat.mod_one]; rfl
  | succ width ih =>
    have hstep : ofHexDigits (hexDigits (width + 1) n) =
        16 * ofHexDigits (hexDigits width (n / 16)) + hexValue (hexDigit (n % 16)) := by
      rw [hexDigits, ofHexDigits, List.foldl_append]
      rfl
    rw [hstep, ih, hexValue_hexDigit _ (Nat.mod_lt n (by decide)), Nat.pow_succ', Nat.mod_mul]
    omega

theorem char_of_hexDigits (h : c.toNat < 16 ^ width) (rest : List Char) :
    Char.ofNat (ofHexDigits ((hexDigits width c.toNat ++ rest).take width)) = c ∧
      (hexDigits width c.toNat ++ rest).drop width = rest := by
  have hlen := length_hexDigits width c.toNat
  rw [List.take_left' hlen, List.drop_left' hlen, ofHexDigits_hexDigits,
    Nat.mod_eq_of_lt h, Char.ofNat_toNat]
  exact ⟨rfl, rfl⟩

theorem unquoteChar?_quoteChar (c : Char) (rest : List Char) :
    unquoteChar? (quoteChar c ++ rest) = some (c, rest) := by
  have hread {width : Nat} (h : c.toNat < 16 ^ width) := char_of_hexDigits h rest
  unfold quoteChar
  split
  · subst c
    rfl
  split
  · subst c
    rfl
  split
  · rename_i hslash _
    simp only [List.singleton_append]
    unfold unquoteChar?
    split <;> simp_all
  have hchar {n : Nat} (h : c.toNat = n) : c = Char.ofNat n := by rw [← h, Char.ofNat_toNat]
  split
  iterate 7
    rw [hchar ‹_›]
    rfl
  split
  · have hlt : c.toNat < 16 ^ 2 := Nat.lt_trans ‹_› (by decide)
    obtain ⟨hc, hrest⟩ := hread hlt
    exact congrArg₂ (fun c cs => some (c, cs)) hc hrest
  split
  · have hlt : c.toNat < 16 ^ 4 := ‹_›
    obtain ⟨hc, hrest⟩ := hread hlt
    exact congrArg₂ (fun c cs => some (c, cs)) hc hrest
  · have hlt : c.toNat < 16 ^ 8 := c.val.toNat_lt
    obtain ⟨hc, hrest⟩ := hread hlt
    exact congrArg₂ (fun c cs => some (c, cs)) hc hrest

theorem head?_quoteChar_ne : (quoteChar c ++ rest).head? ≠ some '"' := by
  unfold quoteChar
  split
  · nofun
  split
  · nofun
  split
  · simpa
  split
  iterate 7 nofun
  split
  · nofun
  · split <;> nofun

theorem quoteChars_append_injective (h : quoteChars u ++ r = quoteChars v ++ r') :
    u = v ∧ r = r' := by
  have hbody {w r : List Char} : quoteChars w ++ r = '"' :: (w.flatMap quoteChar ++ '"' :: r) := by
    rw [quoteChars, List.cons_append, List.append_assoc]
    rfl
  rw [hbody, hbody, List.cons.injEq] at h
  replace h := h.2
  induction u generalizing v with
  | nil =>
    cases v with
    | nil => exact ⟨rfl, (List.cons.inj h).2⟩
    | cons c v =>
      rw [List.flatMap_cons, List.append_assoc] at h
      exact absurd (congrArg List.head? h).symm head?_quoteChar_ne
  | cons c u ih =>
    rw [List.flatMap_cons, List.append_assoc] at h
    cases v with
    | nil => exact absurd (congrArg List.head? h) head?_quoteChar_ne
    | cons d v =>
      rw [List.flatMap_cons, List.append_assoc] at h
      have hread := congrArg unquoteChar? h
      rw [unquoteChar?_quoteChar, unquoteChar?_quoteChar, Option.some.injEq, Prod.mk.injEq] at hread
      obtain ⟨rfl, hread⟩ := hread
      obtain ⟨rfl, hr⟩ := ih hread
      exact ⟨rfl, hr⟩

theorem quote_append_injective (h : (quote a).toList ++ r = (quote b).toList ++ r') :
    a = b ∧ r = r' := by
  rw [quote, quote, String.toList_ofList, String.toList_ofList] at h
  exact (quoteChars_append_injective h).imp_left String.toList_inj.mp

section Scan

variable (d : Nat)

theorem scan_quoted (h : ∀ c ∈ u, c ≠ '"' ∧ c ≠ '\\') :
    scan ⟨d, .quoted⟩ u = some ⟨d, .quoted⟩ ∧ HidesCommas ⟨d, .quoted⟩ u := by
  induction u with
  | nil => exact ⟨rfl, trivial⟩
  | cons c u ih =>
    rw [List.forall_mem_cons] at h
    have hstep : step ⟨d, .quoted⟩ c = some ⟨d, .quoted⟩ := by rw [step, if_neg h.1.1, if_neg h.1.2]
    obtain ⟨hscan, hhides⟩ := ih h.2
    refine ⟨by rw [scan, hstep]; exact hscan, nofun, fun s hs => ?_⟩
    cases hstep.symm.trans hs
    exact hhides

theorem scan_escape (h : ∀ c ∈ u, c ≠ '"' ∧ c ≠ '\\') :
    scan ⟨d, .quoted⟩ ('\\' :: c :: u) = some ⟨d, .quoted⟩ ∧
      HidesCommas ⟨d, .quoted⟩ ('\\' :: c :: u) := by
  obtain ⟨hscan, hhides⟩ := scan_quoted d h
  refine ⟨hscan, nofun, ?_⟩
  rintro _ ⟨⟩
  refine ⟨nofun, ?_⟩
  rintro _ ⟨⟩
  exact hhides

theorem mem_hexDigits (h : c ∈ hexDigits width n) : c ≠ '"' ∧ c ≠ '\\' := by
  have hdigit : ∀ n < 16, hexDigit n ≠ '"' ∧ hexDigit n ≠ '\\' := by decide
  induction width generalizing n with
  | zero => cases h
  | succ width ih =>
    rw [hexDigits, List.mem_append, List.mem_singleton] at h
    obtain h | rfl := h
    · exact ih h
    · exact hdigit _ (Nat.mod_lt n (by decide))

theorem scan_quoteChar : scan ⟨d, .quoted⟩ (quoteChar c) = some ⟨d, .quoted⟩ ∧
      HidesCommas ⟨d, .quoted⟩ (quoteChar c) := by
  unfold quoteChar
  split
  · exact scan_escape d nofun
  split
  · exact scan_escape d nofun
  split
  · exact scan_quoted d (List.forall_mem_singleton.mpr ⟨‹_›, ‹_›⟩)
  split
  iterate 7 exact scan_escape d nofun
  split
  · exact scan_escape d fun _ => mem_hexDigits
  · split <;> exact scan_escape d fun _ => mem_hexDigits

end Scan

theorem Chunk.quoted (u : List Char) : Chunk (quoteChars u) := by
  have hbody : scan ⟨0, .quoted⟩ (u.flatMap quoteChar) = some ⟨0, .quoted⟩ ∧
      HidesCommas ⟨0, .quoted⟩ (u.flatMap quoteChar) := by
    induction u with
    | nil => exact ⟨rfl, trivial⟩
    | cons c u ih =>
      obtain ⟨hscan, hhides⟩ := scan_quoteChar 0
      rw [List.flatMap_cons, scan_append, hscan, hidesCommas_append]
      refine ⟨ih.1, hhides, fun s hs => ?_⟩
      cases hscan.symm.trans hs
      exact ih.2
  have hopen : step {} '"' = some ⟨0, .quoted⟩ := rfl
  constructor
  · rw [Whole, quoteChars, scan, hopen, Option.bind_some, scan_append, hbody.1]
    rfl
  · refine ⟨nofun, fun s hs => ?_⟩
    cases hopen.symm.trans hs
    refine hidesCommas_append.mpr ⟨hbody.2, fun s hs => ?_⟩
    cases hbody.1.symm.trans hs
    exact ⟨nofun, fun _ _ => trivial⟩

theorem Chunk.quote (s : String) : Chunk (quote s).toList := by
  rw [Text.quote, String.toList_ofList]
  exact .quoted _

end SqlAnalysis.Text

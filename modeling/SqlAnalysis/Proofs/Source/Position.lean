import Mathlib.Data.List.Forall2
import Mathlib.Data.List.TakeWhile
import SqlAnalysis.Source

/-!
Places in a source text. Counted in bytes, a line starts behind the last newline before a place, and
a file behind the newline that ends the file before it. What is cut out of the whole text for a line
is that line of the text that the file was given.
-/

namespace SqlAnalysis

namespace Text

def bytes (cs : List Char) : List UInt8 := cs.flatMap String.utf8EncodeChar

variable (cs ds : List Char)

theorem bytes_append : bytes (cs ++ ds) = bytes cs ++ bytes ds := List.flatMap_append

theorem bytes_newline (cs : List Char) : bytes ('\n' :: cs) = 10 :: bytes cs := rfl

theorem length_bytes (cs : List Char) : (bytes cs).length = byteLength cs := by
  induction cs with
  | nil => rfl
  | cons c cs ih =>
    rw [bytes, List.flatMap_cons, List.length_append, String.length_utf8EncodeChar,
      byteLength, ← ih, bytes]

theorem utf8ByteSize_ofList (cs : List Char) : (String.ofList cs).utf8ByteSize = byteLength cs := by
  rw [← length_bytes]
  simp [String.utf8ByteSize, String.toByteArray_ofList, List.utf8Encode, bytes]

theorem byteLength_append : byteLength (cs ++ ds) = byteLength cs + byteLength ds := by
  rw [← length_bytes, ← length_bytes, ← length_bytes, bytes_append, List.length_append]

theorem byteLength_toList (s : String) : byteLength s.toList = s.utf8ByteSize := by
  rw [← utf8ByteSize_ofList, String.ofList_toList]

theorem splitBytes_append : takeBytes (byteLength cs) (cs ++ ds) = cs ∧
    dropBytes (byteLength cs) (cs ++ ds) = ds := by
  induction cs with
  | nil => cases ds <;> exact ⟨rfl, rfl⟩
  | cons c cs ih =>
    obtain ⟨n, hn⟩ := Nat.exists_eq_add_of_lt c.utf8Size_pos
    have hlength : byteLength (c :: cs) = n + byteLength cs + 1 := by rw [byteLength]; omega
    have hrest : n + byteLength cs + 1 - c.utf8Size = byteLength cs := by omega
    rw [hlength, List.cons_append, takeBytes, dropBytes, hrest, ih.1, ih.2]
    exact ⟨rfl, rfl⟩

theorem newline_notMem_bytes {cs : List Char} (h : '\n' ∉ cs) : 10 ∉ bytes cs := by
  intro hmem
  obtain ⟨c, hc, hmem⟩ := List.mem_flatMap.mp hmem
  have hbyte (n : Nat) : 10 = UInt8.ofNat n ↔ n % 256 = 10 := by
    rw [← UInt8.toNat_inj, UInt8.toNat_ofNat', eq_comm]
    rfl
  have hcode : c.val.toNat = 10 := by
    unfold String.utf8EncodeChar at hmem
    dsimp only at hmem
    -- The bytes of a code above 127 are above 127 as well.
    split_ifs at hmem <;> simp only [List.mem_cons, List.not_mem_nil, or_false,
      hbyte] at hmem <;> omega
  have hnewline : c = '\n' := Char.ext (UInt32.toNat_inj.mp (hcode.trans rfl))
  exact h (hnewline ▸ hc)

end Text

namespace SourceFile

open Text

/-- The place is in the line or at its end, and the line starts at `start`. -/
def IsLine (bs : List UInt8) (offset start : Nat) (line : List UInt8) : Prop :=
  ∃ before rest, bs = before ++ line ++ rest ∧ before.length = start ∧ start ≤ offset ∧ offset ≤
    start + line.length ∧ 10 ∉ line ∧ (∀ b ∈ before.getLast?, b = 10) ∧ ∀ b ∈ rest.head?, b = 10

/-- The characters are the lines, each ended by a newline, the last perhaps not. -/
inductive Lined : List Char → List (List Char) → Prop
  | last (h : '\n' ∉ l) (hr : r = [] ∨ r = ['\n']) : Lined (l ++ r) [l]
  | cons (h : '\n' ∉ l) (hcs : Lined cs ls) : Lined (l ++ '\n' :: cs) (l :: ls)

theorem Lined.push (hc : c ≠ '\n') (h : Lined cs (l :: ls)) : Lined (c :: cs) ((c :: l) :: ls) := by
  have hl (h : '\n' ∉ l) : '\n' ∉ c :: l := by simp [hc.symm, h]
  cases h with
  | last h hr => exact .last (hl h) hr
  | cons h hcs => exact .cons (hl h) hcs

def starts (s : Nat) : List (List Char) → List Nat
  | [] => []
  | l :: ls => s :: starts (s + byteLength l + 1) ls

theorem length_starts (s : Nat) (ls : List (List Char)) : (starts s ls).length = ls.length := by
  induction ls generalizing s with
  | nil => rfl
  | cons l ls ih => rw [starts, List.length_cons, List.length_cons, ih]

theorem exists_lined (cs : List Char) :
    ∃ ls, Lined cs ls ∧ ∀ s, s :: lineStarts s cs = starts s ls := by
  induction cs with
  | nil => exact ⟨[[]], .last List.not_mem_nil (.inl rfl), fun _ => rfl⟩
  | cons c cs ih =>
    obtain ⟨ls, hls, hstarts⟩ := ih
    by_cases hc : c = '\n'
    · subst hc
      by_cases hcs : cs = []
      · subst hcs
        exact ⟨[[]], .last (l := []) List.not_mem_nil (.inr rfl), fun _ => rfl⟩
      · refine ⟨[] :: ls, .cons (l := []) List.not_mem_nil hls, fun s => ?_⟩
        rw [lineStarts, if_pos ⟨rfl, hcs⟩, starts, byteLength, Nat.add_zero, ← hstarts (s + 1)]
        rfl
    · cases hls with
      | last h hr =>
        exact ⟨_, (Lined.last h hr).push hc, fun s => by
          rw [lineStarts, if_neg (fun h => hc h.1)]
          exact congrArg (s :: ·) (List.cons.inj (hstarts (s + c.utf8Size))).2⟩
      | @cons l cs ls h hcs =>
        refine ⟨_, (Lined.cons h hcs).push hc, fun s => ?_⟩
        rw [lineStarts, if_neg (fun h => hc h.1), starts, byteLength,
          (List.cons.inj (hstarts (s + c.utf8Size))).2, Nat.add_assoc s]

/-- The last line that starts at or before the place is number `k` and the line around it, unless
the place is behind the text. -/
def Finds (s : Nat) (cs : List Char) (ls : List (List Char)) (offset : Nat) : Prop :=
  ∃ k start l, ((starts s ls).takeWhile (· ≤ s + offset)).length = k + 1 ∧
    (starts s ls)[k]? = some (s + start) ∧ ls[k]? = some l ∧ start ≤ offset ∧
    (IsLine (bytes cs) offset start (bytes l) ∧ ((bytes cs).take offset).count 10 = k ∨
      k + 1 = ls.length ∧ (bytes cs).length ≤ offset)

theorem finds_first (h : '\n' ∉ l) (ho : offset ≤ byteLength l)
    (hr : ∀ b ∈ (bytes r).head?, b = 10) : Finds s (l ++ r) (l :: ls) offset := by
  have hl := newline_notMem_bytes h
  rw [← length_bytes] at ho
  refine ⟨0, 0, l, ?_, rfl, rfl, Nat.zero_le _,
    .inl ⟨⟨[], bytes r, bytes_append l r, rfl, Nat.zero_le _, by omega, hl, nofun, hr⟩, ?_⟩⟩
  · cases ls with
    | nil => simp [starts]
    | cons l' ls =>
      have hnext : ¬ s + byteLength l + 1 ≤ s + offset := by rw [← length_bytes]; omega
      simp [starts, hnext]
  · rw [bytes_append, List.take_append_of_le_length ho]
    exact List.count_eq_zero_of_not_mem fun hmem => hl (List.mem_of_mem_take hmem)

theorem IsLine.append (h : IsLine bs offset first line) :
    IsLine (cs ++ 10 :: bs) (cs.length + 1 + offset) (cs.length + 1 + first) line := by
  obtain ⟨before, rest, rfl, rfl, hle, hle', hnone, hbefore, hrest⟩ := h
  refine ⟨cs ++ 10 :: before, rest,
    by simp, by simp; omega, by omega, by omega, hnone, fun b hb => ?_, hrest⟩
  cases before with
  | nil => simpa [eq_comm] using hb
  | cons c before => exact hbefore b (by simpa [List.getLast?_append] using hb)

theorem Finds.append (h : '\n' ∉ l) (hcs : Finds (s + byteLength l + 1) cs ls offset) :
    Finds s (l ++ '\n' :: cs) (l :: ls) (byteLength l + 1 + offset) := by
  obtain ⟨k, start, line, hk, hstart, hline, hle, hcases⟩ := hcs
  have hplace : s + byteLength l + 1 + offset = s + (byteLength l + 1 + offset) := by omega
  have hlen := length_bytes l
  refine ⟨k + 1, byteLength l + 1 + start, line, ?_, ?_, hline, by omega, ?_⟩
  · rw [starts, List.takeWhile_cons_of_pos (by simp), List.length_cons, ← hplace, hk]
  · rw [starts, List.getElem?_cons_succ, hstart]
    congr 1
    omega
  · rw [bytes_append, bytes_newline]
    refine hcases.imp (fun ⟨hisLine, hcount⟩ => ⟨hlen ▸ hisLine.append, ?_⟩) fun ⟨hlast, hle⟩ =>
      ⟨congrArg (· + 1) hlast, ?_⟩
    · rw [List.take_append, List.take_of_length_le (by omega), List.count_append, ← hlen,
        List.count_eq_zero_of_not_mem (newline_notMem_bytes h), Nat.add_assoc,
        Nat.add_sub_cancel_left, Nat.add_comm 1, List.take_succ_cons, List.count_cons_self,
        hcount, Nat.zero_add]
    · rw [List.length_append, List.length_cons]
      omega

theorem Lined.finds (h : Lined cs ls) (s offset : Nat) : Finds s cs ls offset := by
  induction h generalizing s offset with
  | @last l r h hr =>
    by_cases ho : offset < (bytes (l ++ r)).length
    · rw [bytes_append, List.length_append, length_bytes] at ho
      rcases hr with rfl | rfl
      · exact finds_first h (Nat.le_of_lt ho) nofun
      · exact finds_first h (Nat.le_of_lt_succ ho) (by simp [bytes_newline])
    · exact ⟨0, 0, l, by simp [starts], rfl, rfl, Nat.zero_le _, .inr ⟨rfl, Nat.le_of_not_lt ho⟩⟩
  | @cons l cs ls h hcs ih =>
    rcases Nat.lt_or_ge (byteLength l) offset with hlt | hge
    · obtain ⟨o, rfl⟩ := Nat.exists_eq_add_of_le hlt
      exact (ih _ o).append h
    · exact finds_first h hge (by simp [bytes_newline])

theorem Lined.exists_line (h : Lined cs ls) (hl : ls[k]? = some l) (s : Nat) : '\n' ∉ l ∧
      ∃ before tail after, cs = before ++ (l ++ tail) ++ after ∧ (tail = [] ∨ tail = ['\n']) ∧
      (starts s ls)[k]? = some (s + byteLength before) ∧ ((starts s ls)[k + 1]?).getD
      (s + byteLength cs) = s + byteLength before + byteLength (l ++ tail) := by
  induction h generalizing k s with
  | @last line r h hr =>
    cases k with
    | zero =>
      cases hl
      exact ⟨h, [], r, [], by simp, hr, rfl, rfl⟩
    | succ k => cases hl
  | @cons line cs ls h hcs ih =>
    cases k with
    | zero =>
      cases hl
      refine ⟨h, [], ['\n'], cs, by simp, .inr rfl, rfl, ?_⟩
      cases hcs with
      | last | cons =>
        rw [byteLength_append l ['\n'], byteLength, Nat.add_zero]
        rfl
    | succ k =>
      obtain ⟨hnone, before, tail, after, rfl, htail, hstart, hend⟩ :=
        ih hl (s + byteLength line + 1)
      have hsize : byteLength (line ++ '\n' :: before) = byteLength line +
          1 + byteLength before := by
        rw [byteLength_append, byteLength, show ('\n').utf8Size = 1 from rfl, Nat.add_assoc]
      refine ⟨hnone, line ++ '\n' :: before, tail, after, by simp, htail, ?_, ?_⟩
      · rw [starts, List.getElem?_cons_succ, hstart, hsize]
        congr 1
        omega
      · rw [starts, List.getElem?_cons_succ, hsize]
        have hrest := byteLength_append (line ++ ['\n']) (before ++ (l ++ tail) ++ after)
        rw [byteLength_append line, show byteLength ['\n'] = 1 from rfl,
          List.append_assoc line] at hrest
        rw [show line ++ '\n' :: (before ++ (l ++ tail) ++ after) =
          line ++ (['\n'] ++ (before ++ (l ++ tail) ++ after)) from rfl,
          hrest, show s + (byteLength line + 1 + byteLength (before ++ (l ++ tail) ++ after)) =
            s + byteLength line + 1 + byteLength (before ++ (l ++ tail) ++ after) by omega, hend]
        omega

/-- The file is that of a given text, with its name, and the text stands in the whole text where the
file starts. -/
structure Stands (whole : String) (f : SourceFile) (given : String × String) : Prop where
  file : f = ofText given.1 f.start given.2
  place : ∃ before after, whole = before ++ given.2 ++ after ∧ before.utf8ByteSize = f.start

variable {f : SourceFile} {given : String × String}

/-- The line found for a place at or behind the start of a text, and what is cut out of the whole
text for it. -/
theorem Stands.line (h : Stands whole f given) (offset : Nat) :
    f.lineIndex offset < f.lines.length ∧ f.lineStart offset ≤ offset ∧
      (IsLine (bytes given.2.toList) offset (f.lineStart offset) (bytes
      (f.lineOfPos whole (f.start + offset)).toList) ∧ ((bytes given.2.toList).take offset).count
      10 = f.lineIndex offset ∨ f.lineIndex offset + 1 = f.lines.length ∧ f.size ≤ offset) := by
  obtain ⟨hfile, before, after, hwhole, hbefore⟩ := h
  obtain ⟨ls, hls, hlines⟩ := exists_lined given.2.toList
  have hlines : f.lines = starts 0 ls := by rw [hfile]; exact hlines 0
  have hsize : f.size = byteLength given.2.toList := by rw [hfile, byteLength_toList]; rfl
  obtain ⟨k, start, l, hk, hstart, hl, hle, hcases⟩ := hls.finds 0 offset
  obtain ⟨hnone, first, tail, rest, htext, htail, hfirst, hlast⟩ := hls.exists_line hl 0
  simp only [Nat.zero_add] at hstart hfirst hlast
  obtain rfl : start = byteLength first := Option.some.inj (hstart.symm.trans hfirst)
  have hindex : f.lineIndex offset = k := by
    rw [lineIndex, hlines]
    exact Nat.sub_eq_of_eq_add (by simpa using hk)
  have hlineStart : f.lineStart offset = byteLength first := by
    rw [lineStart, hindex, hlines, hstart, Option.getD_some]
  have hline : f.lineOfPos whole (f.start + offset) = String.ofList l := by
    have hplace : whole.toList = (before.toList ++ first) ++
        ((l ++ tail) ++ (rest ++ after.toList)) := by
      rw [hwhole, String.toList_append, String.toList_append, htext]
      simp
    have hdrop : f.start + byteLength first = byteLength (before.toList ++ first) := by
      rw [byteLength_append, byteLength_toList, hbefore]
    rw [lineOfPos, Int.add_comm, Int.add_sub_cancel, hlineStart, hindex, hlines,
      hsize, hlast, Nat.add_sub_cancel_left, hdrop, hplace, (splitBytes_append _ _).2,
      (splitBytes_append _ _).1]
    rcases htail with rfl | rfl
    · rw [List.append_nil, if_neg fun h => hnone (List.mem_of_getLast? h)]
    · rw [List.getLast?_concat, if_pos rfl, List.dropLast_concat]
  rw [hline, hindex, hlineStart, String.toList_ofList, hlines, length_starts, hsize,
    ← length_bytes given.2.toList]
  exact ⟨(List.getElem?_eq_some_iff.mp hl).1, hle, hcases⟩

theorem lineIndex_mono (f : SourceFile) (h : a ≤ b) : f.lineIndex a ≤ f.lineIndex b := by
  have hlength (ls : List Nat) :
      (ls.takeWhile fun (l : Nat) => (l : Int) ≤ a).length ≤
      (ls.takeWhile fun (l : Nat) => (l : Int) ≤ b).length := by
    induction ls with
    | nil => exact Nat.le_refl 0
    | cons l ls ih =>
      by_cases ha : (l : Int) ≤ a
      · simpa [ha, Int.le_trans ha h] using ih
      · simp [ha]
  exact Nat.sub_le_sub_right (hlength _) 1

theorem position_add (f : SourceFile) (offset : Nat) : f.position (f.start + offset) =
    ⟨f.start + offset, offset, f.lineIndex offset + 1, offset - f.lineStart offset + 1⟩ := by
  rw [position, if_neg (by omega), Int.add_comm, Int.add_sub_cancel]

open Located in
/-- A mark does not start before its line; where more lines follow, it ends with its line. -/
theorem Stands.mark_nonneg (h : Stands whole f given) {offset offset' : Nat}
    (hle : offset ≤ offset') : 0 ≤ markIndent (f.position (f.start + offset)) ∧
      0 ≤ markWidth (f.lineOfPos whole (f.start + offset)) (f.position (f.start + offset))
      (f.position (f.start + offset')) := by
  obtain ⟨-, hstart, hcases⟩ := h.line offset
  rw [position_add, position_add, markWidth]
  refine ⟨by simp only [markIndent]; omega, ?_⟩
  split_ifs with hline
  · have hindex : f.lineIndex offset = f.lineIndex offset' := by simp only at hline; omega
    simp only [lineStart, hindex]
    omega
  · rcases hcases with ⟨⟨_, _, _, _, _, hend, _⟩, -⟩ | ⟨hlast, -⟩
    · rw [length_bytes, byteLength_toList] at hend
      simp only
      omega
    · have hindex := f.lineIndex_mono (Int.ofNat_le.mpr hle)
      have hlength := (h.line offset').1
      simp only at hline
      omega

end SourceFile

namespace Source

open SourceFile Text Located

variable {f : SourceFile} {n : Nat}

/-- The files of texts that stand one after the other from `start` on, each ended by a newline. -/
def laidOut : Nat → List (String × String) → List SourceFile
  | _, [] => []
  | start, (name, text) :: rest =>
    .ofText name start text :: laidOut (start + text.utf8ByteSize + 1) rest

def ended (gs : List (String × String)) : String := String.join (gs.map fun g => g.2 ++ "\n")

variable (includes : List (String × String))

/-- The texts that are put together: the included ones and then the statement, which has no name. -/
def given (statement : String) : List (String × String) :=
  includes ++ if statement = "" ∧ includes ≠ [] then [] else [("", statement)]

theorem ended_cons (g : String × String) (gs : List (String × String)) :
    ended (g :: gs) = g.2 ++ "\n" ++ ended gs := by
  rw [ended, List.map_cons, String.join_cons]
  rfl

theorem laidOut_append (n : Nat) (gs hs : List (String × String)) :
    laidOut n (gs ++ hs) = laidOut n gs ++ laidOut (n + (ended gs).utf8ByteSize) hs := by
  induction gs generalizing n with
  | nil => rfl
  | cons g gs ih =>
    rw [List.cons_append, laidOut, laidOut, ih, ended_cons, String.utf8ByteSize_append,
      String.utf8ByteSize_append, show ("\n").utf8ByteSize = 1 from rfl,
      List.cons_append, Nat.add_assoc n, Nat.add_assoc n]

theorem concat_eq (statement : String) : concat includes statement =
    { text := ended includes ++ statement, files := laidOut 0 (given includes statement) } := by
  have hincluded (s : Source) : includes.foldl (fun s g => s.add g.1 g.2 "\n") s =
      { text := s.text ++ ended includes,
        files := s.files ++ laidOut s.text.utf8ByteSize includes } := by
    induction includes generalizing s with
    | nil => simp [ended, laidOut]
    | cons g gs ih =>
      rw [List.foldl_cons, ih, ended_cons, laidOut]
      simp [add, String.append_assoc, Nat.add_assoc, show ("\n").utf8ByteSize = 1 from rfl]
  have hnil : laidOut 0 includes ≠ [] ↔ includes ≠ [] := by cases includes <;> simp [laidOut]
  rw [concat, hincluded, given]
  simp only [String.empty_append, List.nil_append, String.utf8ByteSize_empty, hnil]
  split_ifs with h
  · rw [h.1, String.append_empty, List.append_nil]
  · rw [add, laidOut_append, Nat.zero_add, String.append_empty]
    rfl

theorem stands_laidOut (gs : List (String × String)) (before after : String) :
    List.Forall₂ (Stands (before ++ ended gs ++ after)) (laidOut before.utf8ByteSize gs) gs := by
  induction gs generalizing before with
  | nil => exact .nil
  | cons g gs ih =>
    have hrest := ih (before ++ g.2 ++ "\n")
    rw [String.utf8ByteSize_append, String.utf8ByteSize_append,
      show ("\n").utf8ByteSize = 1 from rfl] at hrest
    rw [ended_cons, ← String.append_assoc, ← String.append_assoc]
    exact .cons ⟨rfl, before, "\n" ++ ended gs ++ after, by simp [String.append_assoc], rfl⟩ hrest

theorem stands_concat (statement : String) :
    List.Forall₂ (Stands (concat includes statement).text) (concat includes statement).files
      (given includes statement) := by
  rw [concat_eq, given]
  have hincluded := stands_laidOut includes "" statement
  rw [String.empty_append] at hincluded
  split_ifs
  · rwa [List.append_nil]
  · rw [laidOut_append, Nat.zero_add]
    exact List.rel_append hincluded (.cons ⟨rfl, ended includes, "", by simp, rfl⟩ .nil)

theorem exists_stands (h : List.Forall₂ (Stands whole) fs gs) (hf : f ∈ fs) :
    ∃ g, Stands whole f g := by
  induction h with
  | nil => cases hf
  | @cons _ g _ _ hfg _ ih =>
    rcases List.mem_cons.mp hf with rfl | hf
    · exact ⟨g, hfg⟩
    · exact ih hf

theorem le_start (hf : f ∈ laidOut n gs) : n ≤ f.start := by
  induction gs generalizing n with
  | nil => cases hf
  | cons g gs ih =>
    rcases List.mem_cons.mp hf with rfl | hf
    · exact Nat.le_refl n
    · exact Nat.le_trans (by omega) (ih hf)

theorem getLast?_laidOut (hf : f ∈ laidOut n gs) (ho : offset < f.size) :
    ((laidOut n gs).takeWhile fun g => (g.start : Int) ≤ f.start + offset).getLast? = some f := by
  induction gs generalizing n with
  | nil => cases hf
  | cons g gs ih =>
    rw [laidOut] at hf ⊢
    rcases List.mem_cons.mp hf with rfl | hmem
    · have hfirst : (n : Int) ≤ n + offset := by omega
      rw [List.takeWhile_cons_of_pos (by exact decide_eq_true hfirst)]
      cases gs with
      | nil => rfl
      | cons g' gs =>
        have hnext : ¬ ((n + g.2.utf8ByteSize + 1 : Nat) : Int) ≤ n + offset := by
          have ho : offset < g.2.utf8ByteSize := ho
          omega
        rw [laidOut, List.takeWhile_cons_of_neg (by exact mt of_decide_eq_true hnext),
          List.getLast?_singleton]
    · have hle := le_start hmem
      have hfirst : (n : Int) ≤ f.start + offset := by omega
      rw [List.takeWhile_cons_of_pos (by exact decide_eq_true hfirst),
        List.getLast?_cons, ih hmem, Option.getD_some]

theorem exists_fileOf? (statement : String) {pos : Int} (hpos : 0 ≤ pos) :
    ∃ f ∈ (concat includes statement).files, (concat includes statement).fileOf? pos = some f ∧
      f.start ≤ pos := by
  have hstart : ∃ g fs, (concat includes statement).files = g :: fs ∧ g.start = 0 := by
    rw [concat_eq, given]
    cases includes with
    | nil => exact ⟨_, _, by rw [if_neg (fun h => h.2 rfl)]; rfl, rfl⟩
    | cons i includes => exact ⟨_, _, rfl, rfl⟩
  obtain ⟨g, fs, hfiles, hg⟩ := hstart
  have hne : (concat includes statement).files.takeWhile (fun f => (f.start : Int) ≤ pos) ≠ [] := by
    rw [hfiles, List.takeWhile_cons_of_pos (by simp only [decide_eq_true_eq]; omega)]
    exact List.cons_ne_nil _ _
  have hmem := List.getLast_mem hne
  refine ⟨_, (List.takeWhile_sublist _).subset hmem,
    by rw [fileOf?, List.getLast?_eq_some_getLast hne], ?_⟩
  simpa using List.mem_takeWhile_imp hmem

/-- The files of texts that are put together are those texts, with their names, and stand in the
whole text where they start. A place in a file is reported by that file and by the line around it,
and the mark under a line can be drawn. -/
theorem position_exact (includes : List (String × String)) (statement : String) :
    let s : Source := concat includes statement
    s.text = ended includes ++ statement ∧
    List.Forall₂ (fun f given => Stands s.text f given ∧ ∀ offset < f.size,
      let pos : Int := f.start + offset
      let bs := bytes given.2.toList
      s.fileOf? pos = some f ∧ (f.position pos).line = 1 + (bs.take offset).count 10 ∧
        ∃ start : Nat, start + ((f.position pos).column - 1) = offset ∧
          IsLine bs offset start (bytes (f.lineOfPos s.text pos).toList))
          s.files (given includes statement) ∧
    ∀ e : Located, 0 ≤ e.pos → e.pos < e.stop → ∃ f, e.file? (some s) = some f ∧
      0 ≤ markIndent (f.position e.pos) ∧
      0 ≤ markWidth (f.lineOfPos s.text e.pos) (f.position e.pos) (f.position (e.stop - 1)) := by
  intro s
  have hstands := stands_concat includes statement
  refine ⟨congrArg Source.text (concat_eq includes statement), ?_, fun e hpos hstop => ?_⟩
  · refine (List.forall₂_iff_zip.mpr ⟨hstands.length_eq, fun {f g} hzip => ?_⟩)
    have hf := (List.forall₂_iff_zip.mp hstands).2 hzip
    refine ⟨hf, fun offset ho => ?_⟩
    have hfile : s.fileOf? (f.start + offset) = some f := by
      have hfiles : s.files = laidOut 0 (given includes statement) :=
        congrArg Source.files (concat_eq includes statement)
      rw [fileOf?, hfiles, getLast?_laidOut (hfiles ▸ (List.of_mem_zip hzip).1) ho]
    obtain ⟨-, hle, ⟨hline, hcount⟩ | ⟨-, hsize⟩⟩ := hf.line offset
    · refine ⟨hfile, ?_, f.lineStart offset, ?_, hline⟩
      · rw [position_add, hcount]
        exact Int.add_comm _ _
      · rw [position_add]
        simp only
        omega
    · omega
  · obtain ⟨f, hf, hfile, hle⟩ := exists_fileOf? includes statement hpos
    obtain ⟨g, hg⟩ := exists_stands hstands hf
    obtain ⟨offset, hoffset⟩ := Int.le.dest hle
    obtain ⟨offset', hoffset'⟩ : ∃ o : Nat, (f.start : Int) + o = e.stop - 1 :=
      Int.le.dest (by omega)
    refine ⟨f, by rw [file?, if_neg (by omega)]; exact hfile, ?_⟩
    rw [← hoffset, ← hoffset']
    exact hg.mark_nonneg (by omega)

/-- The third line of the second file, which starts with a character of two bytes. -/
theorem position_exact_included :
    let s : Source := concat [("a", "x\ny\n"), ("b", "é\n\nz")] "w"
    ∃ f ∈ s.files, f.name = "b" ∧ s.fileOf? 9 = some f ∧ (f.position 9).line = 3 ∧
      f.lineOfPos s.text 9 = "z" := by
  intro s
  obtain ⟨-, hfiles, -⟩ := position_exact [("a", "x\ny\n"), ("b", "é\n\nz")] "w"
  cases hfiles with
  | cons _ hfiles =>
    cases hfiles with
    | cons hb _ =>
      obtain ⟨hstands, hplaces⟩ := hb
      obtain ⟨hfile, hline, -⟩ := hplaces 4 (by decide)
      exact ⟨_, List.mem_cons_of_mem _ List.mem_cons_self, congrArg SourceFile.name hstands.file,
        hfile, hline, by decide⟩

end Source

end SqlAnalysis

import SqlAnalysis.Number.Digits
import SqlAnalysis.Text.Blank

/-!
Differences between two texts, line by line. The longest run of lines that both texts share is kept,
and what stands before and after it is compared in the same way. `old_of_diff` and `new_of_diff` say
that a difference holds both texts.
-/

namespace SqlAnalysis

/-- Lines that both texts have, or lines of the old text with those that stand in their place. -/
inductive Edit (α : Type) where
  | keep (lines : List α)
  | change (old new : List α)
deriving Repr, DecidableEq

namespace Edit

def old : Edit α → List α
  | .keep ls => ls
  | .change old _ => old

def new : Edit α → List α
  | .keep ls => ls
  | .change _ new => new

end Edit

namespace LineDiff

def merge : List (Edit α) → List (Edit α)
  | [] => []
  | .change [] [] :: es => merge es
  | .change old new :: es => .change old new :: merge es
  | .keep ls :: es =>
    match merge es with
    | .keep more :: es => .keep (ls ++ more) :: es
    | es => .keep ls :: es

theorem merge_old (es : List (Edit α)) : (merge es).flatMap Edit.old = es.flatMap Edit.old := by
  fun_induction merge es <;> simp_all [Edit.old]

theorem merge_new (es : List (Edit α)) : (merge es).flatMap Edit.new = es.flatMap Edit.new := by
  fun_induction merge es <;> simp_all [Edit.new]

variable [DecidableEq α]

/-! ### Runs of common lines -/

structure Run where
  left : Nat := 0
  right : Nat := 0
  size : Nat := 0
deriving Repr, DecidableEq

def common : List α → List α → Nat
  | x :: xs, y :: ys => if x = y then common xs ys + 1 else 0
  | _, _ => 0

/-- From the lengths of the runs that end just before each line of the second text, those of the
runs that end with the line `x` of the first and each line of the second. Runs are made of `usable`
lines. -/
def runRow (usable : α → Bool) (x : α) : Nat → List α → List Nat → List Nat
  | diagonal, y :: ys, n :: ns =>
    (if x = y ∧ usable y then diagonal + 1 else 0) :: runRow usable x n ys ns
  | _, _, _ => []

def longerRun (i : Nat) (best : Run) (row : List Nat) : Run :=
  row.zipIdx.foldl (fun best (size, j) =>
    if best.size < size then { left := i + 1 - size, right := j + 1 - size, size } else best) best

/-- The longest run of usable lines; of several, the first in the first text, then in the second. -/
def longestFrom (usable : α → Bool) (ys : List α) : Nat → Run → List Nat → List α → Run
  | _, best, _, [] => best
  | i, best, row, x :: xs =>
    let row := runRow usable x 0 ys row
    longestFrom usable ys (i + 1) (longerRun i best row) row xs

variable (xs ys : List α)

def Run.grown (r : Run) : Run :=
  let before := common (xs.take r.left).reverse (ys.take r.right).reverse
  let after := common (xs.drop (r.left + r.size)) (ys.drop (r.right + r.size))
  { left := r.left - before, right := r.right - before, size := before + r.size + after }

variable (usable : α → Bool)

def longestRun (xs ys : List α) : Run :=
  (longestFrom usable ys 0 {} (ys.map fun _ => 0) xs).grown xs ys

/-! ### Edits -/

/-- The edits that lead from the first text to the second. A run is used once its lines are seen to
be equal. -/
def align (usable : α → Bool) (xs ys : List α) : List (Edit α) :=
  let r := longestRun usable xs ys
  if _shared : 0 < r.size ∧ r.left + r.size ≤ xs.length ∧
      (xs.drop r.left).take r.size = (ys.drop r.right).take r.size then
    align usable (xs.take r.left) (ys.take r.right) ++
      .keep ((xs.drop r.left).take r.size) ::
      align usable (xs.drop (r.left + r.size)) (ys.drop (r.right + r.size))
  else [.change xs ys]
termination_by xs.length
decreasing_by
  · obtain ⟨positive, within, _⟩ := _shared
    show (xs.take r.left).length < xs.length
    rw [List.length_take]
    omega
  · obtain ⟨positive, within, _⟩ := _shared
    show (xs.drop (r.left + r.size)).length < xs.length
    rw [List.length_drop]
    omega

/-- In a long text, lines that make up more than a hundredth of it are no starting points. -/
def isTelling (ys : List α) (y : α) : Bool :=
  ys.length < 200 || ys.count y ≤ ys.length / 100 + 1

def diff : List (Edit α) := merge (align (isTelling ys) xs ys)

/-! ### What a difference holds -/

theorem align_old (xs ys : List α) : (align usable xs ys).flatMap Edit.old = xs := by
  fun_induction align usable xs ys with
  | case1 xs ys r h ihBefore ihAfter =>
    simp only [List.flatMap_append, List.flatMap_cons, Edit.old, ihBefore, ihAfter]
    rw [← List.drop_drop, List.take_append_drop, List.take_append_drop]
  | case2 xs ys r h => simp [Edit.old]

theorem align_new (xs ys : List α) : (align usable xs ys).flatMap Edit.new = ys := by
  fun_induction align usable xs ys with
  | case1 xs ys r h ihBefore ihAfter =>
    simp only [List.flatMap_append, List.flatMap_cons, Edit.new, ihBefore, ihAfter, h.2.2]
    rw [← List.drop_drop, List.take_append_drop, List.take_append_drop]
  | case2 xs ys r h => simp [Edit.new]

theorem old_of_diff : (diff xs ys).flatMap Edit.old = xs := by
  simp [diff, merge_old, align_old]

theorem new_of_diff : (diff xs ys).flatMap Edit.new = ys := by
  simp [diff, merge_new, align_new]

/-! ### Hunks -/

/-- An edit with the numbers, from zero, of the lines at which it starts in the old and the new
text. -/
structure Placed (α : Type) where
  old : Nat
  new : Nat
  edit : Edit α

def place : Nat → Nat → List (Edit α) → List (Placed α)
  | _, _, [] => []
  | i, j, e :: es => ⟨i, j, e⟩ :: place (i + e.old.length) (j + e.new.length) es

namespace Placed

def isKeep (p : Placed α) : Bool := match p.edit with
  | .keep _ => true
  | .change _ _ => false

def first (n : Nat) (p : Placed α) : Placed α :=
  match p.edit with
  | .keep ls => { p with edit := .keep (ls.take n) }
  | .change _ _ => p

def last (n : Nat) (p : Placed α) : Placed α :=
  match p.edit with
  | .keep ls =>
    let skipped := ls.length - n
    ⟨p.old + skipped, p.new + skipped, .keep (ls.drop skipped)⟩
  | .change _ _ => p

end Placed

def trimEnds (n : Nat) (ps : List (Placed α)) : List (Placed α) :=
  let ps := match ps with
    | [] => []
    | p :: ps => p.last n :: ps
  match ps.getLast? with
  | none => []
  | some p => ps.dropLast ++ [p.first n]

/-- Divides edits where more than `2 * n` lines are kept; `n` of them are shown on either side. -/
def hunks (n : Nat) : List (Placed α) → List (Placed α) → List (List (Placed α))
  | hunk, [] => if hunk.all Placed.isKeep then [] else [hunk]
  | hunk, p :: ps =>
    if p.isKeep && decide (2 * n < p.edit.old.length) then
      (hunk ++ [p.first n]) :: hunks n [p.last n] ps
    else hunks n (hunk ++ [p]) ps

/-- A range of lines: the number of its first line, from one, and its length unless that is one. An
empty range has the number of the line before it. -/
def rangeText (start length : Nat) : String :=
  if length = 1 then Number.natText (start + 1)
  else Number.natText (if length = 0 then start else start + 1) ++ "," ++ Number.natText length

def editText : Edit String → String
  | .keep ls => Text.join "" (ls.map (" " ++ ·))
  | .change old new => Text.join "" (old.map ("-" ++ ·)) ++ Text.join "" (new.map ("+" ++ ·))

def hunkText (h : List (Placed String)) : String :=
  match h with
  | [] => ""
  | p :: _ =>
    "@@ -" ++ rangeText p.old (Number.total (h.map fun q => q.edit.old.length)) ++
      " +" ++ rangeText p.new (Number.total (h.map fun q => q.edit.new.length)) ++ " @@\n" ++
      Text.join "" (h.map fun q => editText q.edit)

def linesOf (s : String) : List String := (Text.split '\n' s).map (· ++ "\n")

/-- The unified difference of two named texts with `n` lines around each change, empty if there is
none. -/
def unified (n : Nat) (oldName newName old new : String) : String :=
  match hunks n [] (trimEnds n (place 0 0 (diff (linesOf old) (linesOf new)))) with
  | [] => ""
  | hs => "--- " ++ oldName ++ "\n+++ " ++ newName ++ "\n" ++ Text.join "" (hs.map hunkText)

end LineDiff

end SqlAnalysis

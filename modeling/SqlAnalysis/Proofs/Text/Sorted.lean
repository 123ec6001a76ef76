import Mathlib.Data.List.Nodup

/-!
Lists that are sorted after each repetition has been left out.
-/

namespace SqlAnalysis.Text

variable [BEq α] [LawfulBEq α]

theorem nodup_eraseDups : ∀ l : List α, l.eraseDups.Nodup
  | [] => .nil
  | a :: l => by
    rw [List.eraseDups_cons, List.nodup_cons, List.mem_eraseDups]
    exact ⟨by simp, nodup_eraseDups _⟩
termination_by l => l.length
decreasing_by exact Nat.lt_succ_of_le (List.length_filter_le _ _)

theorem pairwise_mergeSort_eraseDups {le : α → α → Bool}
    (htrans : ∀ a b c, le a b → le b c → le a c) (htotal : ∀ a b, le a b || le b a) (l : List α) :
    (l.eraseDups.mergeSort le).Pairwise fun a b => le a b ∧ a ≠ b :=
  (List.pairwise_mergeSort htrans htotal _).and
    ((List.mergeSort_perm _ _).nodup_iff.mpr (nodup_eraseDups l))

end SqlAnalysis.Text

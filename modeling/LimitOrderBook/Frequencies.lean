import Mathlib.Algebra.Ring.Nat
import Mathlib.Data.List.Sort

/-!
# Lists given by frequencies

A multiset as cells of a key and a frequency.  Cells in key order stand for a
sorted list, and the key at which the running total of the frequencies reaches
a rank is the element of that rank.
-/

namespace Frequencies

variable {κ : Type}

/-- The elements that some cells stand for. -/
def expand (cells : List (κ × Nat)) : List κ :=
  cells.flatMap fun cell => List.replicate cell.2 cell.1

/-- The sum of the frequencies. -/
def total (cells : List (κ × Nat)) : Nat :=
  (cells.map Prod.snd).sum

/-- The key at which the running total, from a start on, reaches a rank. -/
def reached (rank : Nat) : List (κ × Nat) → Nat → Option κ
  | [], _ => none
  | cell :: rest, accumulated =>
      if rank ≤ accumulated + cell.2 then
        some cell.1
      else
        reached rank rest (accumulated + cell.2)

theorem expand_cons (cell : κ × Nat) (rest : List (κ × Nat)) :
    expand (cell :: rest) = List.replicate cell.2 cell.1 ++ expand rest :=
  rfl

theorem total_cons (cell : κ × Nat) (rest : List (κ × Nat)) :
    total (cell :: rest) = cell.2 + total rest :=
  rfl

theorem length_expand (cells : List (κ × Nat)) :
    (expand cells).length = total cells := by
  induction cells with
  | nil => rfl
  | cons cell rest inductionHypothesis =>
      rw [expand_cons, List.length_append, List.length_replicate,
        inductionHypothesis, total_cons]

/-- The running total finds the element of a rank. -/
theorem reached_eq
    (cells : List (κ × Nat)) {rank accumulated : Nat}
    (before : accumulated < rank) :
    reached rank cells accumulated =
      (expand cells)[rank - 1 - accumulated]? := by
  induction cells generalizing accumulated with
  | nil => rfl
  | cons cell rest inductionHypothesis =>
      rw [reached, expand_cons]
      split_ifs with here
      · rw [List.getElem?_append_left
            (by rw [List.length_replicate]; omega),
          List.getElem?_replicate_of_lt (by omega)]
      · rw [inductionHypothesis (by omega), List.getElem?_append_right
            (by rw [List.length_replicate]; omega), List.length_replicate]
        congr 1
        omega

theorem mem_expand
    {cells : List (κ × Nat)} {key : κ} (member : key ∈ expand cells) :
    ∃ frequency, (key, frequency) ∈ cells := by
  obtain ⟨cell, cellMember, inCell⟩ := List.mem_flatMap.mp member
  rw [List.eq_of_mem_replicate inCell]
  exact ⟨cell.2, cellMember⟩

/-- A key that has one cell is there as often as its cell says. -/
theorem count_expand
    [DecidableEq κ] {cells : List (κ × Nat)}
    (unique : (cells.map Prod.fst).Nodup) {key : κ} {frequency : Nat}
    (member : (key, frequency) ∈ cells) :
    (expand cells).count key = frequency := by
  induction cells with
  | nil => cases member
  | cons cell rest inductionHypothesis =>
      rw [List.map_cons, List.nodup_cons] at unique
      rw [expand_cons, List.count_append, List.count_replicate]
      rcases List.mem_cons.mp member with rfl | inRest
      · have absent : (expand rest).count key = 0 := by
          refine List.count_eq_zero.mpr fun later => ?_
          obtain ⟨other, otherMember⟩ := mem_expand later
          exact unique.1 (List.mem_map.mpr ⟨_, otherMember, rfl⟩)
        simp [absent]
      · have differs : cell.1 ≠ key := by
          rintro rfl
          exact unique.1 (List.mem_map.mpr ⟨_, inRest, rfl⟩)
        rw [inductionHypothesis unique.2 inRest]
        simp [differs]

variable [LinearOrder κ]

/-- Cells in key order. -/
abbrev Increasing (cells : List (κ × Nat)) : Prop :=
  cells.Pairwise fun first second => first.1 < second.1

theorem Increasing.nodup
    {cells : List (κ × Nat)} (increasing : Increasing cells) :
    (cells.map Prod.fst).Nodup :=
  List.pairwise_map.mpr (increasing.imp ne_of_lt)

theorem Increasing.expand_sorted
    {cells : List (κ × Nat)} (increasing : Increasing cells) :
    (expand cells).SortedLE := by
  rw [List.sortedLE_iff_pairwise]
  induction cells with
  | nil => exact .nil
  | cons cell rest inductionHypothesis =>
      obtain ⟨first, later⟩ := List.pairwise_cons.mp increasing
      rw [expand_cons, List.pairwise_append]
      refine ⟨List.pairwise_replicate.mpr (.inr le_rfl),
        inductionHypothesis later, ?_⟩
      intro key here other there
      obtain ⟨frequency, member⟩ := mem_expand there
      rw [List.eq_of_mem_replicate here]
      exact (first _ member).le

/-- Cells that count the elements of a list stand for the sorted list. -/
theorem Increasing.expand_eq
    {cells : List (κ × Nat)} (increasing : Increasing cells) {items : List κ}
    (counts : ∀ key, (expand cells).count key = items.count key) :
    expand cells = items.mergeSort (· ≤ ·) := by
  have same : (expand cells).Perm (items.mergeSort (· ≤ ·)) :=
    (List.perm_iff_count.mpr counts).trans (List.mergeSort_perm ..).symm
  exact same.eq_of_sortedLE increasing.expand_sorted List.sortedLE_mergeSort

end Frequencies

import Mathlib.Data.List.Infix
import MetricQuery.Proofs.Text.Edits

/-! # Edit distance

The rows hold least numbers of edits: from the part of the value that has been read to each leading
part of the target (`Text.foldl_nextRow`). No later number comes back below the least one of a row,
so that giving up early loses nothing, and the distance up to a bound is the least number of edits
cut off behind the bound (`Text.boundedEditDistance_eq_min`).
-/

namespace MetricQuery.Text

/-- The least numbers of edits from what has been read to each leading part of the target. -/
def row (read target : List Char) : List Nat := target.inits.map (leastEdits read)

/-- The first row is the one before anything is read. -/
theorem firstRow_eq_row (target : List Char) : firstRow target = row [] target := by
  apply List.ext_getElem
  · simp [firstRow, row]
  · intro place within _
    have inside : place ≤ target.length := by
      simp only [firstRow, List.length_range] at within
      omega
    simp [firstRow, row, List.getElem_inits, inside]

/-- The last cell of a row holds the least number of edits. -/
theorem lastCell_row (read target : List Char) :
    lastCell (row read target) = leastEdits read target := by
  simp [lastCell, row, List.getLast?_eq_getElem?]

/-- The cells behind a leading part of the target, from the recursion from the end. -/
theorem rowCells_inits (c : Char) (read front rest : List Char) :
    rowCells c (leastEdits (read ++ [c]) front) (leastEdits read front) rest
        (rest.inits.tail.map fun more => leastEdits read (front ++ more)) =
      rest.inits.tail.map fun more => leastEdits (read ++ [c]) (front ++ more) := by
  induction rest generalizing front with
  | nil => rfl
  | cons letter rest ih =>
      have behind : ∀ read : List Char,
          ((letter :: rest).inits.tail.map fun more => leastEdits read (front ++ more)) =
            leastEdits read (front ++ [letter]) ::
              rest.inits.tail.map fun more => leastEdits read (front ++ [letter] ++ more) := by
        intro read
        cases rest <;> simp
      rw [behind, behind, rowCells, ← leastEdits_concat, ih]

/-- One more character leads from one row to the next. -/
theorem nextRow_row (target read : List Char) (c : Char) :
    nextRow target (row read target) c = row (read ++ [c]) target := by
  have whole : ∀ read : List Char, row read target =
      read.length :: target.inits.tail.map fun more => leastEdits read ([] ++ more) := by
    intro read
    cases target <;> simp [row]
  have cells := rowCells_inits c read [] target
  rw [leastEdits_nil_right, leastEdits_nil_right, List.length_append,
    List.length_singleton] at cells
  rw [whole, whole, nextRow, cells, List.length_append, List.length_singleton]

/-- Reading the value row by row. -/
theorem foldl_nextRow (target read rest : List Char) :
    rest.foldl (nextRow target) (row read target) = row (read ++ rest) target := by
  induction rest generalizing read with
  | nil => rw [List.append_nil]; rfl
  | cons c rest ih => rw [List.foldl_cons, nextRow_row, ih, List.append_assoc]; rfl

/-- The unbounded distance is the least number of edits. -/
theorem editDistance_eq_leastEdits (value target : String) :
    editDistance value target = leastEdits value.toList target.toList := by
  rw [editDistance, firstRow_eq_row, foldl_nextRow, lastCell_row, List.nil_append]

/-- If a whole row is beyond the bound, so is the distance, whatever is still to be read. -/
theorem lt_leastEdits_of_row {bound : Nat} {read target : List Char}
    (beyond : (row read target).all (bound < ·) = true) (rest : List Char) :
    bound < leastEdits (read ++ rest) target := by
  obtain ⟨front, begins, near⟩ := exists_prefix_leastEdits_le read rest target
  have cell : leastEdits read front ∈ row read target :=
    List.mem_map_of_mem ((List.mem_inits _ _).mpr begins)
  exact Nat.lt_of_lt_of_le (of_decide_eq_true (List.all_eq_true.mp beyond _ cell)) near

private theorem boundedFrom_row (bound : Nat) (target read rest : List Char) :
    boundedFrom bound target (row read target) rest =
      min (leastEdits (read ++ rest) target) (bound + 1) := by
  induction rest generalizing read with
  | nil => rw [boundedFrom, lastCell_row, List.append_nil]
  | cons c rest ih =>
      have same : read ++ c :: rest = read ++ [c] ++ rest := List.append_cons ..
      rw [boundedFrom, nextRow_row, same]
      split
      · rename_i beyond
        have far := lt_leastEdits_of_row beyond rest
        omega
      · exact ih (read ++ [c])

/-- The distance of two texts is the least number of edits between them, given up to any bound and
cut off behind it; so it is a metric on texts. -/
theorem boundedEditDistance_eq_min (value target : String) :
    (∀ bound, boundedEditDistance value target bound =
      min (leastEdits value.toList target.toList) (bound + 1)) ∧
    editDistance value target = leastEdits value.toList target.toList ∧
    IsLeast {count | Edits count value.toList target.toList}
      (leastEdits value.toList target.toList) ∧
    editDistance value target = editDistance target value ∧
    (editDistance value target = 0 ↔ value = target) ∧
    ∀ between, editDistance value target ≤
      editDistance value between + editDistance between target := by
  refine ⟨fun bound => ?_, editDistance_eq_leastEdits value target, isLeast_leastEdits _ _, ?_, ?_,
    fun between => ?_⟩
  · rw [boundedEditDistance, firstRow_eq_row, boundedFrom_row, List.nil_append]
  · rw [editDistance_eq_leastEdits, editDistance_eq_leastEdits, leastEdits_comm]
  · rw [editDistance_eq_leastEdits, leastEdits_eq_zero_iff, String.toList_inj]
  · simp only [editDistance_eq_leastEdits]
    exact leastEdits_triangle _ _ _

/-- Three edits are needed, so that one is not enough. -/
example : boundedEditDistance "kitten" "sitting" 1 = 2 ∧ editDistance "kitten" "sitting" = 3 := by
  decide

end MetricQuery.Text

import Mathlib.Order.Bounds.Basic
import MetricQuery.Text.EditDistance

/-! # Edits

How many edits turn one text into another: an edit inserts, deletes or replaces a character anywhere
in a text (`Text.Edits`). The least number of them has a recursion from the front
(`Text.isLeast_leastEdits`). Edits can be undone and read from the end, so that the number is
symmetric (`Text.leastEdits_comm`) and has the same recursion from the end
(`Text.leastEdits_concat`).
-/

namespace MetricQuery.Text

/-- One edit: a character is inserted, deleted or replaced. -/
inductive Edit : List Char → List Char → Prop where
  | insert (before : List Char) (c : Char) (after : List Char) :
      Edit (before ++ after) (before ++ c :: after)
  | delete (before : List Char) (c : Char) (after : List Char) :
      Edit (before ++ c :: after) (before ++ after)
  | replace (before : List Char) (c other : Char) (after : List Char) :
      Edit (before ++ c :: after) (before ++ other :: after)

/-- Whether one text becomes another one by a number of edits. -/
inductive Edits : Nat → List Char → List Char → Prop where
  | nil (text : List Char) : Edits 0 text text
  | cons {count : Nat} {value between target : List Char} (edit : Edit value between)
      (rest : Edits count between target) : Edits (count + 1) value target

/-- The least number of edits between two texts, from the front: the first character of the value is
deleted, that of the target is inserted, or the first characters stand for each other. -/
def leastEdits : List Char → List Char → Nat
  | [], target => target.length
  | value, [] => value.length
  | c :: value, d :: target =>
    min (min (leastEdits value (d :: target) + 1) (leastEdits (c :: value) target + 1))
      (leastEdits value target + if c = d then 0 else 1)
termination_by value target => value.length + target.length

variable {value between target : List Char} {count further : Nat}

namespace Edit

/-- An edit may be made behind a common first character. -/
theorem behind (c : Char) (edit : Edit value target) : Edit (c :: value) (c :: target) := by
  cases edit with
  | insert before d after => exact .insert (c :: before) d after
  | delete before d after => exact .delete (c :: before) d after
  | replace before d other after => exact .replace (c :: before) d other after

/-- An edit can be undone by an edit. -/
theorem symm (edit : Edit value target) : Edit target value := by
  cases edit with
  | insert before c after => exact .delete before c after
  | delete before c after => exact .insert before c after
  | replace before c other after => exact .replace before other c after

/-- An edit of a text is an edit of the text read backwards. -/
theorem reverse (edit : Edit value target) : Edit value.reverse target.reverse := by
  cases edit with
  | insert before c after =>
      rw [List.reverse_append, List.reverse_append, List.reverse_cons, List.append_assoc]
      exact .insert after.reverse c before.reverse
  | delete before c after =>
      rw [List.reverse_append, List.reverse_append, List.reverse_cons, List.append_assoc]
      exact .delete after.reverse c before.reverse
  | replace before c other after =>
      simp only [List.reverse_append, List.reverse_cons, List.append_assoc]
      exact .replace after.reverse c other before.reverse

end Edit

namespace Edits

/-- Edits one after the other add up. -/
theorem trans (edits : Edits count value between) (rest : Edits further between target) :
    Edits (count + further) value target := by
  induction edits with
  | nil => rwa [Nat.zero_add]
  | cons edit _ ih => exact Nat.succ_add .. ▸ .cons edit (ih rest)

/-- One more edit may be made at the end. -/
theorem concat (edits : Edits count value between) (edit : Edit between target) :
    Edits (count + 1) value target := edits.trans (.cons edit (.nil target))

/-- Edits may be made behind a common first character. -/
theorem behind (c : Char) (edits : Edits count value target) :
    Edits count (c :: value) (c :: target) := by
  induction edits with
  | nil text => exact .nil (c :: text)
  | cons edit _ ih => exact .cons (edit.behind c) ih

/-- Edits can be undone by as many. -/
theorem symm (edits : Edits count value target) : Edits count target value := by
  induction edits with
  | nil text => exact .nil text
  | cons edit _ ih => exact ih.concat edit.symm

/-- Edits of a text are edits of the text read backwards. -/
theorem reverse (edits : Edits count value target) :
    Edits count value.reverse target.reverse := by
  induction edits with
  | nil text => exact .nil text.reverse
  | cons edit _ ih => exact .cons edit.reverse ih

private theorem zero_iff : Edits 0 value target ↔ value = target := by
  constructor
  · rintro ⟨⟩
    rfl
  · rintro rfl
    exact .nil value

end Edits

/-! ## The recursion from the front -/

/-- From nothing every character is inserted. -/
@[simp]
theorem leastEdits_nil_left (target : List Char) : leastEdits [] target = target.length := by
  rw [leastEdits]

/-- To nothing every character is deleted. -/
@[simp]
theorem leastEdits_nil_right (value : List Char) : leastEdits value [] = value.length := by
  cases value with
  | nil => rw [leastEdits_nil_left]
  | cons c value => rw [leastEdits]; exact nofun

/-- The first characters are deleted, inserted, or matched. -/
theorem leastEdits_cons_cons (c d : Char) (value target : List Char) :
    leastEdits (c :: value) (d :: target) =
      min (min (leastEdits value (d :: target) + 1) (leastEdits (c :: value) target + 1))
        (leastEdits value target + if c = d then 0 else 1) := by
  rw [leastEdits]

/-- One more character on the left costs at most one edit. -/
theorem leastEdits_cons_left_le (c : Char) (value target : List Char) :
    leastEdits (c :: value) target ≤ leastEdits value target + 1 := by
  cases target with
  | nil => simp
  | cons d target => rw [leastEdits_cons_cons]; omega

/-- One more character on the right costs at most one edit. -/
theorem leastEdits_cons_right_le (value : List Char) (d : Char) (target : List Char) :
    leastEdits value (d :: target) ≤ leastEdits value target + 1 := by
  cases value with
  | nil => simp
  | cons c value => rw [leastEdits_cons_cons]; omega

/-- One more character on both sides costs at most one edit, and none if it is the same. -/
theorem leastEdits_cons_cons_le (c d : Char) (value target : List Char) :
    leastEdits (c :: value) (d :: target) ≤
      leastEdits value target + if c = d then 0 else 1 := by
  rw [leastEdits_cons_cons]
  exact Nat.min_le_right _ _

/-- One of the three ways is taken. -/
theorem leastEdits_cons_cons_cases (c d : Char) (value target : List Char) :
    leastEdits (c :: value) (d :: target) = leastEdits value (d :: target) + 1 ∨
      leastEdits (c :: value) (d :: target) = leastEdits (c :: value) target + 1 ∨
      leastEdits (c :: value) (d :: target) =
        leastEdits value target + if c = d then 0 else 1 := by
  rw [leastEdits_cons_cons]
  omega

/-- A text is no edits away from itself. -/
theorem leastEdits_self (text : List Char) : leastEdits text text = 0 := by
  induction text with
  | nil => exact leastEdits_nil_left []
  | cons c text ih =>
      have less := leastEdits_cons_cons_le c c text text
      rw [ih, if_pos rfl] at less
      exact Nat.le_zero.mp less

/-- The number of the recursion is enough. -/
theorem edits_leastEdits (value target : List Char) :
    Edits (leastEdits value target) value target := by
  fun_induction leastEdits value target with
  | case1 target =>
      induction target with
      | nil => exact .nil []
      | cons d target ih => exact ih.concat (.insert [] d target)
  | case2 value nonempty =>
      clear nonempty
      induction value with
      | nil => exact .nil []
      | cons c value ih => exact .cons (.delete [] c value) ih
  | case3 c value d target deleted inserted kept =>
      rw [← leastEdits_cons_cons]
      rcases leastEdits_cons_cons_cases c d value target with least | least | least
      · rw [least]
        exact .cons (.delete [] c value) deleted
      · rw [least]
        exact inserted.concat (.insert [] d target)
      · rw [least]
        split
        · rename_i same
          exact same ▸ kept.behind c
        · exact .cons (.replace [] c d value) (kept.behind d)

/-! ## One edit more -/

/-- What holds for two texts holds for them behind one more character. -/
theorem leastEdits_behind_le
    (near : ∀ value, leastEdits value target ≤ leastEdits value between + 1) (d : Char)
    (value : List Char) :
    leastEdits value (d :: target) ≤ leastEdits value (d :: between) + 1 := by
  induction value with
  | nil => simpa using near []
  | cons c value ih =>
      have inserted := near (c :: value)
      have kept := near value
      rw [leastEdits_cons_cons, leastEdits_cons_cons]
      omega

/-- The number of the recursion grows by one at most with each edit. -/
theorem Edit.leastEdits_le (edit : Edit between target) (value : List Char) :
    leastEdits value target ≤ leastEdits value between + 1 := by
  cases edit with
  | insert before d after =>
      induction before generalizing value with
      | nil => exact leastEdits_cons_right_le value d after
      | cons first before ih => exact leastEdits_behind_le ih first value
  | delete before d after =>
      induction before generalizing value with
      | cons first before ih => exact leastEdits_behind_le ih first value
      | nil =>
          induction value with
          | nil => simp; omega
          | cons c value ih =>
              have deleted := leastEdits_cons_left_le c value after
              simp only [List.nil_append] at ih ⊢
              rw [leastEdits_cons_cons]
              omega
  | replace before d other after =>
      induction before generalizing value with
      | cons first before ih => exact leastEdits_behind_le ih first value
      | nil =>
          induction value with
          | nil => simp
          | cons c value ih =>
              simp only [List.nil_append] at ih ⊢
              rw [leastEdits_cons_cons, leastEdits_cons_cons]
              split <;> split <;> omega

/-- Edits of the target change the least number by at most as many. -/
theorem Edits.leastEdits_le (edits : Edits count between target) (value : List Char) :
    leastEdits value target ≤ leastEdits value between + count := by
  induction edits with
  | nil => exact Nat.le_refl _
  | cons edit _ ih =>
      have first := edit.leastEdits_le value
      omega

/-- No fewer edits than the number of the recursion lead from one text to the other. -/
theorem isLeast_leastEdits (value target : List Char) :
    IsLeast {count | Edits count value target} (leastEdits value target) := by
  refine ⟨edits_leastEdits value target, fun count edits => ?_⟩
  have least := edits.leastEdits_le value
  rwa [leastEdits_self, Nat.zero_add] at least

/-- The least number of edits is within that of any edits. -/
theorem Edits.leastEdits_le_count (edits : Edits count value target) :
    leastEdits value target ≤ count := (isLeast_leastEdits value target).2 edits

/-! ## Distances -/

/-- The least number of edits is the same in both directions. -/
theorem leastEdits_comm (value target : List Char) :
    leastEdits value target = leastEdits target value :=
  Nat.le_antisymm (edits_leastEdits target value).symm.leastEdits_le_count
    (edits_leastEdits value target).symm.leastEdits_le_count

/-- Only a text itself is no edits away. -/
theorem leastEdits_eq_zero_iff : leastEdits value target = 0 ↔ value = target := by
  constructor
  · intro none
    exact Edits.zero_iff.mp (none ▸ edits_leastEdits value target)
  · rintro rfl
    exact leastEdits_self value

/-- A detour takes no fewer edits. -/
theorem leastEdits_triangle (value between target : List Char) :
    leastEdits value target ≤ leastEdits value between + leastEdits between target :=
  ((edits_leastEdits value between).trans (edits_leastEdits between target)).leastEdits_le_count

/-- The least number of edits is the same read backwards. -/
theorem leastEdits_reverse (value target : List Char) :
    leastEdits value.reverse target.reverse = leastEdits value target := by
  have back := (edits_leastEdits value.reverse target.reverse).reverse
  rw [List.reverse_reverse, List.reverse_reverse] at back
  exact Nat.le_antisymm (edits_leastEdits value target).reverse.leastEdits_le_count
    back.leastEdits_le_count

/-- The same recursion from the end. -/
theorem leastEdits_concat (c d : Char) (value target : List Char) :
    leastEdits (value ++ [c]) (target ++ [d]) =
      min (min (leastEdits value (target ++ [d]) + 1) (leastEdits (value ++ [c]) target + 1))
        (leastEdits value target + if c = d then 0 else 1) := by
  have front := leastEdits_cons_cons c d value.reverse target.reverse
  rwa [← List.reverse_concat, ← List.reverse_concat, leastEdits_reverse, leastEdits_reverse,
    leastEdits_reverse, leastEdits_reverse] at front

/-- Some leading part of the target is no farther from a leading part of the value than the whole is
from the whole. -/
theorem exists_prefix_leastEdits_le (value rest target : List Char) :
    ∃ front, front <+: target ∧ leastEdits value front ≤ leastEdits (value ++ rest) target := by
  fun_induction leastEdits value target with
  | case1 target => exact ⟨[], List.nil_prefix, by simp⟩
  | case2 value => exact ⟨[], List.nil_prefix, by simp⟩
  | case3 c value d target deleted inserted kept =>
      rcases leastEdits_cons_cons_cases c d (value ++ rest) target with least | least | least
      · obtain ⟨front, begins, near⟩ := deleted
        have further := leastEdits_cons_left_le c value front
        exact ⟨front, begins, by rw [List.cons_append, least]; omega⟩
      · obtain ⟨front, begins, near⟩ := inserted
        have further := leastEdits_cons_right_le (c :: value) d front
        refine ⟨d :: front, List.cons_prefix_cons.mpr ⟨rfl, begins⟩, ?_⟩
        rw [List.cons_append] at near ⊢
        omega
      · obtain ⟨front, begins, near⟩ := kept
        have further := leastEdits_cons_cons_le c d value front
        refine ⟨d :: front, List.cons_prefix_cons.mpr ⟨rfl, begins⟩, ?_⟩
        rw [List.cons_append]
        omega

end MetricQuery.Text

import Mathlib.Algebra.Order.BigOperators.Group.List
import Mathlib.Algebra.Order.Group.Nat
import Mathlib.Data.List.Flatten
import Mathlib.Data.List.Nodup
import Mathlib.Data.List.Perm.Subperm

/-! # Counting members

How often something occurs among what the members of a list give. Something that occurs twice there
occurs twice even if each member is asked once, as long as one member that gives it is listed once
(`two_le_count_flatMap`).
-/

namespace MetricQuery

/-- Nothing is left twice where repeats are dropped. -/
theorem nodup_eraseDups {α : Type} [BEq α] [LawfulBEq α] :
    (members : List α) → members.eraseDups.Nodup
  | [] => List.nodup_nil
  | first :: rest => by
      rw [List.eraseDups_cons]
      refine List.nodup_cons.mpr ⟨fun member => ?_, nodup_eraseDups _⟩
      have other := (List.mem_filter.mp (List.mem_eraseDups.mp member)).2
      simp at other
termination_by members => members.length
decreasing_by exact Nat.lt_succ_of_le (List.length_filter_le _ _)

variable {α β : Type} [BEq β] {compute : α → List β}
  {members others : List α} {result : β}

private theorem count_le_count_flatMap {member : α} (among : member ∈ members) :
    (compute member).count result ≤ (members.flatMap compute).count result := by
  obtain ⟨before, after, rfl⟩ := List.append_of_mem among
  rw [List.flatMap_append, List.flatMap_cons, List.count_append, List.count_append]
  omega

/-- If each member counts for no more than elsewhere, then so do all together. -/
theorem count_flatMap_mono {γ : Type} [BEq γ] {other : α → List γ} {further : γ}
    (each : ∀ member ∈ members, (compute member).count result ≤ (other member).count further) :
    (members.flatMap compute).count result ≤ (members.flatMap other).count further := by
  rw [List.count_flatMap, List.count_flatMap]
  exact List.sum_le_sum each

/-- Members that are asked once give no more than all members of a list. -/
theorem count_flatMap_le (distinct : members.Nodup) (within : members ⊆ others) :
    (members.flatMap compute).count result ≤ (others.flatMap compute).count result := by
  obtain ⟨permuted, perm, sublist⟩ := distinct.subperm within
  rw [← (perm.flatMap_right compute).count_eq]
  exact (sublist.flatMap compute).count_le result

variable [LawfulBEq β]

private theorem two_le_count_flatMap_of_ne {first second : α} (different : first ≠ second)
    (amongFirst : first ∈ members) (amongSecond : second ∈ members)
    (givenFirst : result ∈ compute first) (givenSecond : result ∈ compute second) :
    2 ≤ (members.flatMap compute).count result := by
  obtain ⟨before, after, rfl⟩ := List.append_of_mem amongFirst
  have elsewhere : second ∈ before ++ after := by
    simpa [different.symm] using amongSecond
  have here := List.one_le_count_iff.mpr givenFirst
  have there := List.one_le_count_iff.mpr
    (List.mem_flatMap.mpr ⟨second, elsewhere, givenSecond⟩)
  rw [List.flatMap_append, List.count_append] at there
  rw [List.flatMap_append, List.flatMap_cons, List.count_append, List.count_append]
  omega

/-- If one of the members that give a result is listed once, then asking each member once gives the
result twice where asking all of them does. -/
theorem two_le_count_flatMap [BEq α] [LawfulBEq α] {single : α} (within : others ⊆ members)
    (once : others.count single = 1) (given : result ∈ compute single)
    (twice : 2 ≤ (others.flatMap compute).count result) :
    2 ≤ (members.flatMap compute).count result := by
  have among : single ∈ others := List.one_le_count_iff.mp (Nat.le_of_eq once.symm)
  obtain ⟨before, after, rfl⟩ := List.append_of_mem among
  rw [List.count_append, List.count_cons_self] at once
  rw [List.flatMap_append, List.flatMap_cons, List.count_append, List.count_append] at twice
  by_cases elsewhere : result ∈ (before ++ after).flatMap compute
  · obtain ⟨other, inside, givenToo⟩ := List.mem_flatMap.mp elsewhere
    have different : single ≠ other := by
      rintro rfl
      have counted := List.one_le_count_iff.mpr inside
      rw [List.count_append] at counted
      omega
    refine two_le_count_flatMap_of_ne different (within among) (within ?_) given givenToo
    rw [List.mem_append] at inside
    rw [List.mem_append, List.mem_cons]
    exact inside.imp_right .inr
  · have none := List.count_eq_zero_of_not_mem elsewhere
    rw [List.flatMap_append, List.count_append] at none
    have inside : (compute single).count result ≤ (members.flatMap compute).count result :=
      count_le_count_flatMap (within among)
    omega

end MetricQuery

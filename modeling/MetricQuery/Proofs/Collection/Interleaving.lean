import MetricQuery.Proofs.Collection.Sorting

/-! # Interleaved lists

A list with further members put in at any places (`Interleaves`). What none of the further members
takes part in stays as it is. A list in ascending order and without repeats is determined by its
members (`eq_of_mem_iff`), wherever they come from.
-/

namespace MetricQuery

variable {α β : Type}

/-- Whether a list consists of a base and of further members, each of them in their order. -/
inductive Interleaves : (base further whole : List α) → Prop where
  | nil : Interleaves [] [] []
  | kept {base further whole : List α} (member : α) (rest : Interleaves base further whole) :
      Interleaves (member :: base) further (member :: whole)
  | inserted {base further whole : List α} (member : α) (rest : Interleaves base further whole) :
      Interleaves base (member :: further) (member :: whole)

namespace Interleaves

variable {base further whole : List α}

/-- The members of the whole are those of its two parts. -/
theorem mem_iff (interleaves : Interleaves base further whole) {member : α} :
    member ∈ whole ↔ member ∈ base ∨ member ∈ further := by
  induction interleaves with
  | nil => simp
  | kept first _ ih => simp only [List.mem_cons, ih, or_assoc]
  | inserted first _ ih => simp only [List.mem_cons, ih, or_left_comm]

/-- The whole is as long as its two parts together. -/
theorem length_eq (interleaves : Interleaves base further whole) :
    whole.length = base.length + further.length := by
  induction interleaves with
  | nil => rfl
  | kept _ _ ih => rw [List.length_cons, List.length_cons, ih, Nat.add_right_comm]
  | inserted _ _ ih => rw [List.length_cons, List.length_cons, ih, Nat.add_assoc]

/-- What is kept of the whole is kept of the base if nothing further is kept. -/
theorem filter_eq (interleaves : Interleaves base further whole) {holds : α → Bool}
    (none : ∀ member ∈ further, holds member = false) : whole.filter holds = base.filter holds := by
  induction interleaves with
  | nil => rfl
  | kept member _ ih => rw [List.filter_cons, List.filter_cons, ih none]
  | inserted member _ ih =>
      obtain ⟨fails, none⟩ := List.forall_mem_cons.mp none
      rw [List.filter_cons, fails, if_neg Bool.false_ne_true, ih none]

/-- What is selected from the whole is selected from the base if nothing further is selected. -/
theorem filterMap_eq (interleaves : Interleaves base further whole) {first second : α → Option β}
    (same : ∀ member ∈ base, first member = second member)
    (none : ∀ member ∈ further, first member = none) :
    whole.filterMap first = base.filterMap second := by
  induction interleaves with
  | nil => rfl
  | kept member _ ih =>
      obtain ⟨head, same⟩ := List.forall_mem_cons.mp same
      rw [List.filterMap_cons, List.filterMap_cons, head, ih same none]
  | inserted member _ ih =>
      obtain ⟨fails, none⟩ := List.forall_mem_cons.mp none
      rw [List.filterMap_cons_none fails, ih same none]

/-- What is kept of the whole interleaves what is kept of its parts. -/
theorem filter (interleaves : Interleaves base further whole) (holds : α → Bool) :
    Interleaves (base.filter holds) (further.filter holds) (whole.filter holds) := by
  induction interleaves with
  | nil => exact .nil
  | kept member _ ih =>
      rw [List.filter_cons, List.filter_cons]
      split
      · exact .kept member ih
      · exact ih
  | inserted member _ ih =>
      rw [List.filter_cons, List.filter_cons]
      split
      · exact .inserted member ih
      · exact ih

/-- Expanding the whole is expanding the base if nothing further expands to anything. -/
theorem flatMap_eq (interleaves : Interleaves base further whole) {expand : α → List β}
    (none : ∀ member ∈ further, expand member = []) :
    whole.flatMap expand = base.flatMap expand := by
  induction interleaves with
  | nil => rfl
  | kept member _ ih => rw [List.flatMap_cons, List.flatMap_cons, ih none]
  | inserted member _ ih =>
      obtain ⟨empty, none⟩ := List.forall_mem_cons.mp none
      rw [List.flatMap_cons, empty, List.nil_append, ih none]

end Interleaves

/-- Lists of which the same is kept have the same first member that is kept. -/
theorem find?_eq_of_filter_eq {left right : List α} {holds : α → Bool}
    (same : left.filter holds = right.filter holds) : left.find? holds = right.find? holds := by
  rw [← List.head?_filter, ← List.head?_filter, same]

/-- Lists of which the same is kept have the same last member that is kept. -/
theorem findRev?_eq_of_filter_eq {left right : List α} {holds : α → Bool}
    (same : left.filter holds = right.filter holds) :
    left.findRev? holds = right.findRev? holds := by
  rw [List.findRev?_eq_find?_reverse, List.findRev?_eq_find?_reverse]
  apply find?_eq_of_filter_eq
  rw [List.filter_reverse, List.filter_reverse, same]

/-- Lists in ascending order and without repeats are equal if they have the same members. -/
theorem eq_of_mem_iff [Ord α] [Std.TransOrd α] [Std.LawfulEqOrd α] {left right : List α}
    (leftAscending : left.Pairwise fun first second => (compare first second).isLE = true)
    (rightAscending : right.Pairwise fun first second => (compare first second).isLE = true)
    (leftDistinct : left.Nodup) (rightDistinct : right.Nodup)
    (same : ∀ member, member ∈ left ↔ member ∈ right) : left = right := by
  have perm := (List.perm_ext_iff_of_nodup leftDistinct rightDistinct).mpr same
  refine perm.eq_of_pairwise (fun first second _ _ before after => ?_) leftAscending rightAscending
  exact Std.LawfulEqOrd.eq_of_compare (Std.OrientedCmp.isLE_antisymm before after)

/-- What the order keeps of two lists is the same where they have the same members. -/
theorem filter_sortedDistinct_eq [Ord α] [Std.TransOrd α] [Std.LawfulEqOrd α] [BEq α]
    [LawfulBEq α] {left right : List α} {holds : α → Bool}
    (same : ∀ member, holds member = true → (member ∈ left ↔ member ∈ right)) :
    (sortedDistinct left).filter holds = (sortedDistinct right).filter holds := by
  refine eq_of_mem_iff ((pairwise_sortedDistinct left).filter _)
    ((pairwise_sortedDistinct right).filter _) ((nodup_sortedDistinct left).filter _)
    ((nodup_sortedDistinct right).filter _) fun member => ?_
  simp only [List.mem_filter, mem_sortedDistinct]
  exact and_congr_left fun held => same member held

/-- Sorting what is kept of a list is keeping it of the sorted list. -/
theorem sortedDistinct_eq_filter [Ord α] [Std.TransOrd α] [Std.LawfulEqOrd α] [BEq α]
    [LawfulBEq α] {left right : List α} {holds : α → Bool}
    (kept : ∀ member, member ∈ left ↔ member ∈ right ∧ holds member = true) :
    sortedDistinct left = (sortedDistinct right).filter holds := by
  refine eq_of_mem_iff (pairwise_sortedDistinct left) ((pairwise_sortedDistinct right).filter _)
    (nodup_sortedDistinct left) ((nodup_sortedDistinct right).filter _) fun member => ?_
  rw [List.mem_filter, mem_sortedDistinct, mem_sortedDistinct]
  exact kept member

end MetricQuery

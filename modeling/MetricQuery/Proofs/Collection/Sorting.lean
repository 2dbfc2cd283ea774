import Mathlib.Data.List.Perm.Subperm
import Mathlib.Data.List.Sort
import MetricQuery.Collection.Basic

/-! # Sorted lists

Sorting permutes a list and puts it in order (`sortBy_perm`, `pairwise_sortBy`). A sorted list
without repeats has the members of the list, each once (`mem_sortedDistinct`,
`nodup_sortedDistinct`) and in order (`pairwise_sortedDistinct`).
-/

namespace MetricQuery

variable {α : Type}

private theorem insertSorted_eq_orderedInsert (precedes : α → α → Bool) (member : α)
    (members : List α) :
    insertSorted precedes member members = members.orderedInsert (precedes · · = true) member := by
  induction members with
  | nil => rfl
  | cons first rest ih => rw [insertSorted, List.orderedInsert_cons, ih]

/-- Sorting is the insertion sort of the library. -/
theorem sortBy_eq_insertionSort (precedes : α → α → Bool) (members : List α) :
    sortBy precedes members = members.insertionSort (precedes · · = true) := by
  induction members with
  | nil => rfl
  | cons member rest ih =>
      rw [List.insertionSort_cons, ← ih, ← insertSorted_eq_orderedInsert]
      rfl

/-- Sorting only changes the order. -/
theorem sortBy_perm (precedes : α → α → Bool) (members : List α) :
    (sortBy precedes members).Perm members := by
  rw [sortBy_eq_insertionSort]
  exact List.perm_insertionSort _ members

/-- Sorting loses nothing and adds nothing. -/
theorem mem_sortBy (precedes : α → α → Bool) {members : List α} {member : α} :
    member ∈ sortBy precedes members ↔ member ∈ members := (sortBy_perm precedes members).mem_iff

/-- A sorted list is in order, if the order is total and transitive. -/
theorem pairwise_sortBy {precedes : α → α → Bool}
    (trans : ∀ left between right, precedes left between = true → precedes between right = true →
      precedes left right = true)
    (total : ∀ left right, (precedes left right || precedes right left) = true)
    (members : List α) : (sortBy precedes members).Pairwise (precedes · · = true) := by
  have : IsTrans α (precedes · · = true) := ⟨trans⟩
  have : Std.Total fun left right : α => precedes left right = true :=
    ⟨fun left right => by simpa using total left right⟩
  rw [sortBy_eq_insertionSort]
  exact List.pairwise_insertionSort _ members

/-- What is sorted by a comparison is in ascending order. -/
theorem pairwise_sortBy_compare [Ord α] [Std.TransOrd α] (members : List α) :
    (sortBy (fun left right => (compare left right).isLE) members).Pairwise
      fun left right => (compare left right).isLE = true := by
  refine pairwise_sortBy ?_ ?_ members
  · exact fun _ _ _ => Std.TransOrd.isLE_trans
  · intro left right
    rw [Std.OrientedOrd.eq_swap (a := right)]
    cases compare left right <;> rfl

/-- A list that is in order already stays as it is. -/
theorem sortBy_of_pairwise {precedes : α → α → Bool} {members : List α}
    (sorted : members.Pairwise (precedes · · = true)) : sortBy precedes members = members := by
  rw [sortBy_eq_insertionSort]
  exact sorted.insertionSort_eq

private theorem insertSorted_map {β : Type} (precedes : β → β → Bool) (f : α → β) (member : α)
    (members : List α) : insertSorted precedes (f member) (members.map f) =
      (insertSorted (fun left right => precedes (f left) (f right)) member members).map f := by
  induction members with
  | nil => rfl
  | cons first rest ih =>
      rw [List.map_cons, insertSorted, insertSorted, ih]
      split <;> rfl

/-- Members are sorted by what a function gives for them as its values are sorted. -/
theorem sortBy_map {β : Type} (precedes : β → β → Bool) (f : α → β) (members : List α) :
    sortBy precedes (members.map f) =
      (sortBy (fun left right => precedes (f left) (f right)) members).map f := by
  induction members with
  | nil => rfl
  | cons member rest ih =>
      change insertSorted precedes (f member) (sortBy precedes (rest.map f)) = _
      rw [ih, insertSorted_map]
      rfl

/-- In a sorted list the first member with a property precedes all others with it. -/
theorem precedes_of_find? {precedes : α → α → Prop} (refl : ∀ member, precedes member member)
    {members : List α} (sorted : members.Pairwise precedes) {holds : α → Bool} {first member : α}
    (found : members.find? holds = some first) (among : member ∈ members)
    (held : holds member = true) : precedes first member := by
  obtain ⟨_, before, after, rfl, others⟩ := List.find?_eq_some_iff_append.mp found
  rcases List.mem_append.mp among with early | late
  · have excluded := others member early
    rw [held] at excluded
    exact nomatch excluded
  · rcases List.mem_cons.mp late with rfl | late
    · exact refl member
    · exact List.rel_of_pairwise_cons (List.pairwise_append.mp sorted).2.1 late

private theorem mem_eraseReps_loop [BEq α] [LawfulBEq α] {current member : α}
    {rest seen : List α} :
    member ∈ List.eraseRepsBy.loop (· == ·) current rest seen ↔
      member ∈ seen ∨ member = current ∨ member ∈ rest := by
  induction rest generalizing current seen with
  | nil => simp [List.eraseRepsBy.loop, or_comm]
  | cons next rest ih =>
    unfold List.eraseRepsBy.loop
    split
    · rename_i repeated
      obtain rfl : current = next := beq_iff_eq.mp repeated
      rw [ih]
      simp
    · rw [ih, List.mem_cons, List.mem_cons]
      constructor
      · intro present
        rcases present with (same | before) | later
        · exact .inr (.inl same)
        · exact .inl before
        · exact .inr (.inr later)
      · intro present
        rcases present with before | same | later
        · exact .inl (.inr before)
        · exact .inl (.inl same)
        · exact .inr later

/-- In an ascending list repeats stand side by side, so that dropping those leaves none. -/
private theorem nodup_eraseReps_loop [BEq α] [LawfulBEq α] {precedes : α → α → Prop}
    (antisymm : ∀ left right, precedes left right → precedes right left → left = right)
    {current : α} {rest seen : List α} (ascending : (current :: rest).Pairwise precedes)
    (distinct : seen.Nodup) (before : ∀ member ∈ seen, member ∉ current :: rest) :
    (List.eraseRepsBy.loop (· == ·) current rest seen).Nodup := by
  induction rest generalizing current seen with
  | nil =>
    unfold List.eraseRepsBy.loop
    have all : (current :: seen).Nodup := List.nodup_cons.mpr
      ⟨fun member => before current member List.mem_cons_self, distinct⟩
    exact List.pairwise_reverse.mpr (all.imp Ne.symm)
  | cons next rest ih =>
    obtain ⟨first, later⟩ := List.pairwise_cons.mp ascending
    unfold List.eraseRepsBy.loop
    split
    · rename_i repeated
      obtain rfl : current = next := beq_iff_eq.mp repeated
      exact ih later distinct fun member held inside =>
        before member held (List.mem_cons_of_mem _ inside)
    · rename_i different
      have absent : current ∉ next :: rest := by
        intro inside
        have precedesNext : precedes current next := first next List.mem_cons_self
        rcases List.mem_cons.mp inside with same | inside
        · exact beq_eq_false_iff_ne.mp different same
        · have back : precedes next current := (List.pairwise_cons.mp later).1 current inside
          exact beq_eq_false_iff_ne.mp different (antisymm current next precedesNext back)
      refine ih later (List.nodup_cons.mpr ⟨?_, distinct⟩) ?_
      · exact fun member => before current member List.mem_cons_self
      · intro member held
        rcases List.mem_cons.mp held with rfl | held
        · exact absent
        · exact fun inside => before member held (List.mem_cons_of_mem _ inside)

/-- Sorting and dropping repeats loses nothing. -/
@[simp]
theorem mem_sortedDistinct [Ord α] [BEq α] [LawfulBEq α] {members : List α} {member : α} :
    member ∈ sortedDistinct members ↔ member ∈ members := by
  have sorted := @mem_sortBy _ (fun left right => (compare left right).isLE) members member
  rw [sortedDistinct, ← sorted]
  cases sortBy (fun left right => (compare left right).isLE) members with
  | nil => rfl
  | cons first rest =>
    change member ∈ List.eraseRepsBy.loop (· == ·) first rest [] ↔ _
    rw [mem_eraseReps_loop]
    simp

private theorem eraseReps_loop_sublist [BEq α] {current : α} {rest seen : List α} :
    (List.eraseRepsBy.loop (· == ·) current rest seen).Sublist
      (seen.reverse ++ current :: rest) := by
  induction rest generalizing current seen with
  | nil =>
    unfold List.eraseRepsBy.loop
    rw [List.reverse_cons]
  | cons next rest ih =>
    unfold List.eraseRepsBy.loop
    split
    · refine ih.trans (.append_left ?_ _)
      exact .cons_cons current (List.sublist_cons_self ..)
    · refine ih.trans ?_
      rw [List.reverse_cons, List.append_assoc, List.singleton_append]

/-- The members are left in ascending order. -/
theorem pairwise_sortedDistinct [Ord α] [Std.TransOrd α] [BEq α] (members : List α) :
    (sortedDistinct members).Pairwise fun left right => (compare left right).isLE = true := by
  have ascending := pairwise_sortBy_compare members
  unfold sortedDistinct
  generalize sortBy _ members = sorted at ascending ⊢
  cases sorted with
  | nil => exact ascending
  | cons first rest => exact ascending.sublist eraseReps_loop_sublist

/-- If the order tells all values apart, each member is left once. -/
theorem nodup_sortedDistinct [Ord α] [Std.TransOrd α] [Std.LawfulEqOrd α] [BEq α] [LawfulBEq α]
    (members : List α) : (sortedDistinct members).Nodup := by
  have ascending := pairwise_sortBy_compare members
  unfold sortedDistinct
  generalize sortBy _ members = sorted at ascending ⊢
  cases sorted with
  | nil => exact List.nodup_nil
  | cons first rest =>
    refine nodup_eraseReps_loop (fun left right before after => ?_) ascending List.nodup_nil ?_
    · exact Std.LawfulEqOrd.eq_of_compare (Std.OrientedCmp.isLE_antisymm before after)
    · exact fun _ absent => (List.not_mem_nil absent).elim

/-- What is sorted of fewer values is a part of what is sorted of all. -/
theorem sortedDistinct_sublist [Ord α] [Std.TransOrd α] [Std.LawfulEqOrd α] [BEq α]
    [LawfulBEq α] {some all : List α} (subset : some ⊆ all) :
    (sortedDistinct some).Sublist (sortedDistinct all) := by
  have : Std.Antisymm fun left right : α => (compare left right).isLE = true :=
    ⟨fun _ _ before after =>
      Std.LawfulEqOrd.eq_of_compare (Std.OrientedCmp.isLE_antisymm before after)⟩
  have inside : sortedDistinct some ⊆ sortedDistinct all := fun _ among =>
    mem_sortedDistinct.mpr (subset (mem_sortedDistinct.mp among))
  exact List.sublist_of_subperm_of_pairwise
    (List.subperm_of_subset (nodup_sortedDistinct some) inside)
    (pairwise_sortedDistinct some) (pairwise_sortedDistinct all)

end MetricQuery

/-! # Sorted lists and lists without repeats

Sorting is by insertion, which leaves members of equal rank as they stand; it goes through a list
member by member, so that what is sorted can be computed in proofs as well. There are three ways to
drop repeats, by the order that is wanted: the standard library's `List.eraseDups` keeps first
occurrences in place, `appendNew` extends a list by what it lacks, and `sortedDistinct` puts each
member once in ascending order.
-/

namespace MetricQuery

variable {α : Type}

/-- Puts a member in front of the first one that it may precede. -/
def insertSorted (precedes : α → α → Bool) (member : α) : List α → List α
  | [] => [member]
  | first :: rest =>
    if precedes member first then member :: first :: rest
    else first :: insertSorted precedes member rest

/-- The members of a list in order. -/
def sortBy (precedes : α → α → Bool) (members : List α) : List α :=
  members.foldr (insertSorted precedes) []

/-- Extends `base` by the members of `extra` that it does not hold yet, in their order. -/
def appendNew [BEq α] (base extra : List α) : List α :=
  extra.foldl (fun held member => if held.contains member then held else held ++ [member]) base

/-- Extending by nothing changes nothing. -/
@[simp]
theorem appendNew_nil [BEq α] (base : List α) : appendNew base [] = base := rfl

/-- Extension goes member by member from the left. -/
theorem appendNew_cons [BEq α] (base : List α) (member : α) (extra : List α) :
    appendNew base (member :: extra) =
      appendNew (if base.contains member then base else base ++ [member]) extra := rfl

/-- A list holds what its extension started from. -/
theorem mem_appendNew [BEq α] [LawfulBEq α] {base extra : List α} {member : α} :
    member ∈ appendNew base extra ↔ member ∈ base ∨ member ∈ extra := by
  induction extra generalizing base with
  | nil => simp
  | cons head rest ih =>
    rw [appendNew_cons, ih]
    by_cases held : head ∈ base
    · simp only [List.contains_eq_mem, held, decide_true, ↓reduceIte, List.mem_cons]
      constructor
      · intro present
        rcases present with left | right
        · exact .inl left
        · exact .inr (.inr right)
      · intro present
        rcases present with left | rfl | right
        · exact .inl left
        · exact .inl held
        · exact .inr right
    · simp [held, or_assoc]

/-- A list is extended by the first occurrences of what it does not hold. -/
theorem appendNew_eq_append [BEq α] [LawfulBEq α] (base extra : List α) :
    appendNew base extra =
      base ++ (extra.filter fun member => !base.contains member).eraseDups := by
  induction extra generalizing base with
  | nil => simp
  | cons head rest ih =>
    rw [appendNew_cons, ih]
    by_cases held : head ∈ base
    · simp [held]
    · have unheld : base.contains head = false := by simpa using held
      simp only [unheld, Bool.false_eq_true, ↓reduceIte, List.filter_cons, Bool.not_false,
        List.eraseDups_cons, List.filter_filter, List.append_assoc, List.singleton_append]
      congr 4
      funext member
      rw [Bool.eq_iff_iff]
      simp [and_comm]

/-- The members of a list in ascending order, each of them once. -/
def sortedDistinct [Ord α] [BEq α] (members : List α) : List α :=
  (sortBy (fun left right => (compare left right).isLE) members).eraseReps

end MetricQuery

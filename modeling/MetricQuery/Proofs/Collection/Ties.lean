import MetricQuery.Proofs.Collection.Sorting

/-! # Ties

Members of equal rank keep their order when a list is sorted (`filter_ties_sortBy`), and apart from
that the sorted list shows nothing of the order of the list (`sortBy_eq_sortBy_iff`). For the first
member alone it does not matter whether a part is sorted before the whole is
(`take_sortBy_append_take`, `take_sortBy_take_append`); it is the first one of those that precede all
others (`mem_take_sortBy_iff`).
-/

namespace MetricQuery

variable {α : Type}

/-- Whether two members may stand in either order. -/
def ties (precedes : α → α → Bool) (member other : α) : Bool :=
  precedes member other && precedes other member

section

variable {precedes : α → α → Bool}
  (trans : ∀ left between right, precedes left between = true → precedes between right = true →
    precedes left right = true)
  (total : ∀ left right, (precedes left right || precedes right left) = true)

include total in
/-- Every member ties with itself. -/
theorem ties_self (member : α) : ties precedes member member = true := by
  have self := total member member
  rw [Bool.or_self] at self
  rw [ties, self, Bool.and_self]

/-! ## Classes of ties -/

include total in
/-- A sorted list is determined by the order within each class of ties. -/
theorem eq_of_filter_ties_eq {left right : List α} (inOrder : left.Pairwise (precedes · · = true))
    (alsoInOrder : right.Pairwise (precedes · · = true))
    (same : ∀ member, left.filter (ties precedes member) = right.filter (ties precedes member)) :
    left = right := by
  induction left generalizing right with
  | nil =>
      cases right with
      | nil => rfl
      | cons first rest =>
          have held := same first
          rw [List.filter_cons, if_pos (ties_self total first)] at held
          exact nomatch held
  | cons first rest ih =>
      have held : first ∈ right.filter (ties precedes first) :=
        same first ▸ List.mem_filter.mpr ⟨List.mem_cons_self, ties_self total first⟩
      have among := List.mem_of_mem_filter held
      cases right with
      | nil => exact nomatch among
      | cons other others =>
          have self := ties_self total other
          obtain ⟨least, restInOrder⟩ := List.pairwise_cons.mp inOrder
          obtain ⟨alsoLeast, othersInOrder⟩ := List.pairwise_cons.mp alsoInOrder
          have reflexive : ∀ member, precedes member member = true := fun member =>
            (Bool.and_eq_true_iff.mp (ties_self total member)).1
          have before : precedes other first = true := by
            rcases List.mem_cons.mp among with rfl | later
            · exact reflexive first
            · exact alsoLeast first later
          have after : precedes first other = true := by
            have held : other ∈ (first :: rest).filter (ties precedes other) :=
              same other ▸ List.mem_filter.mpr ⟨List.mem_cons_self, self⟩
            rcases List.mem_cons.mp (List.mem_of_mem_filter held) with rfl | later
            · exact reflexive other
            · exact least other later
          have tied : ties precedes first other = true := Bool.and_eq_true_iff.mpr ⟨after, before⟩
          have heads := same first
          rw [List.filter_cons, if_pos (ties_self total first), List.filter_cons,
            if_pos tied] at heads
          obtain rfl := (List.cons.inj heads).1
          congr 1
          refine ih restInOrder othersInOrder fun member => ?_
          have parts := same member
          rw [List.filter_cons, List.filter_cons] at parts
          split at parts
          · exact (List.cons.inj parts).2
          · exact parts

include trans in
/-- A member that is kept is inserted among those that are kept as it is among all. -/
theorem filter_insertSorted {members : List α} (sorted : members.Pairwise (precedes · · = true))
    (member : α) (holds : α → Bool) :
    (insertSorted precedes member members).filter holds =
      if holds member then insertSorted precedes member (members.filter holds)
      else members.filter holds := by
  induction members with
  | nil => rw [insertSorted, List.filter_cons, List.filter_nil]; rfl
  | cons first rest ih =>
      obtain ⟨least, sorted⟩ := List.pairwise_cons.mp sorted
      rw [insertSorted]
      split
      · rename_i before
        have insert : ∀ kept : List α, (∀ other ∈ kept, precedes member other = true) →
            insertSorted precedes member kept = member :: kept := by
          intro kept above
          cases kept with
          | nil => rfl
          | cons other kept => rw [insertSorted, if_pos (above other List.mem_cons_self)]
        have above : ∀ other ∈ (first :: rest).filter holds, precedes member other = true := by
          intro other kept
          rcases List.mem_cons.mp (List.mem_of_mem_filter kept) with rfl | later
          · exact before
          · exact trans member first other before (least other later)
        rw [List.filter_cons, insert _ above]
      · rename_i behind
        rw [List.filter_cons, ih sorted, List.filter_cons]
        by_cases first : holds first = true
        · by_cases kept : holds member = true
          · simp only [first, kept, if_true, insertSorted, behind, Bool.false_eq_true, if_false]
          · simp only [first, kept, if_true, Bool.false_eq_true, if_false]
        · simp only [first, Bool.false_eq_true, if_false]

include trans total

/-- Sorting what is kept of a list is keeping it of the sorted list. -/
theorem filter_sortBy (members : List α) (holds : α → Bool) :
    (sortBy precedes members).filter holds = sortBy precedes (members.filter holds) := by
  induction members with
  | nil => rfl
  | cons member rest ih =>
      have sorted := pairwise_sortBy trans total rest
      change (insertSorted precedes member (sortBy precedes rest)).filter holds = _
      rw [filter_insertSorted trans sorted, ih, List.filter_cons]
      split <;> rfl

/-- Members of equal rank stay in their order. -/
theorem filter_ties_sortBy (members : List α) (member : α) :
    (sortBy precedes members).filter (ties precedes member) =
      members.filter (ties precedes member) := by
  rw [filter_sortBy trans total]
  refine sortBy_of_pairwise (List.pairwise_of_forall_mem_list fun left inLeft right inRight => ?_)
  have before := (List.mem_filter.mp inLeft).2
  have after := (List.mem_filter.mp inRight).2
  rw [ties, Bool.and_eq_true] at before after
  exact trans left member right before.2 after.1

/-- Two lists are sorted alike exactly if they have their ties in one order. -/
theorem sortBy_eq_sortBy_iff {left right : List α} :
    sortBy precedes left = sortBy precedes right ↔
      ∀ member, left.filter (ties precedes member) = right.filter (ties precedes member) := by
  constructor
  · intro same member
    rw [← filter_ties_sortBy trans total left, same, filter_ties_sortBy trans total right]
  · intro same
    refine eq_of_filter_ties_eq total (pairwise_sortBy trans total left)
      (pairwise_sortBy trans total right) fun member => ?_
    rw [filter_ties_sortBy trans total, filter_ties_sortBy trans total, same]

/-- Where members tie exactly if they have one key, lists are sorted alike exactly if the members of
each key come in one order. -/
theorem sortBy_eq_sortBy_iff_of_key {κ : Type} [BEq κ] [LawfulBEq κ] (key : α → κ)
    (tied : ∀ member other, ties precedes member other = (key other == key member))
    {left right : List α} : sortBy precedes left = sortBy precedes right ↔
      ∀ wanted, left.filter (key · == wanted) = right.filter (key · == wanted) := by
  have classes : ∀ (members : List α) member,
      members.filter (ties precedes member) = members.filter (key · == key member) :=
    fun members member => List.filter_congr fun other _ => tied member other
  rw [sortBy_eq_sortBy_iff trans total]
  simp only [classes]
  refine ⟨fun same wanted => ?_, fun same member => same (key member)⟩
  by_cases held : ∃ member, key member = wanted
  · obtain ⟨member, rfl⟩ := held
    exact same member
  · have none : ∀ members : List α, members.filter (key · == wanted) = [] := fun members =>
      List.filter_eq_nil_iff.mpr fun member _ same => held ⟨member, beq_iff_eq.mp same⟩
    rw [none, none]

/-! ## First members -/

omit trans total in
/-- What comes first behind an insertion depends on what came first before it. -/
theorem take_insertSorted (member : α) (members : List α) :
    (insertSorted precedes member members).take 1 =
      (insertSorted precedes member (members.take 1)).take 1 := by
  cases members with
  | nil => rfl
  | cons first rest =>
      rw [List.take_succ_cons, List.take_zero, insertSorted, insertSorted]
      split <;> rfl

omit trans total in
/-- For the first member it does not matter whether the right part has been reduced to its own first
member before. -/
theorem take_sortBy_append_take (left right : List α) :
    (sortBy precedes (left ++ (sortBy precedes right).take 1)).take 1 =
      (sortBy precedes (left ++ right)).take 1 := by
  induction left with
  | nil =>
      rw [List.nil_append, List.nil_append]
      cases sortBy precedes right <;> rfl
  | cons member rest ih =>
      change (insertSorted precedes member (sortBy precedes (rest ++ _))).take 1 = _
      rw [take_insertSorted, ih, ← take_insertSorted]
      rfl

/-- Of two members in front of others the one that is sorted first counts. -/
theorem take_sortBy_cons_cons (first second : α) (rest : List α) :
    (sortBy precedes (first :: second :: rest)).take 1 =
      (sortBy precedes ((if precedes first second then first else second) :: rest)).take 1 := by
  change (insertSorted precedes first (insertSorted precedes second (sortBy precedes rest))).take 1
    = (insertSorted precedes _ (sortBy precedes rest)).take 1
  have either := total first second
  cases sortBy precedes rest with
  | nil =>
      rw [insertSorted, insertSorted, insertSorted]
      split <;> rfl
  | cons least others =>
      have chain := trans first second least
      have back := trans second first least
      simp only [insertSorted]
      cases before : precedes first second <;> cases next : precedes second least <;>
        cases ahead : precedes first least <;> simp_all [insertSorted]

/-- For the first member it does not matter whether the left part has been reduced to its own first
member before. -/
theorem take_sortBy_take_append (left right : List α) :
    (sortBy precedes ((sortBy precedes left).take 1 ++ right)).take 1 =
      (sortBy precedes (left ++ right)).take 1 := by
  induction left with
  | nil => rfl
  | cons member rest ih =>
      have whole : (sortBy precedes (member :: rest ++ right)).take 1 =
          (insertSorted precedes member (sortBy precedes ((sortBy precedes rest).take 1 ++
            right))).take 1 := by
        rw [take_insertSorted, ih, ← take_insertSorted]
        rfl
      rw [whole]
      change (sortBy precedes ((insertSorted precedes member (sortBy precedes rest)).take 1 ++
        right)).take 1 = _
      cases sortBy precedes rest with
      | nil => rfl
      | cons first others =>
          change _ = (sortBy precedes (member :: first :: right)).take 1
          rw [take_sortBy_cons_cons trans total, insertSorted]
          split <;> rfl

omit trans total in
/-- Either the first member precedes all others, or the first one of the others that does so comes
before it. -/
theorem exists_first_cons_iff {first member : α} {rest : List α} :
    (∃ before after, first :: rest = before ++ member :: after ∧
        (∀ earlier ∈ before, precedes earlier member = false) ∧
        ∀ later ∈ after, precedes member later = true) ↔
      (member = first ∧ ∀ later ∈ rest, precedes first later = true) ∨
        precedes first member = false ∧ ∃ before after, rest = before ++ member :: after ∧
          (∀ earlier ∈ before, precedes earlier member = false) ∧
          ∀ later ∈ after, precedes member later = true := by
  constructor
  · rintro ⟨before, after, parts, early, late⟩
    rcases List.cons_eq_append_iff.mp parts with ⟨rfl, same⟩ | ⟨others, rfl, rfl⟩
    · obtain ⟨rfl, rfl⟩ := List.cons.inj same
      exact .inl ⟨rfl, late⟩
    · refine .inr ⟨early first List.mem_cons_self, others, after, rfl, ?_, late⟩
      exact fun earlier among => early earlier (List.mem_cons_of_mem _ among)
  · rintro (⟨rfl, late⟩ | ⟨behind, before, after, rfl, early, late⟩)
    · exact ⟨[], rest, rfl, fun _ absent => (List.not_mem_nil absent).elim, late⟩
    · exact ⟨first :: before, after, rfl, List.forall_mem_cons.mpr ⟨behind, early⟩, late⟩

/-- A member is sorted first exactly if it is the first one of those that precede all others. -/
theorem mem_take_sortBy_iff {members : List α} {member : α} :
    member ∈ (sortBy precedes members).take 1 ↔ ∃ before after,
      members = before ++ member :: after ∧
        (∀ earlier ∈ before, precedes earlier member = false) ∧
        ∀ later ∈ after, precedes member later = true := by
  induction members generalizing member with
  | nil =>
      refine ⟨fun absent => (List.not_mem_nil absent).elim, fun parts => ?_⟩
      obtain ⟨before, after, parts, _⟩ := parts
      cases (List.append_eq_nil_iff.mp parts.symm).2
  | cons first rest ih =>
      have sorted := pairwise_sortBy trans total rest
      have perm := sortBy_perm precedes rest
      rw [exists_first_cons_iff, ← ih]
      change member ∈ (insertSorted precedes first (sortBy precedes rest)).take 1 ↔ _
      cases arranged : sortBy precedes rest with
      | nil =>
          obtain rfl := (arranged ▸ perm).nil_eq
          simp [insertSorted]
      | cons least others =>
          rw [arranged] at sorted perm
          have below : (∀ other ∈ rest, precedes first other = true) ↔
              precedes first least = true := by
            refine ⟨fun all => all least (perm.mem_iff.mp List.mem_cons_self), fun ahead => ?_⟩
            intro other among
            rcases List.mem_cons.mp (perm.mem_iff.mpr among) with rfl | among
            · exact ahead
            · exact trans first least other ahead (List.rel_of_pairwise_cons sorted among)
          rw [insertSorted, below]
          cases ahead : precedes first least with
          | false =>
              suffices member = least → precedes first member = false by simpa
              rintro rfl
              exact ahead
          | true =>
              suffices precedes first member = false → member = least → member = first by simpa
              rintro behind rfl
              cases ahead.symm.trans behind

end

end MetricQuery

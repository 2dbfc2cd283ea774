import MetricQuery.Proofs.Item.Describing

/-! # References read again

A reference that was read is written, and what is written is read. A bare name gives the same
reference again. A call gives it again, but for the direction, exactly if what it folds into one
name can be told apart (`ItemReference.read_again_iff`): the last link and the name are written as
one name, and so is what a metric is grouped by, without a look at what these names mean there.
-/

namespace MetricQuery

namespace ItemReference

open DunderedName (IsLast IsSegment isSegmentChar)

variable {input : String} {reference : ItemReference}

/-- Only a time dimension comes with a grain or a date part. -/
theorem untimed_of_settleKind {given kind : ItemKind} {isTime : Bool}
    (settled : settleKind given isTime = .ok kind) (other : kind ≠ .timeDimension) :
    isTime = false := by
  cases isTime with
  | false => rfl
  | true =>
      cases given with
      | dimension => exact (other (Except.ok.inj settled).symm).elim
      | timeDimension => exact (other (Except.ok.inj settled).symm).elim
      | entity => exact nomatch settled
      | metric => exact nomatch settled

/-- A metric is grouped by one item behind links that stay apart. -/
theorem exists_of_groupByLinksOf {groupBy links : List String}
    (ok : groupByLinksOf input groupBy = .ok links) :
    ∃ outer element, links = outer ++ [element] ∧ (∀ link ∈ outer, IsSegment link) ∧
      IsLast element := by
  unfold groupByLinksOf at ok
  split at ok
  · split at ok
    · exact nomatch ok
    · rename_i name read
      obtain rfl := Except.ok.inj ok
      obtain ⟨_, linked, isLast, _⟩ := DunderedName.spells_of_read read
      exact ⟨name.links, name.element, rfl, linked, isLast⟩
  · exact nomatch ok

/-- What a description is read as can be written legibly. -/
theorem isLegible_of_ofDescription {description : ItemDescription}
    (ok : ofDescription input description = .ok reference)
    (path : ∀ entry ∈ description.entityPath,
      entry ≠ "" ∧ entry.toList.all isSegmentChar = true) :
    ∃ kind, reference.IsLegible kind := by
  obtain ⟨name, given, grain, givenPart, kind, groupByLinks, read, -, -, -, settled, grouped, rfl⟩ :=
    ofDescription_eq_ok.mp ok
  obtain ⟨_, linked, isLast, _⟩ := DunderedName.spells_of_read read
  refine ⟨kind, rfl, isLast, ?_, ?_, ?_, ?_⟩
  · exact List.forall_mem_append.mpr
      ⟨path, fun link among => ⟨(linked link among).nonempty, (linked link among).chars⟩⟩
  · intro other
    obtain ⟨grainless, partless⟩ := Bool.or_eq_false_iff.mp (untimed_of_settleKind settled other)
    exact ⟨Option.not_isSome_iff_eq_none.mp (Bool.eq_false_iff.mp grainless),
      Option.not_isSome_iff_eq_none.mp (Bool.eq_false_iff.mp partless)⟩
  · intro isMetric
    rw [if_pos isMetric] at grouped
    obtain ⟨links, found, rfl⟩ := map_eq_ok.mp grouped
    obtain ⟨outer, element, rfl, each, isTarget⟩ := exists_of_groupByLinksOf found
    exact ⟨outer, element, rfl, each, isTarget⟩
  · intro other
    rw [if_neg other] at grouped
    exact (Except.ok.inj grouped).symm

/-- A bare name is written as the dundered name that it was read from. -/
theorem written_ofName (name : DunderedName) : (ofName name).written = name.written := rfl

/-- A bare name that was read is read again as it was. -/
theorem read_written_of_readName (ok : readName input = .ok reference) :
    reference.kind = none ∧ reference.descending = none ∧
      read reference.written = .ok reference := by
  unfold readName at ok
  split at ok
  · exact nomatch ok
  · rename_i name named
    obtain rfl := Except.ok.inj ok
    obtain ⟨_, linked, isLast, _⟩ := DunderedName.spells_of_read named
    have plain : ¬ looksLikeCall name.written = true := fun called =>
      have opening : '(' ∈ name.written.toList := List.contains_iff_mem.mp called
      absurd (List.all_eq_true.mp (DunderedName.all_isSegmentChar_written linked isLast) _ opening)
        (by decide)
    refine ⟨rfl, rfl, ?_⟩
    rw [written_ofName, read, if_neg plain, readName, DunderedName.read_written_of_read named]

/-- A reference that was read, from either notation, is read again as it is written, exactly if it
is a bare name or nothing in its call is mistaken. -/
theorem read_again_iff (ok : read input = .ok reference)
    (path : ∀ description, readDescription input = .ok description →
      ∀ entry ∈ description.entityPath, entry ≠ "" ∧ entry.toList.all isSegmentChar = true) :
    read reference.written = .ok { reference with descending := none } ↔
      reference.kind = none ∨ reference.IsRestated := by
  unfold read at ok
  split at ok
  · obtain ⟨description, described, ok⟩ := bind_eq_ok.mp ok
    obtain ⟨kind, legible⟩ := isLegible_of_ofDescription ok (path description described)
    rw [read_written_iff_of_isLegible legible, legible.ofKind]
    exact ⟨.inr, fun restated => restated.resolve_left nofun⟩
  · obtain ⟨kindless, undirected, again⟩ := read_written_of_readName ok
    have same : { reference with descending := none } = reference := by
      rw [← undirected]
    rw [same]
    exact ⟨fun _ => .inl kindless, fun _ => again⟩

/-- A time dimension behind two links is read again as it was. -/
theorem read_again_creation :
    read "Dimension('user__created_at', 'month', entity_path=['listing'], descending=True)" =
      .ok ⟨some .timeDimension, "created_at", ["listing", "user"], some .month, none, none,
        some true⟩ ∧
    read "TimeDimension('user__created_at', 'month', entity_path=['listing'])" =
      .ok ⟨some .timeDimension, "created_at", ["listing", "user"], some .month, none, none,
        none⟩ := by
  have ok : read
      "Dimension('user__created_at', 'month', entity_path=['listing'], descending=True)" =
      .ok ⟨some .timeDimension, "created_at", ["listing", "user"], some .month, none, none,
        some true⟩ := by decide +kernel
  refine ⟨ok, (read_again_iff ok ?_).mpr (.inr ⟨?_, nofun, nofun⟩)⟩
  · intro description described
    have same : readDescription
        "Dimension('user__created_at', 'month', entity_path=['listing'], descending=True)" =
        .ok ⟨.dimension, "user__created_at", ["listing"], some "month", none, none, some true⟩ := by
      decide +kernel
    obtain rfl := Except.ok.inj (described.symm.trans same)
    exact List.forall_mem_singleton.mpr (by decide)
  · rintro link ⟨⟩
    exact ⟨⟨by decide, by decide⟩, by decide⟩

/-- An element that is called as a grain is taken for the grain of its link. -/
theorem not_read_again_day :
    ∃ reference, read "Dimension('day', entity_path=['listing'])" = .ok reference ∧
      (∀ description, readDescription "Dimension('day', entity_path=['listing'])" =
        .ok description → ∀ entry ∈ description.entityPath,
          entry ≠ "" ∧ entry.toList.all isSegmentChar = true) ∧
      reference.written = "Dimension('listing__day')" ∧
      read reference.written = .ok ⟨some .timeDimension, "listing", [], some .day, none, none,
        none⟩ ∧
      read reference.written ≠ .ok { reference with descending := none } := by
  refine ⟨⟨some .dimension, "day", ["listing"], none, none, none, none⟩, by decide +kernel, ?_,
    by decide +kernel, by decide +kernel, by decide +kernel⟩
  intro description described
  have same : readDescription "Dimension('day', entity_path=['listing'])" =
      .ok ⟨.dimension, "day", ["listing"], none, none, none, none⟩ := by decide +kernel
  obtain rfl := Except.ok.inj (described.symm.trans same)
  exact List.forall_mem_singleton.mpr (by decide)

end ItemReference

end MetricQuery

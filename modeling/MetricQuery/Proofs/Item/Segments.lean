import MetricQuery.Dataflow.Planning
import MetricQuery.Proofs.Item.Naming

/-! # Segments of columns

The name of a column is made of segments: the links, the element, and the grain or the date part of
a time dimension. Where names are well formed (`DunderedName.IsWellFormed`), the segments of an item
tell its links, the name of its element and what stands behind (`GroupByItem.segments_inj`).
-/

namespace MetricQuery

namespace DunderedName

/-- Whether a name is neither divided by underscores nor surrounded by them, and no grain and no
date part. -/
structure IsWellFormed (name : String) : Prop extends IsApart name where
  begins : name.toList.head? ≠ some '_'
  noGrain : name ∉ Grain.all.map Grain.name
  noPart : name ∉ DatePart.all.map partSegment

instance (name : String) : Decidable (IsWellFormed name) :=
  decidable_of_iff (¬ ['_', '_'] <:+: name.toList ∧ name.toList.getLast? ≠ some '_' ∧
      name.toList.head? ≠ some '_' ∧ name ∉ Grain.all.map Grain.name ∧
      name ∉ DatePart.all.map partSegment)
    ⟨fun ⟨undivided, ends, begins, noGrain, noPart⟩ => ⟨⟨undivided, ends⟩, begins, noGrain, noPart⟩,
      fun formed => ⟨formed.undivided, formed.ends, formed.begins, formed.noGrain, formed.noPart⟩⟩

/-- What is put behind a name that separators keep apart is kept apart together with it. -/
theorem not_infix_append {chars others : List Char} (undivided : ¬ ['_', '_'] <:+: chars)
    (ends : chars.getLast? ≠ some '_') (further : ¬ ['_', '_'] <:+: others) :
    ¬ ['_', '_'] <:+: chars ++ others := by
  induction chars with
  | nil => exact further
  | cons c chars ih =>
      rw [List.cons_append, List.infix_cons_iff]
      rintro (⟨rest, divided⟩ | inside)
      · cases chars with
        | nil =>
            obtain ⟨rfl, _⟩ := List.cons.inj divided
            exact ends rfl
        | cons d chars =>
            obtain ⟨rfl, tail⟩ := List.cons.inj divided
            obtain ⟨rfl, _⟩ := List.cons.inj tail
            exact undivided ⟨[], chars, rfl⟩
      · refine ih (fun divided => undivided (List.infix_cons divided)) ?_ inside
        cases chars with
        | nil => nofun
        | cons d chars => rwa [List.getLast?_cons_cons] at ends

private theorem joinSegments_concat {names : List String} (some : names ≠ []) (last : String) :
    joinSegments (names ++ [last]) = joinSegments names ++ separator ++ last := by
  induction names with
  | nil => exact (some rfl).elim
  | cons name names ih =>
      cases names with
      | nil => rfl
      | cons second names =>
          have ih := ih (List.cons_ne_nil _ _)
          rw [joinSegments] at ih
          rw [joinSegments, List.cons_append, List.cons_append, String.intercalate_cons_cons,
            ← List.cons_append, ih, joinSegments, joinSegments, String.intercalate_cons_cons]
          simp only [String.append_assoc]

private theorem isApart_grain (grain : Grain) : IsApart grain.name := by
  cases grain <;> exact ⟨by decide, by decide⟩

private theorem isApart_partSegment (part : DatePart) : IsApart (partSegment part) := by
  cases part <;> exact ⟨by decide, by decide⟩

/-- The name of metric time is well-formed. -/
theorem isWellFormed_metricTimeName : IsWellFormed metricTimeName := by decide

/-- The generated name of a divisor is kept apart if its own is. -/
theorem IsApart.divisorName {name : String} (isApart : IsApart name) :
    IsApart (Dataflow.divisorName name) := by
  constructor
  · rw [Dataflow.divisorName, String.toList_append]
    exact not_infix_append isApart.undivided isApart.ends (by decide)
  · rw [Dataflow.divisorName, String.toList_append, List.getLast?_append_of_ne_nil _ (by decide)]
    decide

/-- Different date parts are written differently. -/
theorem partSegment_inj {part other : DatePart} (same : partSegment part = partSegment other) :
    part = other := by
  revert same
  cases part <;> cases other <;> decide

/-- Different grains have different names. -/
theorem grainName_inj {grain other : Grain} (same : grain.name = other.name) : grain = other := by
  revert same
  cases grain <;> cases other <;> decide

/-- No grain is written as a date part is. -/
theorem grainName_ne_partSegment (grain : Grain) (part : DatePart) :
    grain.name ≠ partSegment part := by
  cases grain <;> cases part <;> decide

end DunderedName

open DunderedName

namespace GroupByItem

/-- The segments of the name of an item. -/
def segments (item : GroupByItem) : List String :=
  item.links ++ item.name :: item.suffix?.toList

/-- The qualified name of an item joins its segments. -/
theorem qualifiedName_eq (item : GroupByItem) :
    item.qualifiedName = joinSegments item.segments := by
  unfold qualifiedName segments
  cases item.suffix? with
  | none => rfl
  | some suffix =>
      rw [Option.toList_some, List.append_cons, joinSegments_concat (by simp)]
      rfl

/-- There is always something behind the name of a time dimension. -/
theorem suffix?_ne_none {name : String} {links : List String} {grain : Grain}
    {part : Option DatePart} : (timeDimension name links grain part).suffix? ≠ none := by
  cases part <;> exact nofun

/-- What is put behind the name of a time dimension is no well-formed name. -/
theorem not_isWellFormed_suffix {item : GroupByItem} {suffix : String}
    (found : item.suffix? = some suffix) : ¬ IsWellFormed suffix := by
  intro formed
  match item with
  | .timeDimension _ _ grain none =>
      obtain rfl := Option.some.inj found
      exact formed.noGrain (List.mem_map_of_mem (Grain.mem_all grain))
  | .timeDimension _ _ _ (some part) =>
      obtain rfl := Option.some.inj found
      exact formed.noPart (List.mem_map_of_mem (DatePart.mem_all part))

private theorem isApart_suffix {item : GroupByItem} {suffix : String}
    (found : item.suffix? = some suffix) : IsApart suffix := by
  match item with
  | .timeDimension _ _ grain none => exact Option.some.inj found ▸ isApart_grain grain
  | .timeDimension _ _ _ (some part) => exact Option.some.inj found ▸ isApart_partSegment part

/-- The segments of an item are kept apart where its name and links are. -/
theorem isApart_of_mem_segments {item : GroupByItem} (name : IsApart item.name)
    (links : ∀ link ∈ item.links, IsApart link) : ∀ segment ∈ item.segments, IsApart segment := by
  intro segment member
  rcases List.mem_append.mp member with link | member
  · exact links segment link
  · rcases List.mem_cons.mp member with rfl | member
    · exact name
    · exact isApart_suffix (Option.mem_toList.mp member)

/-- The segments of an item tell its links, its element and what stands behind it. -/
theorem segments_inj {item other : GroupByItem} (formed : IsWellFormed item.name)
    (otherFormed : IsWellFormed other.name) (same : item.segments = other.segments) :
    item.links = other.links ∧ item.name = other.name ∧ item.suffix? = other.suffix? := by
  unfold segments at same
  cases found : item.suffix? with
  | none =>
      cases otherFound : other.suffix? with
      | none =>
          rw [found, otherFound] at same
          obtain ⟨links, names⟩ := List.append_inj' same rfl
          exact ⟨links, (List.cons.inj names).1, rfl⟩
      | some suffix =>
          rw [found, otherFound, Option.toList_some, List.append_cons other.links] at same
          have name := (List.cons.inj (List.append_inj' same rfl).2).1
          exact (not_isWellFormed_suffix otherFound (name ▸ formed)).elim
  | some suffix =>
      cases otherFound : other.suffix? with
      | none =>
          rw [found, otherFound, Option.toList_some, List.append_cons item.links] at same
          have name := (List.cons.inj (List.append_inj' same rfl).2).1
          exact (not_isWellFormed_suffix found (name ▸ otherFormed)).elim
      | some otherSuffix =>
          rw [found, otherFound] at same
          obtain ⟨links, names⟩ := List.append_inj' same rfl
          obtain ⟨name, suffixes⟩ := List.cons.inj names
          exact ⟨links, name, congrArg some (List.cons.inj suffixes).1⟩

end GroupByItem

/-- The segments of the name of a column. -/
def ColumnContent.segments : ColumnContent → List String
  | measure name => [name]
  | metric output => [output.name]
  | item value => value.segments

/-- The column name of a content joins its segments. -/
theorem ColumnContent.columnName_eq (content : ColumnContent) :
    content.columnName = joinSegments content.segments := by
  cases content with
  | measure name => exact String.intercalate_singleton.symm
  | metric output => exact String.intercalate_singleton.symm
  | item value => exact value.qualifiedName_eq

/-- Every content has a segment. -/
theorem ColumnContent.segments_ne_nil (content : ColumnContent) : content.segments ≠ [] := by
  cases content with
  | measure name => exact List.cons_ne_nil _ _
  | metric output => exact List.cons_ne_nil _ _
  | item value => exact List.append_ne_nil_of_right_ne_nil _ (List.cons_ne_nil _ _)

end MetricQuery

import MetricQuery.Proofs.Item.Restating
import MetricQuery.Proofs.Scope.Narrowing

/-! # References and their patterns

What a reference that was read cannot say, in whichever notation, and whichever arguments of its
call take the place of others: only time dimensions and items of an open kind have a grain or a date
part, and exactly metrics are grouped by something (`ItemReference.IsConsistent`). The pattern of
such a reference compares what the reference says and nothing else (`ItemPattern.Reflects`). Both
are put together in `ItemReference.isConsistent_of_read`.
-/

namespace MetricQuery

/-- Whether an item has a property as a pattern asks for it. -/
def ItemField.Agrees (pattern : ItemPattern) (item : GroupByItem) : ItemField → Prop
  | datePart => item.part = pattern.part
  | elementName => item.name = pattern.name
  | entityLinks => pattern.links <:+ item.links
  | metricSubqueryEntityLinks => item.subqueryLinks = pattern.subqueryLinks
  | timeGranularity => item.grain = pattern.grain

namespace ItemReference

open DunderedName (IsLast)

/-- Whether a reference has a proper name and the details that its kind can have. -/
structure IsConsistent (reference : ItemReference) : Prop where
  /-- The name is not empty, has letters, digits and underscores only, and no two underscores side
  by side. -/
  name : IsLast reference.name
  timed : reference.grain ≠ none ∨ reference.part ≠ none →
    reference.kind = some .timeDimension ∨ reference.kind = none
  grouped : reference.groupByLinks ≠ none ↔ reference.kind = some .metric
  grouping : reference.groupByLinks ≠ some []

variable {input : String} {reference : ItemReference}

/-- The entities that a call names apart from the name only stand in front of the links. -/
theorem ofDescription_withoutPath {description : ItemDescription}
    (ok : ofDescription input description = .ok reference) : ∃ links,
      ofDescription input { description with entityPath := [] } = .ok { reference with links } := by
  obtain ⟨name, given, grain, givenPart, kind, groupByLinks, read, resolved, settled, resolvedPart,
    ofKind, grouped, rfl⟩ := ofDescription_eq_ok.mp ok
  exact ⟨name.links, ofDescription_eq_ok.mpr ⟨name, given, grain, givenPart, kind, groupByLinks,
    read, resolved, settled, resolvedPart, ofKind, grouped, rfl⟩⟩

private theorem IsLegible.isConsistent {kind : ItemKind} (legible : reference.IsLegible kind) :
    reference.IsConsistent where
  name := legible.name
  timed := by
    intro given
    by_cases isTime : kind = .timeDimension
    · exact .inl (isTime ▸ legible.ofKind)
    · obtain ⟨grainless, partless⟩ := legible.timed isTime
      exact (given.elim (· grainless) (· partless)).elim
  grouped := by
    rw [legible.ofKind, Option.some.injEq]
    constructor
    · intro grouped
      exact Decidable.not_imp_comm.mp legible.ungrouped grouped
    · intro isMetric
      obtain ⟨links, element, same, -⟩ := legible.grouped isMetric
      rw [same]
      exact Option.some_ne_none _
  grouping := by
    intro none
    by_cases isMetric : kind = .metric
    · obtain ⟨links, element, same, -⟩ := legible.grouped isMetric
      exact List.concat_ne_nil element links (Option.some.inj (same.symm.trans none))
    · exact nomatch none.symm.trans (legible.ungrouped isMetric)

/-- What a call is read as has a kind. -/
theorem isConsistent_of_ofDescription {description : ItemDescription}
    (ok : ofDescription input description = .ok reference) :
    reference.IsConsistent ∧ reference.kind ≠ none := by
  obtain ⟨links, ok⟩ := ofDescription_withoutPath ok
  obtain ⟨kind, legible⟩ := isLegible_of_ofDescription ok nofun
  obtain ⟨name, timed, grouped, grouping⟩ := legible.isConsistent
  have ofKind : reference.kind = some kind := legible.ofKind
  exact ⟨⟨name, timed, grouped, grouping⟩, ofKind ▸ Option.some_ne_none kind⟩

/-- What a bare name is read as has no kind. -/
theorem isConsistent_of_readName (ok : readName input = .ok reference) :
    reference.IsConsistent ∧ reference.kind = none := by
  unfold readName at ok
  split at ok
  · exact nomatch ok
  · rename_i name named
    obtain rfl := Except.ok.inj ok
    obtain ⟨_, _, isLast, _⟩ := DunderedName.spells_of_read named
    exact ⟨⟨isLast, fun _ => .inr rfl, ⟨fun grouped => (grouped rfl).elim, nofun⟩, nofun⟩, rfl⟩

end ItemReference

namespace ItemPattern

/-- Whether a pattern asks for what a reference says: it compares links, name and date part always,
the grain and the links of a subquery where the reference has them, and accepts time dimensions
unless the reference is to an entity or a metric. -/
structure Reflects (pattern : ItemPattern) (reference : ItemReference) : Prop where
  name : pattern.name = reference.name
  part : pattern.part = reference.part
  grain : pattern.grain = reference.grain
  subqueryLinks : pattern.subqueryLinks = reference.groupByLinks
  comparesPart : .datePart ∈ pattern.fields
  comparesGrain : .timeGranularity ∈ pattern.fields ↔ reference.grain ≠ none
  comparesSubqueryLinks :
    .metricSubqueryEntityLinks ∈ pattern.fields ↔ reference.kind = some .metric
  acceptsTime : .timeDimension ∈ pattern.kinds ↔
    reference.kind ≠ some .entity ∧ reference.kind ≠ some .metric
  /-- An item agrees with the pattern if it agrees in each property that is compared. -/
  agrees (item : GroupByItem) : pattern.acceptsLinks item = true ∧ pattern.agrees item = true ↔
    ∀ field ∈ pattern.fields, field.Agrees pattern item

/-- A pattern asks about a field when it says something about it; the name and the links always
count. -/
theorem mem_fields_iff {pattern : ItemPattern} {field : ItemField} : field ∈ pattern.fields ↔
    match field with
    | .metricSubqueryEntityLinks => pattern.subqueryLinks ≠ none
    | .timeGranularity => pattern.grain ≠ none
    | _ => True := by
  cases field <;> simp [fields, Option.isSome_iff_ne_none]

private theorem agrees_iff_fields {pattern : ItemPattern} {item : GroupByItem} :
    pattern.acceptsLinks item = true ∧ pattern.agrees item = true ↔
      ∀ field ∈ pattern.fields, field.Agrees pattern item := by
  simp only [mem_fields_iff]
  rw [agrees_iff, acceptsLinks, List.isSuffixOf_iff_suffix]
  constructor
  · rintro ⟨links, name, part, grain, subqueryLinks⟩ (_ | _)
    · exact fun _ => part
    · exact fun _ => name
    · exact fun _ => links
    · exact subqueryLinks
    · exact grain
  · intro each
    exact ⟨each .entityLinks trivial, each .elementName trivial, each .datePart trivial,
      each .timeGranularity, each .metricSubqueryEntityLinks⟩

private theorem timeDimension_mem_kindsOf_iff {reference : ItemReference} :
    .timeDimension ∈ kindsOf reference ↔
      reference.kind ≠ some .entity ∧ reference.kind ≠ some .metric := by
  unfold kindsOf
  split
  · rename_i ofKind
    simp [ofKind, ItemKind.all]
  · rename_i ofKind
    rw [ofKind]
    split <;> simp
  · rename_i kind notDimension ofKind
    cases kind with
    | dimension => exact (notDimension rfl).elim
    | _ => simp [ofKind]

/-- The pattern of a consistent reference asks for what the reference says. -/
theorem reflects_ofReference {reference : ItemReference} (consistent : reference.IsConsistent) :
    (ofReference reference).Reflects reference := by
  have subqueryLinks : (ofReference reference).subqueryLinks = reference.groupByLinks := by
    cases given : reference.groupByLinks with
    | none =>
        have other := consistent.grouped.not.mp (not_not_intro given)
        simp [ofReference, other]
    | some links =>
        have isMetric := consistent.grouped.mp (given ▸ Option.some_ne_none links)
        simp [ofReference, isMetric, given]
  refine ⟨rfl, rfl, rfl, subqueryLinks, mem_fields_iff.mpr trivial, mem_fields_iff, ?_,
    timeDimension_mem_kindsOf_iff, fun item => agrees_iff_fields⟩
  rw [mem_fields_iff, subqueryLinks]
  exact consistent.grouped

end ItemPattern

namespace ItemReference

variable {input : String} {reference : ItemReference}

/-- Whatever is read is consistent, has a kind exactly if it was written as a call, and is looked up
by a pattern that asks for what it says. -/
theorem isConsistent_of_read (ok : read input = .ok reference) :
    reference.IsConsistent ∧ (reference.kind = none ↔ '(' ∉ input.toList) ∧
      (ItemPattern.ofReference reference).Reflects reference := by
  have called : looksLikeCall input = true ↔ '(' ∈ input.toList := List.contains_iff_mem
  unfold read at ok
  split at ok
  · rename_i isCall
    obtain ⟨description, -, ok⟩ := bind_eq_ok.mp ok
    obtain ⟨consistent, kind⟩ := isConsistent_of_ofDescription ok
    exact ⟨consistent,
      ⟨fun none => (kind none).elim, fun absent => (absent (called.mp isCall)).elim⟩,
      ItemPattern.reflects_ofReference consistent⟩
  · rename_i isName
    obtain ⟨consistent, kind⟩ := isConsistent_of_readName ok
    exact ⟨consistent, ⟨fun _ inside => isName (called.mpr inside), fun _ => kind⟩,
      ItemPattern.reflects_ofReference consistent⟩

/-- Of the grains of a time dimension the last one counts, which has to be the one in its name. -/
theorem isConsistent_of_read_creation :
    read ("Dimension('listing__created_at__day', 'week', entity_path=['customer'], " ++
      "time_granularity_name='month').date_part('dow').grain('DAY')") =
      .ok ⟨some .timeDimension, "created_at", ["customer", "listing"], some .day,
        some .dayOfWeek, none, none⟩ ∧
    (⟨some .timeDimension, "created_at", ["customer", "listing"], some .day,
        some .dayOfWeek, none, none⟩ : ItemReference).IsConsistent ∧
    read "Metric('revenue', [], group_by=['listing__customer'], descending=True)" =
      .ok ⟨some .metric, "revenue", [], none, none, some ["listing", "customer"], some true⟩ ∧
    (ItemPattern.mk [.metric] "revenue" ["customer"] none none
      (some ["listing", "customer"])).Reflects
        ⟨some .metric, "revenue", [], none, none, some ["listing", "customer"], some true⟩ := by
  have timely : read ("Dimension('listing__created_at__day', 'week', entity_path=['customer'], " ++
      "time_granularity_name='month').date_part('dow').grain('DAY')") =
      .ok ⟨some .timeDimension, "created_at", ["customer", "listing"], some .day,
        some .dayOfWeek, none, none⟩ := by decide +kernel
  have grouped : read "Metric('revenue', [], group_by=['listing__customer'], descending=True)" =
      .ok ⟨some .metric, "revenue", [], none, none, some ["listing", "customer"], some true⟩ := by
    decide +kernel
  exact ⟨timely, (isConsistent_of_read timely).1, grouped, (isConsistent_of_read grouped).2.2⟩

end ItemReference

end MetricQuery

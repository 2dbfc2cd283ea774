import MetricQuery.Proofs.Catalog
import MetricQuery.Proofs.Item.Segments

/-! # Names that label columns

What the names in a manifest have to be like for columns to be told by their names
(`Manifest.LabelsApart`). Columns that hold different things can still get one name: a part of a
time dimension is named without the grain from which it is extracted, and a measure or a metric as
if it were an element without links. Where no two columns of a table differ in this way alone, it is
`Legible`, and no two of its columns have one name (`Legible.eq_of_columnName_eq`).
-/

namespace MetricQuery

open DunderedName

namespace Manifest

/-- The names of metrics as inputs of others, and the ones that they get there. -/
def inputNames (manifest : Manifest) : List String :=
  (manifest.metrics.flatMap Metric.inputMetrics).flatMap fun input =>
    input.name :: input.newName.toList

/-- The names under which metrics appear in results and in front of the formulas of others. Some
divisors get theirs from the compiler. -/
def outputNames (manifest : Manifest) : List String :=
  manifest.metrics.flatMap fun metric =>
    metric.name :: (Dataflow.inputOutputs metric).map MetricOutput.name

/-- Names are well formed and say whether they stand for an entity, a dimension or a metric. They
are distinct within each model and among the inputs of each metric. -/
structure LabelsApart (manifest : Manifest) : Prop where
  formed : ∀ name ∈ manifest.entityNames ++ manifest.dimensionNames ++ manifest.measureNames ++
    manifest.metricNames ++ manifest.inputNames, IsWellFormed name
  elements : ∀ name ∈ manifest.entityNames, name ∉ manifest.dimensionNames
  outputs : ∀ name ∈ manifest.outputNames,
    name ∉ manifest.entityNames ∧ name ∉ manifest.dimensionNames
  models : ∀ model ∈ manifest.models, (model.entities.map Entity.name ++
    model.dimensions.map Dimension.name ++ model.measures.map Measure.name).Nodup
  inputs : ∀ metric ∈ manifest.metrics,
    ((Dataflow.inputOutputs metric).map MetricOutput.name).Nodup

/-- A time dimension with the name of the time of metrics is stored at the grain of every time that
measures of its model are aggregated along. -/
def AgreesOnTime (manifest : Manifest) : Prop :=
  ∀ model ∈ manifest.models, ∀ measure ∈ model.measures,
    ∀ time ∈ model.timeDimensionOf measure, ∀ dimension ∈ model.dimensions,
      dimension.isTime = true → dimension.name = metricTimeName →
        dimension.storedGrain = time.storedGrain

instance (manifest : Manifest) : Decidable manifest.AgreesOnTime :=
  inferInstanceAs (Decidable (∀ model ∈ manifest.models, ∀ measure ∈ model.measures,
    ∀ time ∈ model.timeDimensionOf measure, ∀ dimension ∈ model.dimensions, _))

variable {manifest : Manifest} {model : SemanticModel}

/-- A metric's name is among the names of outputs. -/
theorem name_mem_outputNames {metric : Metric} (known : metric ∈ manifest.metrics) :
    metric.name ∈ manifest.outputNames :=
  List.mem_flatMap.mpr ⟨metric, known, List.mem_cons_self⟩

/-- The name an input is given is among the names of outputs. -/
theorem input_mem_outputNames {metric : Metric} (known : metric ∈ manifest.metrics)
    {output : MetricOutput} (among : output ∈ Dataflow.inputOutputs metric) :
    output.name ∈ manifest.outputNames :=
  List.mem_flatMap.mpr ⟨metric, known, List.mem_cons_of_mem _ (List.mem_map_of_mem among)⟩

/-- An input appears under its own name, under the one that it gets, or under a generated one. -/
theorem name_of_mem_inputOutputs {metric : Metric} {output : MetricOutput}
    (among : output ∈ Dataflow.inputOutputs metric) : ∃ input ∈ metric.inputMetrics,
      output.name ∈ input.name :: input.newName.toList ∨
        output.name = Dataflow.divisorName input.name := by
  have behind : ∀ (inputs : List InputMetric) (before : List MetricOutput),
      output ∈ inputs.foldl
        (fun before input => before ++ [Dataflow.inputOutput metric.kind before input]) before →
      output ∈ before ∨ ∃ input ∈ inputs, output.name ∈ input.name :: input.newName.toList ∨
        output.name = Dataflow.divisorName input.name := by
    intro inputs
    induction inputs with
    | nil => exact fun before among => .inl among
    | cons input rest ih =>
        intro before among
        rcases ih _ among with among | ⟨later, inside, named⟩
        · rcases List.mem_append.mp among with earlier | here
          · exact .inl earlier
          · obtain rfl := List.mem_singleton.mp here
            refine .inr ⟨input, List.mem_cons_self, ?_⟩
            simp only [Dataflow.inputOutput]
            split
            · exact .inr rfl
            · refine .inl ?_
              rw [MetricOutput.name]
              cases input.newName <;> simp
        · exact .inr ⟨later, List.mem_cons_of_mem _ inside, named⟩
  exact (behind metric.inputMetrics [] among).resolve_left List.not_mem_nil

namespace LabelsApart

variable (apart : manifest.LabelsApart)

include apart

/-- Where labels are apart every entity's name is well-formed. -/
theorem isWellFormed_entity {name : String} (among : name ∈ manifest.entityNames) :
    IsWellFormed name :=
  apart.formed name (by simp [among])

/-- Where labels are apart every dimension's name is well-formed. -/
theorem isWellFormed_dimension {name : String} (among : name ∈ manifest.dimensionNames) :
    IsWellFormed name :=
  apart.formed name (by simp [among])

private theorem isWellFormed_measure {name : String} (among : name ∈ manifest.measureNames) :
    IsWellFormed name :=
  apart.formed name (by simp [among])

/-- Where labels are apart every metric's name is well-formed. -/
theorem isWellFormed_metric {name : String} (among : name ∈ manifest.metricNames) :
    IsWellFormed name :=
  apart.formed name (by simp [among])

private theorem isWellFormed_input {name : String} (among : name ∈ manifest.inputNames) :
    IsWellFormed name :=
  apart.formed name (by simp [among])

private theorem isApart_output {name : String} (among : name ∈ manifest.outputNames) :
    IsApart name := by
  obtain ⟨metric, known, among⟩ := List.mem_flatMap.mp among
  rcases List.mem_cons.mp among with own | among
  · exact own ▸ (apart.isWellFormed_metric (List.mem_map_of_mem known)).toIsApart
  · obtain ⟨output, inside, rfl⟩ := List.mem_map.mp among
    obtain ⟨input, isInput, named⟩ := name_of_mem_inputOutputs inside
    have isApart : ∀ name ∈ input.name :: input.newName.toList, IsApart name := fun name own =>
      (apart.isWellFormed_input (List.mem_flatMap.mpr
        ⟨input, List.mem_flatMap.mpr ⟨metric, known, isInput⟩, own⟩)).toIsApart
    rcases named with stated | generated
    · exact isApart _ stated
    · exact generated ▸ (isApart _ List.mem_cons_self).divisorName

end LabelsApart

end Manifest

/-! ## Contents that a manifest has names for -/

/-- Whether a manifest has the name of an item for elements of its kind. -/
def GroupByItem.HasElement (manifest : Manifest) : GroupByItem → Prop
  | dimension name _ => name ∈ manifest.dimensionNames
  | timeDimension name _ _ _ => name ∈ manifest.dimensionNames ∨ name = metricTimeName
  | entity name _ => name ∈ manifest.entityNames
  | metric name links subqueryLinks =>
    name ∈ manifest.metricNames ∧ subqueryLinks = links ∧ links ≠ []

/-- Whether an item is named after an element behind entities of a manifest. -/
structure GroupByItem.IsOf (manifest : Manifest) (item : GroupByItem) : Prop where
  element : item.HasElement manifest
  links : ∀ link ∈ item.links, link ∈ manifest.entityNames

/-- Whether what a column holds is named after something in a manifest. -/
def ColumnContent.IsOf (manifest : Manifest) : ColumnContent → Prop
  | measure name => name ∈ manifest.measureNames
  | metric output => output.name ∈ manifest.outputNames
  | item value => value.IsOf manifest

section

variable {manifest : Manifest} (apart : manifest.LabelsApart)

include apart

namespace GroupByItem

/-- An item of the manifest has a well-formed name. -/
theorem IsOf.isWellFormed {item : GroupByItem} (isOf : item.IsOf manifest) :
    IsWellFormed item.name := by
  have element := isOf.element
  cases item with
  | dimension => exact apart.isWellFormed_dimension element
  | timeDimension =>
      rcases element with element | rfl
      · exact apart.isWellFormed_dimension element
      · exact isWellFormed_metricTimeName
  | entity => exact apart.isWellFormed_entity element
  | metric => exact apart.isWellFormed_metric element.1

/-- Items of one name are the same, or they are one part of a time dimension, extracted from times
at different grains. -/
theorem IsOf.eq_or_part {item other : GroupByItem} (isOf : item.IsOf manifest)
    (otherIsOf : other.IsOf manifest) (same : item.segments = other.segments) :
    item = other ∨ ∃ name links grain otherGrain part,
      item = .timeDimension name links grain (some part) ∧
        other = .timeDimension name links otherGrain (some part) := by
  obtain ⟨links, names, suffixes⟩ :=
    segments_inj (isOf.isWellFormed apart) (otherIsOf.isWellFormed apart) same
  have element := isOf.element
  have otherElement := otherIsOf.element
  have notOutput : ∀ name ∈ manifest.metricNames,
      name ∉ manifest.entityNames ∧ name ∉ manifest.dimensionNames := by
    intro name among
    obtain ⟨metric, known, rfl⟩ := List.mem_map.mp among
    exact apart.outputs _ (Manifest.name_mem_outputNames known)
  cases item with
  | dimension name =>
      cases other with
      | dimension => exact .inl (congrArg₂ dimension names links)
      | timeDimension => exact (suffix?_ne_none suffixes.symm).elim
      | entity otherName =>
          obtain rfl : name = otherName := names
          exact (apart.elements name otherElement element).elim
      | metric otherName =>
          obtain rfl : name = otherName := names
          exact ((notOutput name otherElement.1).2 element).elim
  | timeDimension name itemLinks grain part =>
      cases other with
      | timeDimension otherName otherLinks otherGrain otherPart =>
          obtain rfl : name = otherName := names
          obtain rfl : itemLinks = otherLinks := links
          match part, otherPart with
          | none, none =>
              exact .inl (congrArg (timeDimension name itemLinks · none)
                (grainName_inj (Option.some.inj suffixes)))
          | some part, some otherPart =>
              obtain rfl := partSegment_inj (Option.some.inj suffixes)
              exact .inr ⟨_, _, _, _, _, rfl, rfl⟩
          | none, some otherPart =>
              exact (grainName_ne_partSegment _ _ (Option.some.inj suffixes)).elim
          | some part, none =>
              exact (grainName_ne_partSegment _ _ (Option.some.inj suffixes).symm).elim
      | _ => exact (suffix?_ne_none suffixes).elim
  | entity name =>
      cases other with
      | dimension otherName =>
          obtain rfl : name = otherName := names
          exact (apart.elements name element otherElement).elim
      | timeDimension => exact (suffix?_ne_none suffixes.symm).elim
      | entity => exact .inl (congrArg₂ entity names links)
      | metric otherName =>
          obtain rfl : name = otherName := names
          exact ((notOutput name otherElement.1).1 element).elim
  | metric name itemLinks =>
      cases other with
      | dimension otherName =>
          obtain rfl : name = otherName := names
          exact ((notOutput name element.1).2 otherElement).elim
      | timeDimension => exact (suffix?_ne_none suffixes.symm).elim
      | entity otherName =>
          obtain rfl : name = otherName := names
          exact ((notOutput name element.1).1 otherElement).elim
      | metric otherName otherLinks =>
          obtain rfl : name = otherName := names
          obtain rfl : itemLinks = otherLinks := links
          rw [element.2.1, otherElement.2.1]
          exact .inl rfl

omit apart in
/-- An item whose name is a single segment is a dimension or an entity without links. -/
theorem IsOf.eq_of_segments_eq {item : GroupByItem} (isOf : item.IsOf manifest) {name : String}
    (same : item.segments = [name]) : item = .dimension name [] ∨ item = .entity name [] := by
  obtain ⟨none, alone⟩ | ⟨_, _, rest⟩ := List.append_eq_cons_iff.mp same
  · obtain ⟨rfl, plain⟩ := List.cons.inj alone
    have suffix : item.suffix? = Option.none := Option.toList_eq_nil_iff.mp plain
    cases item with
    | dimension => exact .inl (congrArg (dimension _) none)
    | timeDimension => exact (suffix?_ne_none suffix).elim
    | entity => exact .inr (congrArg (entity _) none)
    | metric => exact (isOf.element.2.2 none).elim
  · exact (List.append_ne_nil_of_right_ne_nil _ (List.cons_ne_nil _ _) rest.symm).elim

end GroupByItem

/-- The segments of a column of the manifest are kept apart. -/
theorem ColumnContent.IsOf.isApart {content : ColumnContent} (isOf : content.IsOf manifest) :
    ∀ segment ∈ content.segments, IsApart segment := by
  cases content with
  | measure name => exact List.forall_mem_singleton.mpr (apart.isWellFormed_measure isOf).toIsApart
  | metric output => exact List.forall_mem_singleton.mpr (apart.isApart_output isOf)
  | item value =>
      exact GroupByItem.isApart_of_mem_segments (isOf.isWellFormed apart).toIsApart
        fun link among => (apart.isWellFormed_entity (isOf.links link among)).toIsApart

end

/-! ## Columns that are told by their names -/

/-- Whether contents of columns are named after a manifest and differ enough for their names to
differ. -/
structure Legible (manifest : Manifest) (held : ColumnContent → Prop) : Prop where
  isOf : ∀ content, held content → content.IsOf manifest
  grains : ∀ name links grain otherGrain part otherPart,
    held (.item (.timeDimension name links grain (some part))) →
      held (.item (.timeDimension name links otherGrain (some otherPart))) → grain = otherGrain
  measures : ∀ name, held (.measure name) →
    ¬ held (.item (.dimension name [])) ∧ ¬ held (.item (.entity name []))
  outputs : ∀ output other, held (.metric output) → held (.metric other) →
    output.name = other.name → output = other
  unmixed : ∀ name output, held (.measure name) → ¬ held (.metric output)

namespace Legible

variable {manifest : Manifest} {held : ColumnContent → Prop}

/-- Fewer columns are told by their names as well. -/
theorem mono {fewer : ColumnContent → Prop} (legible : Legible manifest held)
    (inside : ∀ content, fewer content → held content) : Legible manifest fewer where
  isOf content here := legible.isOf content (inside _ here)
  grains name links grain otherGrain part otherPart here there :=
    legible.grains name links grain otherGrain part otherPart (inside _ here) (inside _ there)
  measures name here :=
    ⟨fun there => (legible.measures name (inside _ here)).1 (inside _ there),
      fun there => (legible.measures name (inside _ here)).2 (inside _ there)⟩
  outputs output other here there := legible.outputs output other (inside _ here) (inside _ there)
  unmixed name output here there := legible.unmixed name output (inside _ here) (inside _ there)

/-- No item is written like a value held beside it. -/
theorem ne_of_single {content : ColumnContent} {item : GroupByItem} {name : String}
    (apart : manifest.LabelsApart) (legible : Legible manifest held) (here : held content)
    (single : content.segments = [name]) (value : content.item? = none)
    (there : held (.item item)) : item.segments ≠ [name] := by
  intro same
  have element := GroupByItem.IsOf.eq_of_segments_eq (legible.isOf _ there) same
  cases content with
  | item => cases value
  | measure own =>
      obtain rfl : own = name := (List.cons.inj single).1
      obtain ⟨noDimension, noEntity⟩ := legible.measures own here
      rcases element with rfl | rfl
      · exact noDimension there
      · exact noEntity there
  | metric output =>
      obtain rfl : output.name = name := (List.cons.inj single).1
      obtain ⟨noEntity, noDimension⟩ := apart.outputs _ (legible.isOf _ here)
      rcases element with rfl | rfl
      · exact noDimension (legible.isOf _ there).element
      · exact noEntity (legible.isOf _ there).element

/-- Columns that are told by their names hold the same if they have the same name. -/
theorem eq_of_columnName_eq (legible : Legible manifest held) (apart : manifest.LabelsApart)
    {content other : ColumnContent} (here : held content) (there : held other)
    (same : content.columnName = other.columnName) : content = other := by
  rw [content.columnName_eq, other.columnName_eq] at same
  have segments := joinSegments_inj content.segments_ne_nil other.segments_ne_nil
    ((legible.isOf _ here).isApart apart) ((legible.isOf _ there).isApart apart) same
  match content, other with
  | .measure _, .measure _ => exact congrArg ColumnContent.measure (List.cons.inj segments).1
  | .metric _, .metric _ =>
      exact congrArg _ (legible.outputs _ _ here there (List.cons.inj segments).1)
  | .measure _, .metric _ => exact (legible.unmixed _ _ here there).elim
  | .metric _, .measure _ => exact (legible.unmixed _ _ there here).elim
  | .measure _, .item _ => exact (legible.ne_of_single apart here rfl rfl there segments.symm).elim
  | .metric _, .item _ => exact (legible.ne_of_single apart here rfl rfl there segments.symm).elim
  | .item _, .measure _ => exact (legible.ne_of_single apart there rfl rfl here segments).elim
  | .item _, .metric _ => exact (legible.ne_of_single apart there rfl rfl here segments).elim
  | .item _, .item _ =>
      rcases (legible.isOf _ here).eq_or_part apart (legible.isOf _ there) segments with
        rfl | ⟨_, _, _, _, _, rfl, rfl⟩
      · rfl
      · rw [legible.grains _ _ _ _ _ _ here there]

end Legible

end MetricQuery

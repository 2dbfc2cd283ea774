import Mathlib.Data.List.Permutation
import MetricQuery.Manifest.Json
import MetricQuery.Manifest.Reader
import MetricQuery.Proofs.Catalog

/-! # Reading a manifest again

The encoding of a manifest writes every field of every record, and the decoding takes each of them
back but for two kinds: filters and offset windows are written as records of their parts, but read
from texts. A manifest is read again from its own encoding exactly if it has neither of them
(`Manifest.read_of_read_eq_toJson`).
-/

namespace MetricQuery

/-! ## What is read again -/

/-- Whether an input measure has no filter. -/
def InputMeasure.isPlain (input : InputMeasure) : Bool := input.filter.isNone

/-- Whether an input metric has neither a filter nor an offset window. -/
def InputMetric.isPlain (input : InputMetric) : Bool :=
  input.filter.isNone && input.offset.isNone

/-- Whether no input of the metric has a filter or a window, which would not be read back. -/
def MetricInputs.isPlain (inputs : MetricInputs) : Bool :=
  inputs.measure.all InputMeasure.isPlain && inputs.numerator.all InputMetric.isPlain &&
    inputs.denominator.all InputMetric.isPlain && inputs.metrics.all InputMetric.isPlain

/-- Whether the record written for the metric is read back. -/
def Metric.isPlain (metric : Metric) : Bool := metric.inputs.isPlain && metric.filter.isNone

/-- Whether no metric of a manifest and none of its inputs has a filter or an offset window. -/
def Manifest.isPlain (manifest : Manifest) : Bool := manifest.metrics.all Metric.isPlain

namespace Manifest

/-- Decoding gives back the encoded values that are kept and refuses the others. -/
def Rereads {α : Type} (encode : α → Json) (decode : Json → Option α) (keeps : α → Bool) : Prop :=
  ∀ value, decode (encode value) = Option.guard keeps value

variable {α : Type} {encode : α → Json} {decode : Json → Option α} {keeps : α → Bool}

/-! ## Fields -/

/-- Keeping a value and going on is a branch on whether it is kept. -/
theorem guard_bind {β : Type} {value : α} {next : α → Option β} :
    (Option.guard keeps value >>= next) = if keeps value then next value else none := by
  cases kept : keeps value <;> simp [Option.guard, kept]

/-- An alternative is read back from its name. -/
theorem alternative_name {all : List α} {name : α → String} (distinct : (all.map name).Nodup)
    {choice : α} (member : choice ∈ all) :
    alternative all name (Json.text (name choice)) = some choice :=
  find?_eq_some_of_mem distinct member

/-- An optional text is read back. -/
theorem optionalField_ofText? (value : Option String) :
    optionalField Source.text? (some (Json.ofText? value)) = some value := by
  cases value <;> rfl

/-- An optional field is read again if its value is, unless a value is written as `null`. -/
theorem Rereads.optionalField (each : Rereads encode decode keeps)
    (shown : ∀ value, Source.isNull (encode value) = false) (value : Option α) :
    optionalField decode (some (Json.ofOption encode value)) =
      Option.guard (Option.all keeps) value := by
  cases value with
  | none => rfl
  | some value =>
      rw [Json.ofOption, Manifest.optionalField, shown, each value]
      cases kept : keeps value <;> simp [Option.guard, kept]

/-- A list is read back when each of its members is. -/
theorem Rereads.listField (each : Rereads encode decode keeps) (values : List α) :
    listField decode (Json.array (values.map encode)) =
      Option.guard (List.all · keeps) values := by
  change (values.map encode).mapM decode = _
  induction values with
  | nil => rfl
  | cons value rest ih =>
      rw [List.map_cons, List.mapM_cons, each value, ih]
      cases kept : keeps value <;> cases later : rest.all keeps <;> simp [Option.guard, kept, later]

/-! ## Semantic models -/

private theorem rereads_entity : Rereads Entity.toJson entityOf? fun _ => true := by
  intro entity
  have kind : alternative EntityKind.all EntityKind.name (Json.text entity.kind.name) =
      some entity.kind := alternative_name (by decide) (by cases entity.kind <;> decide)
  change (do
    return Entity.mk entity.name
      (← alternative EntityKind.all EntityKind.name (Json.text entity.kind.name))
      (← optionalField Source.text? (some (Json.ofText? entity.expr)))) = _
  rw [kind, optionalField_ofText?]
  rfl

private theorem rereads_dimension : Rereads Dimension.toJson dimensionOf? fun _ => true := by
  intro dimension
  have kind : alternative DimensionKind.all DimensionKind.name (Json.text dimension.kind.name) =
      some dimension.kind := alternative_name (by decide) (by cases dimension.kind <;> decide)
  have grain : optionalField (alternative Grain.all Grain.name)
      (some (Json.ofText? (dimension.grain.map Grain.name))) = some dimension.grain := by
    cases dimension.grain with
    | none => rfl
    | some grain =>
        exact congrArg (Option.map some) (alternative_name (by decide) (by cases grain <;> decide))
  change (do
    return Dimension.mk dimension.name
      (← alternative DimensionKind.all DimensionKind.name (Json.text dimension.kind.name))
      (← optionalField Source.text? (some (Json.ofText? dimension.expr)))
      (← optionalField (alternative Grain.all Grain.name)
        (some (Json.ofText? (dimension.grain.map Grain.name))))) = _
  rw [kind, optionalField_ofText?, grain]
  rfl

private theorem rereads_measure : Rereads Measure.toJson measureOf? fun _ => true := by
  intro measure
  have aggregation : alternative Aggregation.all Aggregation.name
      (Json.text measure.aggregation.name) = some measure.aggregation :=
    alternative_name (by decide) (by cases measure.aggregation <;> decide)
  change (do
    return Measure.mk measure.name
      (← alternative Aggregation.all Aggregation.name (Json.text measure.aggregation.name))
      (← optionalField Source.text? (some (Json.ofText? measure.expr)))
      (← optionalField Source.text? (some (Json.ofText? measure.timeDimension)))) = _
  rw [aggregation, optionalField_ofText?, optionalField_ofText?]
  rfl

private theorem rereads_model : Rereads SemanticModel.toJson modelOf? fun _ => true := by
  intro model
  change (do
    return SemanticModel.mk model.name model.table
      (← optionalField Source.text? (some (Json.ofText? model.defaultTimeDimension)))
      (← listField entityOf? (Json.array (model.entities.map Entity.toJson)))
      (← listField dimensionOf? (Json.array (model.dimensions.map Dimension.toJson)))
      (← listField measureOf? (Json.array (model.measures.map Measure.toJson)))
      (← optionalField Source.text? (some (Json.ofText? model.description)))) = _
  rw [optionalField_ofText?, optionalField_ofText?, rereads_entity.listField,
    rereads_dimension.listField, rereads_measure.listField]
  simp [Option.guard]

/-! ## Metrics -/

/-- Filters are written as a record, which is not how they are read. -/
theorem rereads_filter : Rereads Json.ofFilter filterOfJson? fun _ => false := fun _ => rfl

/-- Offset windows are written as a record, which is not how they are read. -/
theorem rereads_offset : Rereads OffsetWindow.toJson offsetOfJson? fun _ => false := fun _ => rfl

private theorem rereads_inputMeasure :
    Rereads InputMeasure.toJson inputMeasureOf? InputMeasure.isPlain := by
  intro input
  change (do
    return InputMeasure.mk input.name
      (← optionalField filterOfJson? (some (Json.ofOption Json.ofFilter input.filter)))) = _
  rw [rereads_filter.optionalField fun _ => rfl]
  obtain ⟨name, filter⟩ := input
  cases filter <;> rfl

/-- An input to a metric is read back exactly when it is plain. -/
theorem rereads_inputMetric : Rereads InputMetric.toJson inputMetricOf? InputMetric.isPlain := by
  intro input
  change (do
    return InputMetric.mk input.name
      (← optionalField filterOfJson? (some (Json.ofOption Json.ofFilter input.filter)))
      (← optionalField Json.text? (some (Json.ofText? input.newName)))
      (← optionalField offsetOfJson? (some (Json.ofOption OffsetWindow.toJson input.offset)))) = _
  rw [rereads_filter.optionalField fun _ => rfl, rereads_offset.optionalField fun _ => rfl]
  obtain ⟨name, filter, newName, offset⟩ := input
  cases filter <;> cases newName <;> cases offset <;> rfl

private theorem rereads_metricInputs :
    Rereads MetricInputs.toJson metricInputsOf? MetricInputs.isPlain := by
  intro inputs
  change (do
    return MetricInputs.mk
      (← optionalField inputMeasureOf? (some (Json.ofOption InputMeasure.toJson inputs.measure)))
      (← optionalField inputMetricOf? (some (Json.ofOption InputMetric.toJson inputs.numerator)))
      (← optionalField inputMetricOf? (some (Json.ofOption InputMetric.toJson inputs.denominator)))
      (← optionalField Source.text? (some (Json.ofText? inputs.expr)))
      (← listField inputMetricOf? (Json.array (inputs.metrics.map InputMetric.toJson)))) = _
  rw [rereads_inputMeasure.optionalField fun _ => rfl,
    rereads_inputMetric.optionalField fun _ => rfl, rereads_inputMetric.optionalField fun _ => rfl,
    optionalField_ofText?, rereads_inputMetric.listField]
  simp only [guard_bind]
  simp only [Option.guard, MetricInputs.isPlain, Bool.and_eq_true, ite_and]
  rfl

private theorem rereads_metric : Rereads Metric.toJson metricOf? Metric.isPlain := by
  intro metric
  have kind : alternative MetricKind.all MetricKind.name (Json.text metric.kind.name) =
      some metric.kind := alternative_name (by decide) (by cases metric.kind <;> decide)
  change (do
    return Metric.mk metric.name
      (← alternative MetricKind.all MetricKind.name (Json.text metric.kind.name))
      (← metricInputsOf? metric.inputs.toJson)
      (← optionalField filterOfJson? (some (Json.ofOption Json.ofFilter metric.filter)))
      (← optionalField Source.text? (some (Json.ofText? metric.description)))) = _
  rw [kind, rereads_metricInputs, rereads_filter.optionalField fun _ => rfl, optionalField_ofText?]
  simp only [guard_bind, Option.all_eq_true]
  simp only [Option.guard, Metric.isPlain, Bool.and_eq_true, ite_and]
  obtain ⟨name, kind, inputs, filter, description⟩ := metric
  cases filter <;> rfl

/-! ## Manifests -/

private theorem rereads : Rereads toJson ofJson? isPlain := by
  intro manifest
  change (do
    return Manifest.mk
      (← listField modelOf? (Json.array (manifest.models.map SemanticModel.toJson)))
      (← listField metricOf? (Json.array (manifest.metrics.map Metric.toJson)))) = _
  rw [rereads_model.listField, rereads_metric.listField]
  simp only [guard_bind, List.all_eq_true, implies_true, if_true]
  simp only [Option.guard, isPlain, List.all_eq_true]
  rfl

/-- **Reading a manifest again.** A text that says what a manifest is encoded as reads as this
manifest if neither a filter nor an offset window occurs in it, and as none otherwise. -/
theorem read_of_read_eq_toJson {source : String} {manifest : Manifest}
    (written : Json.read source = some manifest.toJson) :
    read source = if manifest.isPlain then some manifest else none := by
  rw [read, written]
  exact rereads manifest

/-- A metric with a filter. -/
def paidRevenue : Manifest :=
  ⟨[], [⟨"revenue", .simple, { noInputs with measure := some ⟨"amount", none⟩ },
    some ["amount > 0"], none⟩]⟩

/-- A manifest whose metric has a filter, as it is written. -/
def paidRevenueText : String :=
  "\x7b\"metrics\":[\x7b\"name\":\"revenue\",\"type\":\"simple\"," ++
    "\"type_params\":\x7b\"measure\":\"amount\"\x7d,\"filter\":\"amount > 0\"\x7d]\x7d"

/-- The encoding of the metric with a filter. -/
def paidRevenueRecord : String :=
  "\x7b\"semantic_models\":[],\"metrics\":[\x7b\"name\":\"revenue\",\"type\":\"simple\"," ++
    "\"type_params\":\x7b\"measure\":\x7b\"name\":\"amount\",\"filter\":null\x7d," ++
    "\"numerator\":null,\"denominator\":null,\"expr\":null,\"metrics\":[]\x7d," ++
    "\"filter\":\x7b\"where_filters\":[\"amount > 0\"]\x7d,\"description\":null\x7d]\x7d"

set_option maxRecDepth 3000 in
/-- The text holds the record written for the manifest. -/
theorem read_paidRevenueRecord : Json.read paidRevenueRecord = some paidRevenue.toJson := by cbv

/-- The manifest with a filter is not read back from its own record. -/
theorem refuses_paidRevenueRecord : Json.read paidRevenueRecord = some paidRevenue.toJson ∧
    paidRevenue.isPlain = false ∧ read paidRevenueRecord = none :=
  ⟨read_paidRevenueRecord, rfl, read_of_read_eq_toJson read_paidRevenueRecord⟩

/-- A manifest that is read from a text, but not from its own encoding. -/
theorem not_rereads_paidRevenue : read paidRevenueText = some paidRevenue ∧
    Json.read paidRevenueRecord = some paidRevenue.toJson ∧
    read paidRevenueRecord ≠ some paidRevenue := by
  refine ⟨by decide +kernel, read_paidRevenueRecord, ?_⟩
  rw [read, read_paidRevenueRecord]
  exact nofun

end Manifest

end MetricQuery

import MetricQuery.Json.Basic
import MetricQuery.Manifest.Basic

/-! # Manifests as JSON

The encoding of a manifest in JSON. Every field is written, one without a value as `null`; filters
and offset windows are written as records of their parts.
-/

namespace MetricQuery

/-- A text, or null if there is none. -/
def Json.ofText? : Option String → Json
  | none => null
  | some value => text value

/-- An array of texts. -/
def Json.ofTexts (texts : List String) : Json := array (texts.map text)

/-- An encoded value, or null if there is none. -/
def Json.ofOption {α : Type} (encode : α → Json) : Option α → Json
  | none => null
  | some value => encode value

/-- Filter templates as a record of one field. -/
def Json.ofFilter (templates : List String) : Json :=
  object [("where_filters", ofTexts templates)]

/-- An offset window as a record of its count and its grain. -/
def OffsetWindow.toJson (window : OffsetWindow) : Json :=
  .object [("count", .number (.ofInt window.count)), ("granularity", .text window.grain.name)]

/-- An entity as a record, with all its fields. -/
def Entity.toJson (entity : Entity) : Json :=
  .object [("name", .text entity.name), ("type", .text entity.kind.name),
    ("expr", .ofText? entity.expr)]

/-- A dimension as a record, with all its fields. -/
def Dimension.toJson (dimension : Dimension) : Json :=
  .object [("name", .text dimension.name), ("type", .text dimension.kind.name),
    ("expr", .ofText? dimension.expr),
    ("time_granularity", .ofText? (dimension.grain.map Grain.name))]

/-- A measure as a record, with all its fields. -/
def Measure.toJson (measure : Measure) : Json :=
  .object [("name", .text measure.name), ("agg", .text measure.aggregation.name),
    ("expr", .ofText? measure.expr), ("agg_time_dimension", .ofText? measure.timeDimension)]

/-- A model as a record, its default time dimension in a record of its own. -/
def SemanticModel.toJson (model : SemanticModel) : Json :=
  .object [("name", .text model.name), ("node_relation", .text model.table),
    ("defaults", .object [("agg_time_dimension", .ofText? model.defaultTimeDimension)]),
    ("entities", .array (model.entities.map Entity.toJson)),
    ("dimensions", .array (model.dimensions.map Dimension.toJson)),
    ("measures", .array (model.measures.map Measure.toJson)),
    ("description", .ofText? model.description)]

/-- An input measure as a record, its filter as a list of templates. -/
def InputMeasure.toJson (input : InputMeasure) : Json :=
  .object [("name", .text input.name), ("filter", .ofOption .ofFilter input.filter)]

/-- An input metric as a record, its offset as a count and a grain. -/
def InputMetric.toJson (input : InputMetric) : Json :=
  .object [("name", .text input.name), ("filter", .ofOption .ofFilter input.filter),
    ("alias", .ofText? input.newName), ("offset_window", .ofOption OffsetWindow.toJson input.offset)]

/-- The inputs of a metric as a record, with all fields whatever the kind. -/
def MetricInputs.toJson (inputs : MetricInputs) : Json :=
  .object [("measure", .ofOption InputMeasure.toJson inputs.measure),
    ("numerator", .ofOption InputMetric.toJson inputs.numerator),
    ("denominator", .ofOption InputMetric.toJson inputs.denominator),
    ("expr", .ofText? inputs.expr),
    ("metrics", .array (inputs.metrics.map InputMetric.toJson))]

/-- A metric as a record, with all its fields. -/
def Metric.toJson (metric : Metric) : Json :=
  .object [("name", .text metric.name), ("type", .text metric.kind.name),
    ("type_params", metric.inputs.toJson), ("filter", .ofOption .ofFilter metric.filter),
    ("description", .ofText? metric.description)]

/-- A manifest as a record of its models and metrics. -/
def Manifest.toJson (manifest : Manifest) : Json :=
  .object [("semantic_models", .array (manifest.models.map SemanticModel.toJson)),
    ("metrics", .array (manifest.metrics.map Metric.toJson))]

end MetricQuery

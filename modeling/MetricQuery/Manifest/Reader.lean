import MetricQuery.Json.Reader
import MetricQuery.Manifest.Basic
import MetricQuery.Manifest.Source
import MetricQuery.Yaml.Reader

/-! # Reading manifests

The decoding of a manifest from JSON or YAML. Unknown and repeated fields of a record are refused. A
field is required, optional (it may be absent from an object, and it may be `null`) or defaulted (it
may be absent, but not `null`). Measures and metrics that serve as inputs may be given by their name
alone.
-/

namespace MetricQuery.Manifest

variable {ν : Type} [Source ν]

/-- A field that may be absent or null. -/
def optionalField {α : Type} (decode : ν → Option α) : Option ν → Option (Option α)
  | none => some none
  | some value => if Source.isNull value then some none else (decode value).map some

/-- A field that stands for a default if it is absent. -/
def defaultedField {α : Type} (absent : α) (decode : ν → Option α) : Option ν → Option α
  | none => some absent
  | some value => decode value

/-- An array, all of whose members can be decoded. -/
def listField {α : Type} (decode : ν → Option α) (value : ν) : Option (List α) :=
  match Source.items? value with
  | none => none
  | some items => items.mapM decode

/-- Decodes one of the alternatives of a list by its exact name. -/
def alternative {α : Type} (all : List α) (name : α → String) (value : ν) : Option α :=
  match Source.choice? value with
  | none => none
  | some given => all.find? fun choice => name choice == given

/-- Decodes filter templates: a single text or a list of texts. -/
def filterOfJson? : Json → Option (List String)
  | .text template => some [template]
  | .array items => items.mapM Json.text?
  | _ => none

/-- Decodes filter templates, which stand where any value may stand. -/
def filterOf? (value : ν) : Option (List String) := (Source.value? value).bind filterOfJson?

/-- Decodes an offset window from its text. -/
def offsetOfJson? (value : Json) : Option OffsetWindow := value.text?.bind OffsetWindow.read

/-- Decodes an entity. -/
def entityOf? (value : ν) : Option Entity := do
  let shape := [("name", .required), ("type", .required), ("expr", .optional)]
  let [some name, some kind, expr] ← Source.fields? shape value | none
  return {
    name := ← Source.text? name
    kind := ← alternative EntityKind.all EntityKind.name kind
    expr := ← optionalField Source.text? expr }

/-- Decodes a dimension. -/
def dimensionOf? (value : ν) : Option Dimension := do
  let shape := [("name", .required), ("type", .required), ("expr", .optional),
    ("time_granularity", .optional)]
  let [some name, some kind, expr, grain] ← Source.fields? shape value | none
  return {
    name := ← Source.text? name
    kind := ← alternative DimensionKind.all DimensionKind.name kind
    expr := ← optionalField Source.text? expr
    grain := ← optionalField (alternative Grain.all Grain.name) grain }

/-- Decodes a measure. -/
def measureOf? (value : ν) : Option Measure := do
  let shape := [("name", .required), ("agg", .required), ("expr", .optional),
    ("agg_time_dimension", .optional)]
  let [some name, some aggregation, expr, time] ← Source.fields? shape value | none
  return {
    name := ← Source.text? name
    aggregation := ← alternative Aggregation.all Aggregation.name aggregation
    expr := ← optionalField Source.text? expr
    timeDimension := ← optionalField Source.text? time }

/-- Decodes the defaults of a model, which hold its default time dimension. -/
def defaultsOf? (value : ν) : Option (Option String) := do
  let [time] ← Source.fields? [("agg_time_dimension", .optional)] value | none
  optionalField Source.text? time

/-- Decodes a model. -/
def modelOf? (value : ν) : Option SemanticModel := do
  let shape := [("name", .required), ("node_relation", .required), ("defaults", .defaulted),
    ("entities", .defaulted), ("dimensions", .defaulted), ("measures", .defaulted),
    ("description", .optional)]
  let [some name, some table, defaults, entities, dimensions, measures, description] ←
    Source.fields? shape value | none
  return {
    name := ← Source.text? name
    table := ← Source.text? table
    defaultTimeDimension := ← defaultedField none defaultsOf? defaults
    entities := ← defaultedField [] (listField entityOf?) entities
    dimensions := ← defaultedField [] (listField dimensionOf?) dimensions
    measures := ← defaultedField [] (listField measureOf?) measures
    description := ← optionalField Source.text? description }

/-- An object whose repeated members are settled: the last one of a name counts. -/
def settleRepeats : Json → Json
  | .object members => .object (Json.lastOfEach members)
  | value => value

/-- Decodes an input measure: a name alone, or a record. -/
def inputMeasureOfJson? : Json → Option InputMeasure
  | .text name => some ⟨name, none⟩
  | value => do
    let shape := [("name", .required), ("filter", .optional)]
    let [some name, filter] ← fieldsOfJson? shape (settleRepeats value) | none
    return { name := ← name.text?, filter := ← optionalField filterOfJson? filter }

/-- Decodes an input metric: a name alone, or a record. -/
def inputMetricOfJson? : Json → Option InputMetric
  | .text name => some ⟨name, none, none, none⟩
  | value => do
    let shape := [("name", .required), ("filter", .optional), ("alias", .optional),
      ("offset_window", .optional)]
    let [some name, filter, newName, offset] ← fieldsOfJson? shape (settleRepeats value) | none
    return {
      name := ← name.text?
      filter := ← optionalField filterOfJson? filter
      newName := ← optionalField Json.text? newName
      offset := ← optionalField offsetOfJson? offset }

/-- Decodes an input measure, which stands where any value may stand. -/
def inputMeasureOf? (value : ν) : Option InputMeasure :=
  (Source.value? value).bind inputMeasureOfJson?

/-- Decodes an input metric, which stands where any value may stand. -/
def inputMetricOf? (value : ν) : Option InputMetric :=
  (Source.value? value).bind inputMetricOfJson?

/-- The inputs of a metric that gives none. -/
def noInputs : MetricInputs := ⟨none, none, none, none, []⟩

/-- Decodes the inputs of a metric. -/
def metricInputsOf? (value : ν) : Option MetricInputs := do
  let shape := [("measure", .optional), ("numerator", .optional), ("denominator", .optional),
    ("expr", .optional), ("metrics", .defaulted)]
  let [measure, numerator, denominator, expr, metrics] ← Source.fields? shape value | none
  return {
    measure := ← optionalField inputMeasureOf? measure
    numerator := ← optionalField inputMetricOf? numerator
    denominator := ← optionalField inputMetricOf? denominator
    expr := ← optionalField Source.text? expr
    metrics := ← defaultedField [] (listField inputMetricOf?) metrics }

/-- Decodes a metric. -/
def metricOf? (value : ν) : Option Metric := do
  let shape := [("name", .required), ("type", .required), ("type_params", .defaulted),
    ("filter", .optional), ("description", .optional)]
  let [some name, some kind, inputs, filter, description] ← Source.fields? shape value | none
  return {
    name := ← Source.text? name
    kind := ← alternative MetricKind.all MetricKind.name kind
    inputs := ← defaultedField noInputs metricInputsOf? inputs
    filter := ← optionalField filterOf? filter
    description := ← optionalField Source.text? description }

/-- Decodes a manifest. -/
def of? (value : ν) : Option Manifest := do
  let [models, metrics] ←
    Source.fields? [("semantic_models", .defaulted), ("metrics", .defaulted)] value | none
  return {
    models := ← defaultedField [] (listField modelOf?) models
    metrics := ← defaultedField [] (listField metricOf?) metrics }

/-- Decodes a manifest from a document that has been read. -/
def ofJson? (value : Json) : Option Manifest := of? value

/-- Reads a manifest from a JSON text. -/
def read (source : String) : Option Manifest := (Json.read source).bind ofJson?

/-- Reads a manifest from a YAML text. -/
def readYaml (source : String) : Option Manifest := (Yaml.read source).bind of?

end MetricQuery.Manifest

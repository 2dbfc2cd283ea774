import MetricQuery.Element.Basic
import MetricQuery.Manifest.Basic

/-! # Enumeration of elements

Which items a measure can be grouped by: those of its own model, those of every model that joins
lead to, the time of the metric, and simple metrics per entity of the model. A join goes through an
entity that identifies the rows of the model on its far side, and no path visits a model or an
entity name twice.
-/

namespace MetricQuery

namespace Element

/-- A time dimension at each grain to which it can be truncated, and each date part of it. -/
def ofTime (name : String) (stored : Grain) (links : List String) (definedIn : Option String)
    (traits : List ElementTrait) : List Element :=
  let truncated := stored.coarserOrEqual.map fun grain =>
    Element.mk (.timeDimension name links grain none) definedIn traits
  let extractable := DatePart.all.filter (·.extractableFrom stored)
  let extracted := extractable.map fun part =>
    Element.mk (.timeDimension name links stored (some part)) definedIn (traits ++ [.datePart])
  truncated ++ extracted

/-- The dimensions of a model behind the given links. -/
def ofDimensions (model : SemanticModel) (links : List String) (traits : List ElementTrait) :
    List Element :=
  model.dimensions.flatMap fun dimension =>
    if dimension.isTime then
      ofTime dimension.name dimension.storedGrain links (some model.name) traits
    else [⟨.dimension dimension.name links, some model.name, traits⟩]

/-- What a model offers without a join: its dimensions behind each entity that identifies its rows,
and its entities. -/
def ofModel (model : SemanticModel) : List Element :=
  let dimensions := model.identifyingEntities.flatMap fun entity =>
    ofDimensions model [entity.name] [.isLocal]
  let entities := model.entities.map fun entity =>
    Element.mk (.entity entity.name []) (some model.name) [.isLocal]
  dimensions ++ entities

/-- What a model offers at the end of a path of joins: its dimensions, and its entities other than
the one joined through. -/
def ofTarget (model : SemanticModel) (links : List String) : List Element :=
  let traits := if 1 < links.length then [.joined, .multiHop] else [.joined]
  let others := model.entities.filter fun entity => links.getLast? != some entity.name
  ofDimensions model links traits ++
    others.map fun entity => ⟨.entity entity.name links, some model.name, traits⟩

/-- What the models offer that at most `hops` further joins lead to from a model, which was reached
over `path` and by visiting `visited`. -/
def ofJoins (models : List SemanticModel) :
    (hops : Nat) → (source : SemanticModel) → (path visited : List String) → List Element
  | 0, _, _, _ => []
  | hops + 1, source, path, visited =>
    let usable := source.entities.filter fun entity => !path.contains entity.name
    usable.flatMap fun entity =>
      let targets := models.filter fun target =>
        !visited.contains target.name && target.isIdentifiedBy entity.name
      targets.flatMap fun target =>
        let links := path ++ [entity.name]
        ofTarget target links ++ ofJoins models hops target links (visited ++ [target.name])

/-- The model that defines the measure of a metric: the first one with a measure of its name. -/
def ownerOf (models : List SemanticModel) (metric : Metric) : Option SemanticModel :=
  match metric.inputMeasures with
  | [] => none
  | input :: _ => models.find? fun model => (model.measure? input.name).isSome

/-- The simple metrics that can be computed per value of an entity of a model. -/
def ofMetrics (models : List SemanticModel) (metrics : List Metric) (model : SemanticModel) :
    List Element :=
  model.entities.flatMap fun entity =>
    (metrics.filter (·.kind == .simple)).filterMap fun metric =>
      match ownerOf models metric with
      | none => none
      | some owner =>
        if (owner.entity? entity.name).isSome then
          some ⟨.metric metric.name [entity.name] [entity.name], some owner.name,
            [.joined, .metric]⟩
        else none

/-- The time of the metric, if the measure is aggregated along a time dimension. -/
def ofMetricTime (model : SemanticModel) (measure : Measure) : List Element :=
  match model.timeDimensionOf measure with
  | none => []
  | some time => ofTime metricTimeName time.storedGrain [] none [.metricTime]

/-- Everything that a measure can be grouped by, in ascending order. -/
def ofMeasure (manifest : Manifest) (hops : Nat) (model : SemanticModel) (measure : Measure) :
    List Element :=
  sortedDistinct (ofModel model ++ ofMetricTime model measure ++
    ofJoins manifest.models hops model [] [model.name] ++
    ofMetrics manifest.models manifest.metrics model)

/-- Everything that can be listed without a measure: what each model offers without a join. -/
def withoutMeasure (manifest : Manifest) : List Element :=
  sortedDistinct (manifest.models.flatMap ofModel)

end Element

end MetricQuery

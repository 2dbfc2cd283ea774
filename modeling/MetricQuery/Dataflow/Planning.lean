import MetricQuery.Dataflow.Joining
import MetricQuery.Item.Memo
import MetricQuery.Query.Basic

/-! # Planning queries

A resolved query becomes a plan. Each measure is read with the time of the metric, joined with what
is needed, filtered, reduced to what is grouped by, and aggregated; metrics are computed on top of
their inputs; and the metrics of the query are brought together in the end.

Filters are rendered on the way. The references in them are read with the memo of the request
(`ofQueryRemembering`); a plan as such is what comes of reading them without one (`ofQuery`).
-/

namespace MetricQuery

/-- A metric to compute at some place in a plan. -/
structure MetricTask where
  /-- The metric, and the name under which it is wanted. -/
  output : MetricOutput
  groupBy : List GroupByItem
  /-- The conditions of the query and of the consumers of the metric. -/
  conditions : List Condition
  /-- The shift of its time. -/
  offset : Option OffsetWindow

namespace Dataflow

/-- Renders the filters declared at a location. -/
def conditionsAt (lookup : FilterLookup) (location : FilterLocation)
    (filter : Option (List String)) : Except QueryError (List Condition) :=
  (Condition.ofTemplates (m := Id) (fun callout => pure (ItemReference.readCallout callout))
    lookup location (filter.getD [])).run

/-- Renders the filters declared at a location, with references read with a memo. -/
def rememberedConditionsAt (lookup : FilterLookup) (location : FilterLocation)
    (filter : Option (List String)) : ExceptT QueryError (StateM ReferenceMemo) (List Condition) :=
  Condition.ofTemplates ReferenceMemo.readCallout lookup location (filter.getD [])

/-- Applies the conditions, if there are any. -/
def constrained (plan : Dataflow) (conditions : List Condition) : Dataflow :=
  match Condition.all conditions with
  | none => plan
  | some condition => plan.andThen (.constrain condition)

/-- Several outputs brought together; a single one stays as it is. -/
def combined : List Dataflow → Dataflow
  | [plan] => plan
  | plans => node .combine plans

/-- Everything that is needed to group by items under conditions. -/
def neededItems (groupBy : List GroupByItem) (conditions : List Condition) : List GroupByItem :=
  conditions.foldl (fun needed condition => appendNew needed condition.items) groupBy

/-- Reads a model with the time of a measure, if the measure has one. -/
def readMeasure (model : SemanticModel) (measure : Measure) (offset : Option OffsetWindow) :
    Dataflow :=
  match model.timeDimensionOf measure with
  | none => readModel model
  | some time =>
    (readModel model).andThen (.addMetricTime time.name time.storedGrain offset)

section

variable {m : Type → Type} [Monad m] [MonadExcept QueryError m]

/-- Aggregates a measure by the items of a task under all given conditions. -/
def ofMeasure (catalog : Catalog) (subquery : (metric entity : String) → m Dataflow)
    (name : String) (groupBy : List GroupByItem) (conditions : List Condition)
    (offset : Option OffsetWindow) : m Dataflow :=
  match catalog.measure? name with
  | none => throw (.unknownMeasure name)
  | some (model, measure) => do
    let needed := neededItems groupBy conditions
    let read := readMeasure model measure offset
    let complete ← provideAll catalog subquery read model needed
    let contents := ColumnContent.measure measure.name :: groupBy.map ColumnContent.item
    return (constrained complete conditions).andThen (.pass contents)
      |>.andThen (.aggregate [⟨measure.name, measure.aggregation⟩])

/-- Accumulates a measure over the time of the metric, if that is grouped by. -/
def accumulated (catalog : Catalog) (plan : Dataflow) (name : String)
    (groupBy : List GroupByItem) : m Dataflow :=
  match groupBy.find? GroupByItem.isMetricTime with
  | none => return plan
  | some time =>
    match catalog.measure? name with
    | none => throw (.unknownMeasure name)
    | some (_, measure) =>
      let parts := groupBy.filter (!·.isMetricTime)
      return plan.andThen (.accumulate time parts [⟨measure.name, measure.aggregation⟩])

end

/-- The name that a divisor gets if it has no other and its own is taken by the dividend. -/
def divisorName (name : String) : String := name ++ "_denominator"

/-- How an input of a metric appears behind the inputs before it. -/
def inputOutput (kind : MetricKind) (before : List MetricOutput) (input : InputMetric) :
    MetricOutput :=
  let isTaken := before.any (·.name == input.name)
  if kind = .ratio ∧ input.newName.isNone ∧ isTaken then ⟨input.name, some (divisorName input.name)⟩
  else ⟨input.name, input.newName⟩

/-- How the inputs of a metric appear, in order. -/
def inputOutputs (metric : Metric) : List MetricOutput :=
  metric.inputMetrics.foldl
    (fun before input => before ++ [inputOutput metric.kind before input]) []

section

variable {m : Type → Type} [Monad m] [MonadExcept QueryError m]

/-- How a metric is computed from its input metrics. -/
def formulaOf (metric : Metric) (inputs : List MetricOutput) : m MetricFormula :=
  match metric.kind, inputs with
  | .ratio, [numerator, denominator] => return .ratio numerator denominator
  | .ratio, _ => throw (.incompleteRatio metric.name)
  | _, _ =>
    match metric.inputs.expr with
    | some expr => return .derived expr
    | none => throw (.noExpression metric.name)

/-- Plans a metric, at most `depth` metrics deep, with `render` for the filters at a location. -/
def planMetric (catalog : Catalog)
    (render : FilterLocation → Option (List String) → m (List Condition)) :
    (depth : Nat) → MetricTask → m Dataflow
  | 0, task => throw (.circularMetric task.output.metric)
  | depth + 1, task =>
    let subquery := fun metric entity =>
      planMetric catalog render depth ⟨⟨metric, none⟩, [.entity entity []], [], none⟩
    match catalog.metric? task.output.metric with
    | none => throw (.unknownMetric task.output.metric)
    | some metric => do
      let location := FilterLocation.metric metric.name
      let own ← render location metric.filter
      let conditions := task.conditions ++ own
      let output := MetricOutput.mk metric.name task.output.newName
      match metric.kind with
      | .simple | .cumulative =>
        match metric.inputMeasures with
        | [] => throw (.noInputMeasure metric.name)
        | input :: _ =>
          let ofInput ← render location input.filter
          let aggregated ← ofMeasure catalog subquery input.name task.groupBy
            (conditions ++ ofInput) task.offset
          let plan ←
            if metric.kind = .cumulative then
              accumulated catalog aggregated input.name task.groupBy
            else pure aggregated
          return plan.andThen (.compute output (.measure input.name))
      | .ratio | .derived =>
        let outputs := inputOutputs metric
        let inputs ← (metric.inputMetrics.zip outputs).mapM fun (input, inputOutput) => do
          let ofConsumer ← render (.inputMetric input.name) input.filter
          planMetric catalog render depth {
            output := inputOutput
            groupBy := task.groupBy
            conditions := conditions ++ ofConsumer
            offset := input.offset.or task.offset }
        let formula ← formulaOf metric outputs
        if inputs.isEmpty then throw (.noInputMetrics metric.name)
        return (combined inputs).andThen (.compute output formula)

/-- The model that all items of a query without metrics come from. -/
def commonModel (elements : List Element) :
    (found : Option String) → List GroupByItem → m (Option String)
  | found, [] => return found
  | found, item :: rest =>
    let definedIn := (elements.find? (·.item == item)).bind Element.definedIn
    match found, definedIn with
    | none, some model => commonModel elements (some model) rest
    | some current, some model =>
      if current = model then commonModel elements found rest
      else throw (.notOfOneModel item.qualifiedName)
    | _, none => throw (.notOfOneModel item.qualifiedName)

/-- Lists the different values of items of one model. -/
def ofItems (catalog : Catalog) (groupBy : List GroupByItem) (conditions : List Condition) :
    m Dataflow := do
  let needed := neededItems groupBy conditions
  match ← commonModel catalog.elementsWithoutMetrics none needed with
  | none => throw .nothingToList
  | some name =>
    match catalog.model? name with
    | none => throw (.unknownModel name)
    | some model =>
      return (constrained (readModel model) conditions).andThen
        (.pass (groupBy.map ColumnContent.item)) |>.andThen (.aggregate [])

/-- Plans a query before sorting. -/
def planSelection (catalog : Catalog) (query : ResolvedQuery)
    (render : FilterLocation → Option (List String) → m (List Condition)) : m Dataflow :=
  let conditions := query.condition.toList
  if query.metrics.isEmpty then ofItems catalog query.groupBy conditions
  else do
    let outputs ← query.metrics.mapM fun output =>
      planMetric catalog render catalog.metricDepth ⟨output, query.groupBy, conditions, none⟩
    return combined outputs

/-- Plans a query. -/
def planQuery (catalog : Catalog) (query : ResolvedQuery)
    (render : FilterLocation → Option (List String) → m (List Condition)) : m Dataflow := do
  let output ← planSelection catalog query render
  let sorted :=
    if query.orderBy.isEmpty && query.limit.isNone then output
    else output.andThen (.sort query.orderBy query.limit)
  return sorted.andThen .result

end

/-- The plan of a metric, at most `depth` metrics deep. -/
def ofMetric (catalog : Catalog) (lookup : FilterLookup) (depth : Nat) (task : MetricTask) :
    Except QueryError Dataflow := planMetric catalog (conditionsAt lookup) depth task

/-- The plan of a query before sorting. -/
def ofSelection (catalog : Catalog) (query : ResolvedQuery) : Except QueryError Dataflow :=
  planSelection catalog query (conditionsAt query.lookup)

/-- The plan of a query. -/
def ofQuery (catalog : Catalog) (query : ResolvedQuery) : Except QueryError Dataflow :=
  planQuery catalog query (conditionsAt query.lookup)

/-- The plan of a query, made with a memo of references. -/
def ofQueryRemembering (catalog : Catalog) (query : ResolvedQuery) :
    ExceptT QueryError (StateM ReferenceMemo) Dataflow :=
  planQuery catalog query (rememberedConditionsAt query.lookup)

end Dataflow

end MetricQuery

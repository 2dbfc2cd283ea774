import MetricQuery.Time.OffsetWindow

/-! # Semantic manifests

What the compiler is told about a warehouse: the semantic models, each over one table with its
entities, dimensions and measures, and the metrics built on the measures.
-/

namespace MetricQuery

/-- How the rows of a model relate to the values of an entity. -/
inductive EntityKind where
  | primary
  | unique
  | natural
  | foreign
  deriving DecidableEq

namespace EntityKind

/-- All kinds of entities, in the order in which manifests list them. -/
def all : List EntityKind := [primary, unique, natural, foreign]

/-- The name of a kind in manifests. -/
def name : EntityKind → String
  | primary => "primary"
  | unique => "unique"
  | natural => "natural"
  | foreign => "foreign"

/-- Whether a value of the entity belongs to at most one row. -/
def isIdentifying (kind : EntityKind) : Bool := kind != foreign

end EntityKind

/-- A key column of a model, through which models join. -/
structure Entity where
  /-- The name shared by the models that join on it. -/
  name : String
  /-- How rows relate to its values. -/
  kind : EntityKind
  /-- The SQL of the column, if it is not the name. -/
  expr : Option String
  deriving DecidableEq

/-- The SQL of the column of an entity. -/
def Entity.sql (entity : Entity) : String := entity.expr.getD entity.name

/-- What a dimension holds. -/
inductive DimensionKind where
  | categorical
  | time
  deriving DecidableEq

namespace DimensionKind

/-- All kinds of dimensions. -/
def all : List DimensionKind := [categorical, time]

/-- The name of a kind in manifests. -/
def name : DimensionKind → String
  | categorical => "categorical"
  | time => "time"

end DimensionKind

/-- A column by which measures can be grouped and filtered. -/
structure Dimension where
  name : String
  kind : DimensionKind
  expr : Option String
  /-- The grain at which the column is stored. -/
  grain : Option Grain
  deriving DecidableEq

namespace Dimension

/-- The SQL of the column of a dimension. -/
def sql (dimension : Dimension) : String := dimension.expr.getD dimension.name

/-- Whether a dimension holds times. -/
def isTime (dimension : Dimension) : Bool := dimension.kind == .time

/-- The grain at which a time dimension is stored: days, if nothing else is said. -/
def storedGrain (dimension : Dimension) : Grain := dimension.grain.getD .day

end Dimension

/-- How the values of a measure are brought together. -/
inductive Aggregation where
  | sum
  | count
  | countDistinct
  | min
  | max
  | average
  | sumBoolean
  deriving DecidableEq

namespace Aggregation

/-- All ways to aggregate. -/
def all : List Aggregation := [sum, count, countDistinct, min, max, average, sumBoolean]

/-- The name of an aggregation in manifests. -/
def name : Aggregation → String
  | sum => "sum"
  | count => "count"
  | countDistinct => "count_distinct"
  | min => "min"
  | max => "max"
  | average => "average"
  | sumBoolean => "sum_boolean"

end Aggregation

/-- A column that is aggregated. -/
structure Measure where
  /-- Its name, under which metrics refer to it. -/
  name : String
  aggregation : Aggregation
  expr : Option String
  /-- The time dimension that it is aggregated along, if it is not the default of the model. -/
  timeDimension : Option String
  deriving DecidableEq

/-- The SQL that is aggregated. -/
def Measure.sql (measure : Measure) : String := measure.expr.getD measure.name

/-- A table together with what its columns mean. -/
structure SemanticModel where
  name : String
  /-- The table, possibly with its schema in front. -/
  table : String
  /-- The time dimension along which measures are aggregated by default. -/
  defaultTimeDimension : Option String
  entities : List Entity
  dimensions : List Dimension
  measures : List Measure
  description : Option String
  deriving DecidableEq

namespace SemanticModel

/-- The first entity of a name. -/
def entity? (model : SemanticModel) (name : String) : Option Entity :=
  model.entities.find? (·.name == name)

/-- The first dimension of a name. -/
def dimension? (model : SemanticModel) (name : String) : Option Dimension :=
  model.dimensions.find? (·.name == name)

/-- The first measure of a name. -/
def measure? (model : SemanticModel) (name : String) : Option Measure :=
  model.measures.find? (·.name == name)

/-- The entities of which each value belongs to at most one row of the model. -/
def identifyingEntities (model : SemanticModel) : List Entity :=
  model.entities.filter (·.kind.isIdentifying)

/-- Whether the entity of this name identifies the rows of the model. -/
def isIdentifiedBy (model : SemanticModel) (entity : String) : Bool :=
  model.identifyingEntities.any (·.name == entity)

/-- The time dimension along which a measure is aggregated, if it names one that exists. -/
def timeDimensionOf (model : SemanticModel) (measure : Measure) : Option Dimension :=
  match measure.timeDimension.or model.defaultTimeDimension with
  | none => none
  | some name => (model.dimension? name).filter Dimension.isTime

end SemanticModel

/-- How a metric comes about. -/
inductive MetricKind where
  /-- One aggregated measure. -/
  | simple
  /-- One metric divided by another. -/
  | ratio
  /-- SQL over other metrics. -/
  | derived
  /-- The running total of a measure over the time of the metric. -/
  | cumulative
  deriving DecidableEq

namespace MetricKind

/-- All kinds of metrics. -/
def all : List MetricKind := [simple, ratio, derived, cumulative]

/-- The name of a kind in manifests. -/
def name : MetricKind → String
  | simple => "simple"
  | ratio => "ratio"
  | derived => "derived"
  | cumulative => "cumulative"

end MetricKind

/-- The measure that a metric aggregates. -/
structure InputMeasure where
  name : String
  /-- Filter templates that all have to hold. -/
  filter : Option (List String)
  deriving DecidableEq

/-- A metric that another one is computed from. -/
structure InputMetric where
  name : String
  filter : Option (List String)
  /-- The name under which the consumer refers to it. -/
  newName : Option String
  /-- A shift of its time. -/
  offset : Option OffsetWindow
  deriving DecidableEq

/-- What a metric is computed from; which fields count depends on its kind. -/
structure MetricInputs where
  /-- The measure of a simple or cumulative metric. -/
  measure : Option InputMeasure
  /-- The dividend of a ratio. -/
  numerator : Option InputMetric
  /-- The divisor of a ratio. -/
  denominator : Option InputMetric
  /-- The SQL of a derived metric. -/
  expr : Option String
  /-- The metrics that a derived metric reads. -/
  metrics : List InputMetric
  deriving DecidableEq

/-- A number that queries ask for. -/
structure Metric where
  name : String
  kind : MetricKind
  inputs : MetricInputs
  filter : Option (List String)
  description : Option String
  deriving DecidableEq

namespace Metric

/-- The measures that a metric aggregates itself: at most one. -/
def inputMeasures (metric : Metric) : List InputMeasure :=
  match metric.kind with
  | .simple | .cumulative => metric.inputs.measure.toList
  | .ratio | .derived => []

/-- The metrics that a metric is computed from; a ratio lists its dividend first. -/
def inputMetrics (metric : Metric) : List InputMetric :=
  match metric.kind with
  | .simple | .cumulative => []
  | .ratio => metric.inputs.numerator.toList ++ metric.inputs.denominator.toList
  | .derived => metric.inputs.metrics

end Metric

/-- Everything that the compiler is told about a warehouse. -/
structure Manifest where
  models : List SemanticModel
  metrics : List Metric
  deriving DecidableEq

end MetricQuery

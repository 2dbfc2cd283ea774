import MetricQuery.Catalog
import MetricQuery.Query.Error

/-! # Scopes

Where the items of a query are looked up. The scope of a query is a tree: the query over its
metrics, each metric over the metrics that it is computed from or over its measure, and each
measure with the elements that it can be grouped by. A metric or a query offers what any of its
inputs offers. A metric that occurs twice has two nodes; nodes are numbered from the inputs to the
query.
-/

namespace MetricQuery

/-- The place of a metric among the inputs of another one. -/
structure InputPlace where
  /-- The metric that is computed from it. -/
  consumer : String
  /-- Its number among the inputs. -/
  index : Nat
  deriving DecidableEq

namespace InputPlace

/-- The input that stands at a place. -/
def input? (place : InputPlace) (catalog : Catalog) : Option InputMetric :=
  match catalog.metric? place.consumer with
  | none => none
  | some metric => metric.inputMetrics[place.index]?

end InputPlace

/-- What a node of a scope stands for. -/
inductive ScopeKind where
  /-- A measure of the manifest. -/
  | measure (name : String)
  /-- A metric, with its place among the inputs of another one if it is an input. -/
  | metric (name : String) (place : Option InputPlace)
  /-- A query for metrics under filters. -/
  | query (metrics : List String) (filters : List String)
  /-- A query without metrics. -/
  | noMetrics
  deriving DecidableEq

namespace ScopeKind

/-- The name of a kind of node. -/
def name : ScopeKind → String
  | measure _ => "MeasureSource"
  | metric _ _ => "Metric"
  | query _ _ => "Query"
  | noMetrics => "NoMetricsQuery"

/-- How a node is shown in paths. -/
def description : ScopeKind → String
  | measure name => "Measure(" ++ Text.named name ++ ")"
  | metric name _ => "Metric(" ++ Text.named name ++ ")"
  | query metrics _ => "Query(" ++ Text.listOf (metrics.map Text.named) ++ ")"
  | noMetrics => "NoMetricsQuery()"

end ScopeKind

/-- A node with everything below it: its number, what it stands for, the elements that it offers,
and its inputs. -/
inductive Scope where
  | node (id : Nat) (kind : ScopeKind) (elements : List Element) (inputs : List Scope)

namespace Scope

def id : Scope → Nat
  | node id _ _ _ => id

def kind : Scope → ScopeKind
  | node _ kind _ _ => kind

/-- The elements that a node offers, in ascending order. -/
def elements : Scope → List Element
  | node _ _ elements _ => elements

/-- The nodes directly below a node. -/
def inputs : Scope → List Scope
  | node _ _ _ inputs => inputs

/-- The items that a node offers, in ascending order. -/
def items (scope : Scope) : List GroupByItem := Element.items scope.elements

/-- A node as a step of a path. -/
def step (scope : Scope) : PathStep := ⟨scope.id, scope.kind.description⟩

mutual

/-- All nodes at or below a node, by ascending numbers. -/
def nodes : Scope → List Scope
  | node id kind elements inputs => nodesOf inputs ++ [node id kind elements inputs]

/-- The nodes of several scopes. -/
def nodesOf : List Scope → List Scope
  | [] => []
  | scope :: rest => nodes scope ++ nodesOf rest

end

/-- A measure below a node, with what it offers and the path that leads to it. -/
structure ReachedMeasure where
  measure : String
  elements : List Element
  /-- The path that ends at it. -/
  path : ScopePath

mutual

/-- The measures at or below a node, each with its path behind the given one. -/
def measuresBehind (path : ScopePath) : Scope → List ReachedMeasure
  | node id kind elements inputs =>
    let path := path ++ [⟨id, kind.description⟩]
    match kind with
    | .measure name => ⟨name, elements, path⟩ :: measuresOfBehind path inputs
    | _ => measuresOfBehind path inputs

/-- The measures behind several scopes, with the paths to them. -/
def measuresOfBehind (path : ScopePath) : List Scope → List ReachedMeasure
  | [] => []
  | scope :: rest => measuresBehind path scope ++ measuresOfBehind path rest

end

/-- The measures at or below a node, each with its path from there. -/
def measures (scope : Scope) : List ReachedMeasure := scope.measuresBehind []

/-- What nodes offer together, in ascending order. -/
def union (inputs : List Scope) : List Element := sortedDistinct (inputs.flatMap elements)

end Scope

end MetricQuery

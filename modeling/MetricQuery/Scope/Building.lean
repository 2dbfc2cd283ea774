import MetricQuery.Scope.Basic

/-! # Building scopes

The scope of a query follows the manifest from the metrics of the query through their inputs to the
measures. Numbers are given out from the inside to the outside, measures before input metrics.
-/

namespace MetricQuery.Scope

/-- Building a scope gives out numbers and can fail. -/
abbrev Build : Type → Type := StateT Nat (Except QueryError)

/-- A node with the next number. -/
def create (kind : ScopeKind) (elements : List Element) (inputs : List Scope) : Build Scope := do
  let id ← getModify (· + 1)
  return node id kind elements inputs

/-- The node of a measure of a metric. -/
def ofMeasure (catalog : Catalog) (metric measure : String) : Build Scope := do
  if (catalog.measure? measure).isNone then throw (.missingMeasure measure metric)
  create (.measure measure) (catalog.elementsOf measure) []

/-- The node of a metric with all nodes below it, at most `depth` metrics deep. -/
def ofMetric (catalog : Catalog) :
    (depth : Nat) → (name : String) → (place : Option InputPlace) → Build Scope
  | 0, name, _ => throw (.circularMetric name)
  | depth + 1, name, place => do
    match catalog.metric? name with
    | none => throw (.missingMetric name)
    | some metric =>
      let measures ← metric.inputMeasures.mapM fun input => ofMeasure catalog name input.name
      let metrics ← metric.inputMetrics.zipIdx.mapM fun numbered =>
        ofMetric catalog depth numbered.1.name (some ⟨name, numbered.2⟩)
      let inputs := measures ++ metrics
      create (.metric name place) (union inputs) inputs

/-- The nodes directly below a query. -/
def queryInputs (catalog : Catalog) (metrics : List String) : Build (List Scope) :=
  if metrics.isEmpty then do
    return [← create .noMetrics catalog.elementsWithoutMetrics []]
  else metrics.mapM fun metric => ofMetric catalog catalog.metricDepth metric none

/-- The scope of a query, built behind the numbers given out so far. -/
def buildQuery (catalog : Catalog) (metrics filters : List String) : Build Scope := do
  let inputs ← queryInputs catalog metrics
  create (.query metrics filters) (union inputs) inputs

/-- The scope of a query over some metrics, or of the listed items where it has none. -/
def ofQuery (catalog : Catalog) (metrics filters : List String) : Except QueryError Scope :=
  (buildQuery catalog metrics filters).run' 0

end MetricQuery.Scope

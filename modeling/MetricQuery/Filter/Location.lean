import MetricQuery.Text.Record

/-! # Filter locations

Where a filter is declared. The same reference may mean different items at different locations, so
what it means is remembered per location.
-/

namespace MetricQuery

/-- Where a filter is declared. -/
inductive FilterLocation where
  /-- In the request, for these metrics. -/
  | query (metrics : List String)
  /-- At a metric, or at its input measure. -/
  | metric (name : String)
  /-- At a consumer of this metric, for this input alone. -/
  | inputMetric (name : String)
  deriving DecidableEq, Ord

namespace FilterLocation

/-- The metrics that a location names. -/
def metrics : FilterLocation → List String
  | query metrics => metrics
  | metric name => [name]
  | inputMetric name => [name]

/-- The comparison of locations by kind, then by the metrics that they name. -/
abbrev compareFields : FilterLocation → FilterLocation → Ordering :=
  compareLex (compareOn FilterLocation.ctorIdx) (compareOn metrics)

/-- Locations are compared field by field. -/
theorem compare_eq_compareFields : (compare : FilterLocation → _) = compareFields := by
  have single : ∀ name other : String, compare [name] [other] = compare name other := by
    intro name other
    change List.compareLex compare [name] [other] = _
    rw [List.compareLex]
    cases compare name other <;> rfl
  funext left right
  cases left with
  | query metrics =>
    cases right with
    | query metrics' =>
      change (compare metrics metrics').then .eq = _
      rw [Ordering.then_eq]
      rfl
    | _ => rfl
  | metric name =>
    cases right with
    | metric name' =>
      change (compare name name').then .eq = compare [name] [name']
      rw [Ordering.then_eq, single]
    | _ => rfl
  | inputMetric name =>
    cases right with
    | inputMetric name' =>
      change (compare name name').then .eq = compare [name] [name']
      rw [Ordering.then_eq, single]
    | _ => rfl

instance : Std.TransOrd FilterLocation := by
  rw [Std.TransOrd, compare_eq_compareFields]
  infer_instance

/-- Only equal locations compare as equal. -/
instance : Std.LawfulEqOrd FilterLocation where
  eq_of_compare := by
    intro left right same
    rw [compare_eq_compareFields] at same
    obtain ⟨kinds, names⟩ := Ordering.then_eq_eq.mp same
    replace names := Std.LawfulEqOrd.eq_of_compare names
    cases left <;> cases right <;>
      simp_all [compareOn, metrics, FilterLocation.ctorIdx]

end FilterLocation

/-- The record form of the name of a metric. -/
def FilterLocation.metricText (name : String) : String := Text.nameRecord "MetricReference" name

instance : Text.Record FilterLocation where
  text
    | .query metrics =>
      Text.recordOf "Query" [("metrics", Text.listOf (metrics.map FilterLocation.metricText))]
    | .metric name => Text.variantOf "Metric" [FilterLocation.metricText name]
    | .inputMetric name => Text.variantOf "InputMetric" [FilterLocation.metricText name]

end MetricQuery

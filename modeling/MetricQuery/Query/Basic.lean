import MetricQuery.Filter.Condition

/-! # Requests and resolved queries

A request names what is wanted; a resolved query holds the items that the names mean.
-/

namespace MetricQuery

/-- What a user asks for. -/
structure Request where
  metrics : List String
  /-- References to the items to group by. -/
  groupBy : List String
  /-- Filter templates that all have to hold. -/
  filters : List String
  /-- What to sort by: metrics and references, with a minus in front for descending order. -/
  orderBy : List String
  /-- The greatest number of rows. -/
  limit : Option Nat
  deriving DecidableEq

/-- A request in which every reference has been resolved. -/
structure ResolvedQuery where
  /-- The metrics, each once. -/
  metrics : List MetricOutput
  /-- The items to group by, each once. -/
  groupBy : List GroupByItem
  filters : List String
  /-- All filters as one condition, if there is any. -/
  condition : Option Condition
  /-- What the references in filters mean, at every location. -/
  lookup : FilterLookup
  orderBy : List OrderItem
  limit : Option Nat
  /-- What is remarkable about the request. -/
  warnings : Issues
  deriving DecidableEq

/-- The location of the filters of a query itself. -/
def ResolvedQuery.location (query : ResolvedQuery) : FilterLocation :=
  .query (query.metrics.map MetricOutput.metric)

end MetricQuery

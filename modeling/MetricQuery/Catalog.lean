import MetricQuery.Element.Enumeration

/-! # Catalogs

A manifest as the compiler asks about it: by the names of metrics, measures and models, and for the
elements in scope of a measure. Where a name occurs more than once, the last definition counts.
-/

namespace MetricQuery

/-- A manifest together with the reach of its joins. -/
structure Catalog where
  manifest : Manifest
  /-- How many joins may lie between a measure and an item. -/
  maxHops : Nat

namespace Catalog

/-- The metric of a name; of several with one name the last one counts. -/
def metric? (catalog : Catalog) (name : String) : Option Metric :=
  catalog.manifest.metrics.findRev? (·.name == name)

/-- The model of a name; of several with one name the last one counts. -/
def model? (catalog : Catalog) (name : String) : Option SemanticModel :=
  catalog.manifest.models.findRev? (·.name == name)

/-- A model that is found is a model of the manifest. -/
theorem mem_of_model? {catalog : Catalog} {name : String} {model : SemanticModel}
    (found : catalog.model? name = some model) : model ∈ catalog.manifest.models := by
  rw [model?, List.findRev?_eq_find?_reverse] at found
  exact List.mem_reverse.mp (List.mem_of_find?_eq_some found)

/-- Every measure with the model that defines it, in the order of the manifest. -/
def measures (catalog : Catalog) : List (SemanticModel × Measure) :=
  catalog.manifest.models.flatMap fun model => model.measures.map (model, ·)

/-- The measure of a name, with the model that defines it. -/
def measure? (catalog : Catalog) (name : String) : Option (SemanticModel × Measure) :=
  catalog.measures.findRev? (·.2.name == name)

/-- What a measure can be grouped by, and nothing if there is no such measure. -/
def elementsOf (catalog : Catalog) (measure : String) : List Element :=
  match catalog.measure? measure with
  | none => []
  | some (model, measure) => Element.ofMeasure catalog.manifest catalog.maxHops model measure

/-- The elements in scope of a query without metrics. -/
def elementsWithoutMetrics (catalog : Catalog) : List Element :=
  Element.withoutMeasure catalog.manifest

/-- A bound for the depth of metrics in a plan. Metrics that are computed from one another without
a circle form chains in which each occurs once, perhaps with an unknown one at the end. At the end
of a chain a metric to group by can begin another one, which refers to fewer metrics unless it is
one that the query asks for. -/
def metricDepth (catalog : Catalog) : Nat :=
  (catalog.manifest.metrics.length + 1) * (catalog.manifest.metrics.length + 2)

/-- The depth allows for more steps than any way through the metrics can take. -/
theorem lt_metricDepth (catalog : Catalog) :
    2 * catalog.manifest.metrics.length < catalog.metricDepth := by
  have twice := Nat.mul_le_mul_left (catalog.manifest.metrics.length + 1)
    (Nat.le_add_left 2 catalog.manifest.metrics.length)
  rw [metricDepth]
  omega

end Catalog

end MetricQuery

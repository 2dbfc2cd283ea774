import Mathlib.Data.List.Perm.Subperm
import Mathlib.Logic.Relation
import MetricQuery.Proofs.Catalog
import MetricQuery.Proofs.Scope.Building

/-! # Scopes of grounded metrics

If everything that metrics are computed from exists, and no metric is computed from itself, then
there is a scope for any known metrics (`Scope.exists_ofQuery`). On the way down from a metric no
other one is met twice, so that the bound on the depth of metrics is never reached.
-/

namespace MetricQuery

namespace Catalog

/-- Whether a metric is directly computed from another one. -/
def ComputesFrom (catalog : Catalog) (outer inner : String) : Prop :=
  ∃ metric, catalog.metric? outer = some metric ∧ ∃ input ∈ metric.inputMetrics, input.name = inner

/-- Whether all measures and metrics that metrics are computed from exist, and no metric is computed
from itself. -/
structure IsGrounded (catalog : Catalog) : Prop where
  measures : ∀ metric ∈ catalog.manifest.metrics, ∀ input ∈ metric.inputMeasures,
    (catalog.measure? input.name).isSome = true
  metrics : ∀ metric ∈ catalog.manifest.metrics, ∀ input ∈ metric.inputMetrics,
    (catalog.metric? input.name).isSome = true
  acyclic : ∀ name, ¬ Relation.TransGen catalog.ComputesFrom name name

/-- If metrics are computed only from others that are not, none is computed from itself. -/
theorem isGrounded_of_shallow {catalog : Catalog}
    (measures : ∀ metric ∈ catalog.manifest.metrics, ∀ input ∈ metric.inputMeasures,
      (catalog.measure? input.name).isSome = true)
    (metrics : ∀ metric ∈ catalog.manifest.metrics, ∀ input ∈ metric.inputMetrics,
      (catalog.metric? input.name).isSome = true)
    (shallow : ∀ metric ∈ catalog.manifest.metrics, ∀ input ∈ metric.inputMetrics,
      ∀ other ∈ catalog.metric? input.name, other.inputMetrics = []) : catalog.IsGrounded := by
  refine ⟨measures, metrics, fun name circle => ?_⟩
  obtain ⟨_, ⟨metric, found, further, inside, _⟩, _⟩ := Relation.TransGen.head'_iff.mp circle
  obtain ⟨_, _, outer, foundOuter, input, among, rfl⟩ := Relation.TransGen.tail'_iff.mp circle
  rw [shallow outer (of_metric? foundOuter).1 input among metric found] at inside
  exact List.not_mem_nil inside

end Catalog

namespace Scope

variable {catalog : Catalog} {depth : Nat} {name : String} {place : Option InputPlace}

private theorem exists_ofMeasure {metric measure : String}
    (isMeasure : (catalog.measure? measure).isSome = true) (before : Nat) :
    ∃ scope after, ofMeasure catalog metric measure before = .ok (scope, after) := by
  have known : (catalog.measure? measure).isNone = false := Option.isNone_eq_false_iff.mpr isMeasure
  unfold ofMeasure
  simp only [known, Bool.false_eq_true, ↓reduceIte]
  exact ⟨_, _, rfl⟩

/-- A metric that is reached through `outer` has a scope if there are more levels left than metrics
that have not been met yet. -/
theorem exists_ofMetric (grounded : catalog.IsGrounded) {outer : List String}
    (distinct : outer.Nodup) (known : outer ⊆ catalog.manifest.metrics.map Metric.name)
    (behind : ∀ other ∈ outer, Relation.TransGen catalog.ComputesFrom other name)
    (isMetric : (catalog.metric? name).isSome = true)
    (enough : catalog.manifest.metrics.length < outer.length + depth) (before : Nat) :
    ∃ scope after, ofMetric catalog depth name place before = .ok (scope, after) := by
  induction depth generalizing name place outer before with
  | zero =>
      have bound := (List.subperm_of_subset distinct known).length_le
      rw [List.length_map] at bound
      omega
  | succ depth ih =>
      obtain ⟨metric, found⟩ := Option.isSome_iff_exists.mp isMetric
      obtain ⟨among, named⟩ := Catalog.of_metric? found
      have fresh : name ∉ outer := fun met => grounded.acyclic name (behind name met)
      have measured : ∀ input ∈ metric.inputMeasures, ∀ start, ∃ scope finish,
          ofMeasure catalog name input.name start = .ok (scope, finish) := fun input inside =>
        exists_ofMeasure (grounded.measures metric among input inside)
      have computed : ∀ numbered ∈ metric.inputMetrics.zipIdx, ∀ start, ∃ scope finish,
          ofMetric catalog depth numbered.1.name (some ⟨name, numbered.2⟩) start =
            .ok (scope, finish) := by
        rintro ⟨input, index⟩ numbered
        have inside : input ∈ metric.inputMetrics := List.fst_mem_of_mem_zipIdx numbered
        have computes : catalog.ComputesFrom name input.name := ⟨metric, found, input, inside, rfl⟩
        have further : (name :: outer).Nodup := List.nodup_cons.mpr ⟨fresh, distinct⟩
        refine ih further (List.cons_subset.mpr ⟨named ▸ List.mem_map_of_mem among, known⟩) ?_
          (grounded.metrics metric among input inside) ?_
        · exact List.forall_mem_cons.mpr
            ⟨.single computes, fun other met => (behind other met).tail computes⟩
        · rw [List.length_cons]
          omega
      obtain ⟨measures, between, fromMeasures⟩ := exists_run_mapM_eq_ok measured before
      obtain ⟨metrics, after, fromMetrics⟩ := exists_run_mapM_eq_ok computed between
      unfold ofMetric
      simp only [found, run_bind_eq_ok]
      exact ⟨_, _, measures, between, fromMeasures, metrics, after, fromMetrics, run_create ..⟩

/-- There is a scope for metrics that are known. -/
theorem exists_ofQuery (grounded : catalog.IsGrounded) {metrics : List String}
    (known : ∀ metric ∈ metrics, (catalog.metric? metric).isSome = true) (filters : List String) :
    ∃ scope, ofQuery catalog metrics filters = .ok scope := by
  obtain ⟨inputs, after, created⟩ : ∃ inputs after,
      queryInputs catalog metrics 0 = .ok (inputs, after) := by
    by_cases none : metrics = []
    · subst none
      exact ⟨_, _, rfl⟩
    · unfold queryInputs
      rw [if_neg (by simpa using none)]
      refine exists_run_mapM_eq_ok (fun metric asked => ?_) 0
      refine exists_ofMetric grounded List.nodup_nil (List.nil_subset _) nofun
        (known metric asked) ?_
      have deep := catalog.lt_metricDepth
      rw [List.length_nil]
      omega
  have built : buildQuery catalog metrics filters 0 =
      .ok (node after (.query metrics filters) (union inputs) inputs, after + 1) :=
    run_bind_eq_ok.mpr ⟨inputs, after, created, run_create ..⟩
  exact ⟨_, map_eq_ok.mpr ⟨_, built, rfl⟩⟩

end Scope

end MetricQuery

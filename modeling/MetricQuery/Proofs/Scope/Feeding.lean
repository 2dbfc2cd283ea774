import MetricQuery.Proofs.Scope.Resolution

/-! # Measures below metrics

Which measures a metric is computed from, and what all of them offer. The node of a metric has each
of these measures below it (`Scope.exists_leaf_of_feeds`), so that whatever is found at the node is
offered by every measure that the metric is computed from (`Scope.IsFed.offers_of_resolved`).
-/

namespace MetricQuery

/-- Whether a metric is computed from a measure, itself or through its inputs. -/
inductive Catalog.Feeds (catalog : Catalog) (measure : String) : (metric : String) → Prop where
  | own {name : String} {metric : Metric} {input : InputMeasure}
      (found : catalog.metric? name = some metric) (among : input ∈ metric.inputMeasures)
      (named : input.name = measure) : catalog.Feeds measure name
  | input {name : String} {metric : Metric} {input : InputMetric}
      (found : catalog.metric? name = some metric) (among : input ∈ metric.inputMetrics)
      (feeds : catalog.Feeds measure input.name) : catalog.Feeds measure name

/-- Whether every measure that a metric is computed from offers an item. -/
def Catalog.Offers (catalog : Catalog) (metric : String) (item : GroupByItem) : Prop :=
  ∀ measure, catalog.Feeds measure metric →
    Scope.offers (catalog.elementsOf measure) item = true

/-- The metrics that a node stands for. -/
def ScopeKind.metrics : ScopeKind → List String
  | measure _ => []
  | metric name _ => [name]
  | query metrics _ => metrics
  | noMetrics => []

namespace Scope

variable {catalog : Catalog} {depth : Nat} {name : String} {place : Option InputPlace}
  {before after : Nat} {scope : Scope}

/-- The node of a metric has each measure below it that the metric is computed from. -/
theorem exists_leaf_of_feeds {measure : String} (feeds : catalog.Feeds measure name)
    (ok : ofMetric catalog depth name place before = .ok (scope, after)) :
    ∃ leaf ∈ scope.leaves, leaf.elements = catalog.elementsOf measure := by
  induction feeds generalizing depth place before after scope with
  | @own name metric input found among named =>
      cases depth with
      | zero => exact nomatch ok
      | succ depth =>
          obtain ⟨_, id, measures, metrics, same, rfl, fromMeasures, _⟩ := of_ofMetric ok
          obtain ⟨⟩ := found.symm.trans same
          obtain ⟨leaf, member, _, _, created⟩ := exists_right_of_forall₂ fromMeasures among
          obtain ⟨_, number, rfl⟩ := of_ofMeasure created
          rw [leaves_inputs rfl]
          subst named
          refine ⟨node number (.measure input.name) (catalog.elementsOf input.name) [],
            List.mem_flatMap.mpr ⟨_, List.mem_append_left _ member, ?_⟩, rfl⟩
          rw [leaves_measure]
          exact List.mem_cons_self
  | @input name metric input found among feeds ih =>
      cases depth with
      | zero => exact nomatch ok
      | succ depth =>
          obtain ⟨index, listed⟩ := List.mem_iff_getElem?.mp among
          obtain ⟨below, _, _, created, within⟩ := exists_below_of_ofMetric ok found listed
          obtain ⟨leaf, inside, elements⟩ := ih created
          obtain ⟨member, isMeasure⟩ := List.mem_filter.mp inside
          exact ⟨leaf, List.mem_filter.mpr ⟨within leaf member, isMeasure⟩, elements⟩

/-- Whether a node is built from measures, among them all that its metrics are computed from. -/
structure IsFed (catalog : Catalog) (node : Scope) : Prop where
  built : Built node
  leaf : ∀ metric ∈ node.kind.metrics, ∀ measure, catalog.Feeds measure metric →
    ∃ leaf ∈ node.leaves, leaf.elements = catalog.elementsOf measure

/-- What is found at a node is offered by every measure that its metrics are computed from. -/
theorem IsFed.offers_of_resolved {node : Scope} (fed : node.IsFed catalog) {limit : Nat}
    {pattern : ItemPattern} {input : String} {item : GroupByItem}
    (resolved : (node.resolve limit pattern input).outcome = .resolved item) :
    ∀ metric ∈ node.kind.metrics, catalog.Offers metric item := by
  intro metric member measure feeds
  obtain ⟨leaf, below, elements⟩ := fed.leaf metric member measure feeds
  have everywhere := (resolve_eq_resolved_iff.mp resolved).2
  rw [measures, fed.built.forall_measures_iff [] (offers · item = true)] at everywhere
  exact elements ▸ everywhere leaf below

private theorem isFed_of_ofMetric
    (ok : ofMetric catalog depth name place before = .ok (scope, after)) :
    ∀ node ∈ scope.nodes, node.IsFed catalog := by
  induction depth generalizing name place before after scope with
  | zero => exact nomatch ok
  | succ depth ih =>
      intro node member
      have built := (built_of_ofMetric ok).of_mem_nodes member
      rcases of_mem_nodes_of_ofMetric ok member with
        ⟨rfl, kind⟩ | ⟨_, _, _, rfl⟩ | ⟨_, _, _, _, _, _, _, _, created, inside⟩
      · refine ⟨built, ?_⟩
        rw [kind]
        exact List.forall_mem_singleton.mpr fun measure feeds => exists_leaf_of_feeds feeds ok
      · exact ⟨built, fun _ absent => (List.not_mem_nil absent).elim⟩
      · exact ih created node inside

/-- Every node of the scope of a query for metrics is built from the measures of its metrics. -/
theorem isFed_of_ofQuery {metrics filters : List String} (some : metrics ≠ [])
    (ok : ofQuery catalog metrics filters = .ok scope) :
    ∀ node ∈ scope.nodes, node.IsFed catalog := by
  obtain ⟨id, inputs, rfl, created⟩ := of_ofQuery some ok
  have each : ∀ input ∈ inputs, ∀ node ∈ input.nodes, node.IsFed catalog := by
    intro input among
    obtain ⟨_, _, _, _, created⟩ := exists_left_of_forall₂ created among
    exact isFed_of_ofMetric created
  intro node member
  rcases mem_nodes.mp member with ⟨input, among, inside⟩ | rfl
  · exact each input among node inside
  · refine ⟨.inputs _ _ _ rfl fun input among => ?_, fun metric asked measure feeds => ?_⟩
    · obtain ⟨_, _, _, _, created⟩ := exists_left_of_forall₂ created among
      exact built_of_ofMetric created
    · obtain ⟨input, among, _, _, created⟩ := exists_right_of_forall₂ created asked
      obtain ⟨leaf, inside, elements⟩ := exists_leaf_of_feeds feeds created
      rw [leaves_inputs rfl]
      exact ⟨leaf, List.mem_flatMap.mpr ⟨input, among, inside⟩, elements⟩

/-- What is found at a node of the scope of a query is offered by every measure that the metrics of
the node are computed from. -/
theorem offers_of_resolved {metrics filters : List String}
    (ok : ofQuery catalog metrics filters = .ok scope) {node : Scope} (inside : node ∈ scope.nodes)
    {limit : Nat} {pattern : ItemPattern} {input : String} {item : GroupByItem}
    (resolved : (node.resolve limit pattern input).outcome = .resolved item) :
    ∀ metric ∈ node.kind.metrics, catalog.Offers metric item := by
  by_cases none : metrics = []
  · subst none
    obtain ⟨⟩ := ok
    rcases mem_nodes.mp inside with ⟨input, among, inside⟩ | rfl
    · rw [List.mem_singleton.mp among] at inside
      rcases mem_nodes.mp inside with ⟨_, absent, _⟩ | rfl
      · exact (List.not_mem_nil absent).elim
      · exact nofun
    · exact nofun
  · exact (isFed_of_ofQuery none ok node inside).offers_of_resolved resolved

/-- Without errors a reference is found. -/
theorem exists_resolved_of_hasErrors {node : Scope} {limit : Nat} {pattern : ItemPattern}
    {input : String} (fine : (node.resolve limit pattern input).issues.hasErrors = false) :
    ∃ item, (node.resolve limit pattern input).outcome = .resolved item := by
  unfold resolve at fine ⊢
  split at fine
  · exact nomatch fine
  · split at fine
    · exact ⟨_, rfl⟩
    · exact nomatch fine
  · exact nomatch fine

end Scope

end MetricQuery

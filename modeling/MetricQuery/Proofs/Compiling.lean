import MetricQuery.Compiler
import MetricQuery.Proofs.Dataflow.Grouping
import MetricQuery.Proofs.Dataflow.Planning
import MetricQuery.Proofs.Query.Resolution

/-! # Resolved requests compile

Whatever the resolution of a request for metrics accepts can be planned and converted, and each
condition on the way finds what it reads (`Request.compiles_of_resolve`).
-/

namespace MetricQuery

open Sql

variable {catalog : Catalog}

namespace ResolvedQuery

/-- The items that a query groups by or mentions in filters. -/
def mentioned (query : ResolvedQuery) : List GroupByItem :=
  query.groupBy ++ query.lookup.findings.filterMap FilterFinding.item

/-- What a filter of a query means is mentioned by the query. -/
theorem mentioned_of_means {query : ResolvedQuery} {location : FilterLocation} {item : GroupByItem}
    (means : query.lookup.Means location item) : item ∈ query.mentioned := by
  obtain ⟨finding, member, _, isItem⟩ := means
  exact List.mem_append_right _ (List.mem_filterMap.mpr ⟨finding, member, isItem⟩)

/-- What a query selects: the items that it groups by, and its metrics. -/
def Selects (query : ResolvedQuery) : ColumnContent → Prop :=
  Request.IsSelected query.metrics query.groupBy

/-- The metrics of a sound query can be planned and brought together. -/
theorem IsSound.ofSelection_yields {query : ResolvedQuery} (sound : query.IsSound catalog)
    (valid : catalog.manifest.IsValid) (unambiguous : catalog.manifest.IsUnambiguous)
    {answered : GroupByItem → Prop} {spare : Nat}
    (answers : Dataflow.Answers catalog query.lookup spare answered)
    (few : spare ≤ catalog.manifest.metrics.length + 1)
    (mentioned : ∀ item ∈ query.mentioned, answered item) :
    ∃ plan, Dataflow.ofSelection catalog query = .ok plan ∧
      Yields catalog plan query.Selects := by
  have answeredMeaning : ∀ location item, query.lookup.Means location item → answered item :=
    fun location item means => mentioned item (mentioned_of_means means)
  have each : ∀ output ∈ query.metrics, ∃ plan,
      Dataflow.ofMetric catalog query.lookup catalog.metricDepth
        ⟨output, query.groupBy, query.condition.toList, none⟩ = .ok plan ∧
      Yields catalog plan (Dataflow.GroupedContents query.groupBy (.metric output)) := by
    intro output asked
    have deep : catalog.manifest.metrics.length + spare ≤ catalog.metricDepth := by
      have bound := catalog.lt_metricDepth
      omega
    refine Dataflow.ofMetric_yields valid unambiguous answers sound.settled answeredMeaning
      (sound.ready output asked).bounded deep rfl (fun item member => ?_) ?_
    · exact ⟨sound.grouped item member output asked,
        mentioned item (List.mem_append_left _ member)⟩
    · intro condition member item inside
      refine Dataflow.fits_of_means sound.settled answeredMeaning
        (sound.filtered (Option.mem_toList.mp member) item inside) ?_
      exact List.mem_map_of_mem asked
  obtain ⟨plans, planned, alike⟩ := exists_mapM_eq_ok each
  refine ⟨Dataflow.combined plans, ?_, Dataflow.combined_yields sound.some alike⟩
  unfold Dataflow.ofSelection Dataflow.planSelection
  rw [if_neg (by simpa using sound.some)]
  exact bind_eq_ok.mpr ⟨plans, planned, rfl⟩

/-- A sound query can be planned, and its plan holds what it selects. -/
theorem IsSound.ofQuery_yields_of_answers {query : ResolvedQuery} (sound : query.IsSound catalog)
    (valid : catalog.manifest.IsValid) (unambiguous : catalog.manifest.IsUnambiguous)
    {answered : GroupByItem → Prop} {spare : Nat}
    (answers : Dataflow.Answers catalog query.lookup spare answered)
    (few : spare ≤ catalog.manifest.metrics.length + 1)
    (mentioned : ∀ item ∈ query.mentioned, answered item) :
    ∃ plan, Dataflow.ofQuery catalog query = .ok plan ∧ Yields catalog plan query.Selects := by
  obtain ⟨output, ok, yields⟩ := sound.ofSelection_yields valid unambiguous answers few mentioned
  refine ⟨_, bind_eq_ok.mpr ⟨output, ok, rfl⟩, ?_⟩
  split
  · exact yields.result
  · exact (yields.sort sound.ordered).result

private theorem IsSound.ofQuery_yields {query : ResolvedQuery} (sound : query.IsSound catalog)
    (valid : catalog.manifest.IsValid) (unambiguous : catalog.manifest.IsUnambiguous)
    (unfiltered : ∀ item ∈ query.mentioned, Dataflow.IsUnfiltered catalog item) :
    ∃ plan, Dataflow.ofQuery catalog query = .ok plan ∧ Yields catalog plan query.Selects := by
  have answers : Dataflow.Answers catalog query.lookup 1 (Dataflow.IsUnfiltered catalog) :=
    fun _ _ _ _ deep offered kind unfiltered =>
      Dataflow.isComputed_of_offered valid unambiguous offered kind unfiltered deep
  exact sound.ofQuery_yields_of_answers valid unambiguous answers (by omega) unfiltered

end ResolvedQuery

namespace Request

/-- If each entity identifies at most one model, then every request for metrics that can be resolved
can be planned and converted, however parts of its plan are shared, and each condition in the plan
finds what it reads. -/
theorem compiles_of_resolve (valid : catalog.manifest.IsValid)
    (unambiguous : catalog.manifest.IsUnambiguous) {settings : Settings} {request : Request}
    (some : request.metrics ≠ []) {memo : ReferenceMemo} (filled : memo.Filled)
    {query : ResolvedQuery}
    (resolved : ((request.resolve catalog settings).run.run memo).1 = .ok query)
    (unfiltered : ∀ item ∈ query.mentioned, Dataflow.IsUnfiltered catalog item) :
    ∃ plan, Dataflow.ofQuery catalog query = .ok plan ∧
      (∀ sqlSettings sharing, ∃ statement,
        Statement.ofPlan catalog sqlSettings plan sharing = .ok statement) ∧
      ConditionsHeld catalog plan := by
  have sound := (resolve_ensures some settings memo filled).1 query resolved
  obtain ⟨plan, ok, yields⟩ := sound.ofQuery_yields valid unambiguous unfiltered
  exact ⟨plan, ok, yields.exists_statement, yields.conditions⟩

/-- Visits of customers. -/
def visitsModel : SemanticModel :=
  ⟨"visits", "shop.visits", none, [⟨"customer", .foreign, none⟩], [],
    [⟨"visits", .count, none, none⟩], none⟩

/-- The visits of northern customers. -/
def trafficMetric : Metric :=
  ⟨"traffic", .simple, ⟨some ⟨"visits", none⟩, none, none, none, []⟩,
    some ["\x7b\x7b Dimension('customer__region') \x7d\x7d = 'north'"], none⟩

/-- The revenue from known customers per visit. -/
def yieldMetric : Metric :=
  ⟨"yield", .ratio,
    ⟨none, some ⟨"revenue", some ["\x7b\x7b Entity('customer') \x7d\x7d > 0"], none, none⟩,
      some ⟨"traffic", none, none, none⟩, none, []⟩, none, none⟩

/-- Orders and visits of customers. -/
def shopCatalog : Catalog :=
  ⟨⟨[Dataflow.ordersModel, visitsModel, Dataflow.customersModel],
    [Dataflow.revenueMetric, trafficMetric, yieldMetric]⟩, 2⟩

/-- The yield of customers with some revenue, by region. -/
def yieldRequest : Request :=
  ⟨["yield"], ["customer__region"],
    ["\x7b\x7b Metric('revenue', group_by=['customer']) \x7d\x7d > 10"], ["-yield"], some 10⟩

/-- With filters at the request, at a metric and at an input of a metric, one of them on a metric,
the yield by region compiles. -/
theorem compiles_yield : ∃ query,
    ((yieldRequest.resolve shopCatalog .standard).run.run (.empty 4)).1 = .ok query ∧
    ∃ plan, Dataflow.ofQuery shopCatalog query = .ok plan ∧
      (∀ sqlSettings sharing, ∃ statement,
        Statement.ofPlan shopCatalog sqlSettings plan sharing = .ok statement) ∧
      ConditionsHeld shopCatalog plan := by
  have checked : ((yieldRequest.resolve shopCatalog .standard).run.run (.empty 4)).1.toOption.any
      (fun query => decide (∀ item ∈ query.mentioned,
        Dataflow.IsUnfiltered shopCatalog item)) = true := by decide +kernel
  have identified : ∀ model ∈ shopCatalog.manifest.models, ∀ entity,
      model.isIdentifiedBy entity = true → model = Dataflow.customersModel := by
    rintro _ (_ | ⟨_, _ | ⟨_, _ | ⟨_, ⟨⟩⟩⟩⟩) entity identified
    · exact nomatch identified
    · exact nomatch identified
    · rfl
  cases resolved : ((yieldRequest.resolve shopCatalog .standard).run.run (.empty 4)).1 with
  | error error =>
      rw [resolved] at checked
      exact nomatch checked
  | ok query =>
      rw [resolved] at checked
      refine ⟨query, rfl, compiles_of_resolve
        ⟨by decide, by decide, by decide, by decide, by decide⟩
        (fun left knownLeft right knownRight entity first second => ?_) (List.cons_ne_nil _ _)
        (.empty 4) resolved (of_decide_eq_true checked)⟩
      rw [identified left knownLeft entity first, identified right knownRight entity second]

end Request

end MetricQuery

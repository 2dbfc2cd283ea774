import MetricQuery.Proofs.Dataflow.Aggregations

/-! # Shifts of the time of measures

The time of each measure in the plan of a query is shifted by one window on its derivation, the
last one, if there is any (`Dataflow.ofQuery_shifts_by_last`). Windows further out are dropped:
shifted by two weeks, the revenue of the week before is still the revenue of the week before
(`Dataflow.not_shifts_by_total`).
-/

namespace MetricQuery

/-- Whether a step adds the time of the metric. -/
def Step.addsTime : Step → Bool
  | addMetricTime _ _ _ => true
  | _ => false

namespace Dataflow

/-- The steps of a plan that add the time of the metric, apart from the metrics joined as items. -/
def timeSteps (plan : Dataflow) : List Step := (plan.ownParts.map step).filter Step.addsTime

/-- A further step adds a time only if that is what it does. -/
theorem timeSteps_andThen {step : Step} (noJoin : step.isJoin = false) (plan : Dataflow) :
    (plan.andThen step).timeSteps = plan.timeSteps ++ [step].filter Step.addsTime := by
  rw [timeSteps, ownParts_andThen noJoin, List.map_append, List.filter_append]
  rfl

/-- Reading a model adds no time. -/
theorem timeSteps_readModel (model : SemanticModel) : (readModel model).timeSteps = [] := rfl

private theorem timeSteps_readMeasure (model : SemanticModel) (measure : Measure)
    (offset : Option OffsetWindow) : (readMeasure model measure offset).timeSteps =
      (model.timeDimensionOf measure).toList.map fun time =>
        .addMetricTime time.name time.storedGrain offset := by
  unfold readMeasure
  cases model.timeDimensionOf measure with
  | none => exact timeSteps_readModel model
  | some time => rw [timeSteps_andThen rfl, timeSteps_readModel]; rfl

private theorem timeSteps_constrained (plan : Dataflow) (conditions : List Condition) :
    (constrained plan conditions).timeSteps = plan.timeSteps := by
  unfold constrained
  split
  · rfl
  · exact (timeSteps_andThen rfl plan).trans (List.append_nil _)

/-- No time is added by what is joined, if it is either a metric or adds none by itself. -/
theorem timeSteps_joinTo {plan : Dataflow} (noMetric : plan.computes = false)
    {inputs : List JoinedInput}
    (each : ∀ input ∈ inputs, input.plan.computes = true ∨ input.plan.timeSteps = []) :
    (joinTo plan inputs).timeSteps = plan.timeSteps := by
  unfold joinTo
  split
  · rfl
  · have joined : ((ownPartsOf true (inputs.map JoinedInput.plan)).map step).filter
        Step.addsTime = [] := by
      refine List.filter_eq_nil_iff.mpr fun last added => ?_
      obtain ⟨part, below, rfl⟩ := List.mem_map.mp added
      obtain ⟨_, among, other, inside⟩ := mem_ownPartsOf_true.mp below
      obtain ⟨input, present, rfl⟩ := List.mem_map.mp among
      rcases each input present with computes | none
      · exact nomatch computes.symm.trans other
      · exact List.filter_eq_nil_iff.mp none _ (List.mem_map_of_mem inside)
    rw [timeSteps, ownParts, Step.isJoin, ownPartsOf, noMetric, List.map_append, List.map_append,
      List.filter_append, List.filter_append, joined, List.append_nil]
    exact List.append_nil _

section

variable {catalog : Catalog} {subquery : SubqueryPlanner}
  (computes : ∀ name entity plan, subquery name entity = .ok plan → plan.computes = true)

include computes in
/-- To complete a model no time is added but within metrics. -/
theorem timeSteps_of_provide {hops : Nat} {plan result : Dataflow} {model : SemanticModel}
    {items : List GroupByItem} {visited : List String} (within : IsWithin hops model items)
    (noMetric : plan.computes = false)
    (ok : provide catalog subquery hops plan model items visited = .ok result) :
    result.timeSteps = plan.timeSteps := by
  induction hops using Nat.strong_induction_on generalizing plan result model items visited with
  | _ hops ih =>
      obtain ⟨subqueries, joined, planned, served, rfl⟩ := (provide_eq_ok within).mp ok
      refine timeSteps_joinTo noMetric fun input member => ?_
      rcases List.mem_append.mp member with isMetric | isModel
      · obtain ⟨item, _, _, _, ok⟩ := exists_left_of_forall₂ (of_subqueriesFor planned) isMetric
        exact .inl (computes _ _ _ ok)
      · obtain ⟨group, among, target, right, _, ok, rfl⟩ := exists_left_of_forall₂ served isModel
        have fewer : hops - 1 < hops := by
          rcases Nat.eq_zero_or_pos hops with rfl | some
          · exact (List.not_mem_nil (within.linkGroups_eq_nil ▸ among)).elim
          · omega
        have behind := ih _ fewer (within.behind among) rfl ok
        exact .inr ((timeSteps_andThen rfl right).trans (by rw [behind]; rfl))

include computes in
/-- Planned with an offset, a measure with a time dimension has its time added once and shifted by
this offset. -/
theorem timeSteps_of_ofMeasure {name : String} {groupBy : List GroupByItem}
    {conditions : List Condition} {offset : Option OffsetWindow} {plan : Dataflow}
    {model : SemanticModel} {measure : Measure}
    (found : catalog.measure? name = some (model, measure))
    (ok : ofMeasure catalog subquery name groupBy conditions offset = .ok plan) :
    plan.timeSteps = (model.timeDimensionOf measure).toList.map fun time =>
      .addMetricTime time.name time.storedGrain offset := by
  obtain ⟨model, measure, source, same, provided, _, rfl⟩ := of_ofMeasure computes ok
  obtain ⟨⟩ := found.symm.trans same
  have reads : (readMeasure model measure offset).computes = false :=
    (prepares_readMeasure model measure offset).computes_eq_false
  have added := timeSteps_of_provide computes (isWithin_mostLinks model _) reads provided
  rw [timeSteps_andThen rfl, timeSteps_andThen rfl, timeSteps_constrained, added,
    timeSteps_readMeasure]
  simp only [Step.addsTime, Bool.false_eq_true, not_false_eq_true, List.filter_cons_of_neg,
    List.filter_nil, List.append_nil]

end

/-! ## Queries -/

/-- Whether the time of the measure of a derivation is shifted by the last window on it, and by none
if there is none. -/
def IsShiftedByLast (catalog : Catalog) (derivation : Derivation)
    (aggregated : AggregatedMeasure × Dataflow) : Prop :=
  ∃ model measure, catalog.measure? derivation.measure = some (model, measure) ∧
    aggregated.1 = ⟨measure.name, measure.aggregation⟩ ∧
    aggregated.2.timeSteps = (model.timeDimensionOf measure).toList.map fun time =>
      .addMetricTime time.name time.storedGrain derivation.offsets.getLast?

variable {catalog : Catalog} {query : ResolvedQuery} {plan : Dataflow}

private theorem Aggregates.isShiftedByLast {derivation : Derivation}
    {aggregated : AggregatedMeasure × Dataflow}
    (aggregates : Aggregates catalog query.lookup query.groupBy query.condition.toList none
      derivation aggregated) : IsShiftedByLast catalog derivation aggregated := by
  obtain ⟨model, measure, _, _, _, found, _, _, _, _, isMeasure, _⟩ := aggregates.isAlong
  obtain ⟨_, _, _, ok, _⟩ := aggregates
  refine ⟨model, measure, found, isMeasure, ?_⟩
  rw [timeSteps_of_ofMeasure computes_of_subqueryAt found ok, Option.or_none]

/-- In the plan of a query the time of every measure is shifted by the last window on its
derivation, which is the one next to the measure. -/
theorem ofQuery_shifts_by_last (ok : ofQuery catalog query = .ok plan) :
    (∀ output ∈ query.metrics, ∀ derivation,
      derivation ∈ catalog.derivations catalog.metricDepth output.metric ↔
        catalog.Derives output.metric derivation) ∧
    List.Forall₂ (IsShiftedByLast catalog)
      (query.metrics.flatMap fun output => catalog.derivations catalog.metricDepth output.metric)
      plan.aggregations := by
  obtain ⟨listed, aggregated⟩ := aggregates_of_ofQuery ok
  exact ⟨listed, aggregated.imp fun _ _ => Aggregates.isShiftedByLast⟩

/-- A metric that is computed from another one, shifted by a window. -/
def shiftedMetric (name input alternative : String) (offset : OffsetWindow) : Metric :=
  ⟨name, .derived, ⟨none, none, none, some alternative,
    [⟨input, none, some alternative, some offset⟩]⟩, none, none⟩

/-- The revenue of orders by day, the revenue of the week before, and that of two weeks earlier. -/
def shiftedCatalog : Catalog where
  maxHops := 2
  manifest :=
    ⟨[⟨"orders", "shop.orders", some "ds", [⟨"order", .primary, none⟩],
        [⟨"ds", .time, none, none⟩], [⟨"amount", .sum, none, none⟩], none⟩],
      [⟨"revenue", .simple, ⟨some ⟨"amount", none⟩, none, none, none, []⟩, none, none⟩,
        shiftedMetric "before" "revenue" "past" ⟨1, .week⟩,
        shiftedMetric "earlier" "before" "further" ⟨2, .week⟩]⟩

/-- A request for metrics by day. -/
def byDay (metrics : List String) : Request := ⟨metrics, ["metric_time"], [], [], none⟩

/-- The time of orders is not shifted for the revenue; it is shifted by the only window for the
revenue of the week before, and by the last of two windows for that of two weeks earlier. -/
theorem ofQuery_shifts_by_last_orders : ∃ query plan,
    (((byDay ["revenue", "before", "earlier"]).resolve shiftedCatalog
      .standard).run.run (.empty 4)).1 = .ok query ∧
    ofQuery shiftedCatalog query = .ok plan ∧
    plan.aggregations.map (fun aggregated => aggregated.2.timeSteps) =
      [[.addMetricTime "ds" .day none], [.addMetricTime "ds" .day (some ⟨1, .week⟩)],
        [.addMetricTime "ds" .day (some ⟨1, .week⟩)]] ∧
    List.Forall₂ (IsShiftedByLast shiftedCatalog)
      (query.metrics.flatMap fun output =>
        shiftedCatalog.derivations shiftedCatalog.metricDepth output.metric)
      plan.aggregations := by
  have checked : (((byDay ["revenue", "before", "earlier"]).resolve shiftedCatalog
      .standard).run.run (.empty 4)).1.toOption.any (fun query =>
        (ofQuery shiftedCatalog query).toOption.any fun plan =>
          plan.aggregations.map (fun aggregated => aggregated.2.timeSteps) ==
            [[.addMetricTime "ds" .day none], [.addMetricTime "ds" .day (some ⟨1, .week⟩)],
              [.addMetricTime "ds" .day (some ⟨1, .week⟩)]]) = true := by decide +kernel
  obtain ⟨query, resolved, checked⟩ := (Option.any_eq_true _ _).mp checked
  obtain ⟨plan, planned, checked⟩ := (Option.any_eq_true _ _).mp checked
  rw [toOption_eq_some] at resolved planned
  exact ⟨query, plan, resolved, planned, eq_of_beq checked, (ofQuery_shifts_by_last planned).2⟩

/-- The revenue of the week before is shifted by one week, and not by three, where it is wanted of
two weeks earlier. -/
theorem not_shifts_by_total : ∃ query plan derivation aggregated,
    (((byDay ["earlier"]).resolve shiftedCatalog .standard).run.run (.empty 4)).1 = .ok query ∧
    ofQuery shiftedCatalog query = .ok plan ∧
    shiftedCatalog.derivations shiftedCatalog.metricDepth "earlier" = [derivation] ∧
    plan.aggregations = [aggregated] ∧
    derivation.offsets = [⟨2, .week⟩, ⟨1, .week⟩] ∧
    aggregated.2.timeSteps = [.addMetricTime "ds" .day (some ⟨1, .week⟩)] ∧
    aggregated.2.timeSteps ≠ [.addMetricTime "ds" .day (some ⟨2 + 1, .week⟩)] := by
  have single : (shiftedCatalog.derivations shiftedCatalog.metricDepth "earlier").map
      Derivation.offsets = [[⟨2, .week⟩, ⟨1, .week⟩]] := by decide
  obtain ⟨derivation, derives, offsets⟩ := List.map_eq_singleton_iff.mp single
  have checked : (((byDay ["earlier"]).resolve shiftedCatalog .standard).run.run
      (.empty 4)).1.toOption.any (fun query =>
        (ofQuery shiftedCatalog query).toOption.any fun plan =>
          plan.aggregations.map (fun aggregated => aggregated.2.timeSteps) ==
            [[.addMetricTime "ds" .day (some ⟨1, .week⟩)]]) = true := by decide +kernel
  obtain ⟨query, resolved, checked⟩ := (Option.any_eq_true _ _).mp checked
  obtain ⟨plan, planned, checked⟩ := (Option.any_eq_true _ _).mp checked
  rw [toOption_eq_some] at resolved planned
  obtain ⟨aggregated, aggregates, steps⟩ := List.map_eq_singleton_iff.mp (eq_of_beq checked)
  refine ⟨query, plan, derivation, aggregated, resolved, planned, derives, aggregates, offsets,
    steps, ?_⟩
  rw [steps]
  decide

end Dataflow

end MetricQuery

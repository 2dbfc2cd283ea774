import MetricQuery.Proofs.Compiling
import MetricQuery.Proofs.Dataflow.Derivations
import MetricQuery.Proofs.Dataflow.Parts

/-! # Aggregated measures along derivations

The measures that are aggregated in the plan of a query are those at the ends of the derivations of
its metrics, in this order. Each is aggregated under the condition of the query and the filters on
its own derivation, one after the other and nothing else (`Dataflow.ofQuery_follows_derivations`).
-/

namespace MetricQuery

/-- Whether conditions are the filters on a derivation, rendered where each is declared. -/
def Derivation.Renders (lookup : FilterLookup) (derivation : Derivation)
    (conditions : List Condition) : Prop :=
  List.Forall₂ (fun filter condition =>
    (Condition.ofTemplate Condition.readAlone lookup filter.1 filter.2).run = .ok condition)
    derivation.filters conditions

namespace Dataflow

variable {catalog : Catalog} {lookup : FilterLookup} {depth : Nat} {task : MetricTask}
  {plan : Dataflow}

/-- Filters that could be rendered are rendered one by one. -/
theorem forall₂_of_conditionsAt {location : FilterLocation} {filter : Option (List String)}
    {conditions : List Condition} (ok : conditionsAt lookup location filter = .ok conditions) :
    List.Forall₂ (fun filter condition =>
      (Condition.ofTemplate Condition.readAlone lookup filter.1 filter.2).run = .ok condition)
      (Derivation.located location filter) conditions := by
  rw [conditionsAt_eq_mapM, mapM_eq_ok] at ok
  exact List.forall₂_map_left_iff.mpr ok

/-! ## Metrics -/

/-- What a metric with its own conditions is planned as: its measure, aggregated and perhaps
accumulated, or its inputs, brought together. -/
inductive IsPlanned (catalog : Catalog) (lookup : FilterLookup) (depth : Nat) (task : MetricTask)
    (metric : Metric) (own : List Condition) : Dataflow → Prop where
  | measure {input : InputMeasure} {ofInput : List Condition} {part plan : Dataflow}
      (inputs : metric.inputMeasures = [input])
      (inputRead : conditionsAt lookup (.metric metric.name) input.filter = .ok ofInput)
      (aggregated : ofMeasure catalog (subqueryAt catalog lookup depth) input.name task.groupBy
        (task.conditions ++ own ++ ofInput) task.offset = .ok part)
      (accumulated : plan = part ∨
        ∃ order parts measures, plan = part.andThen (.accumulate order parts measures)) :
      IsPlanned catalog lookup depth task metric own
        (plan.andThen (.compute ⟨metric.name, task.output.newName⟩ (.measure input.name)))
  | metrics {plans : List Dataflow} {formula : MetricFormula}
      (noMeasure : metric.inputMeasures = [])
      (inputs : List.Forall₂ (fun input plan => ∃ output ofConsumer,
        output.metric = input.name ∧
          conditionsAt lookup (.inputMetric input.name) input.filter = .ok ofConsumer ∧
          ofMetric catalog lookup depth ⟨output, task.groupBy,
            task.conditions ++ own ++ ofConsumer, input.offset.or task.offset⟩ = .ok plan)
        metric.inputMetrics plans) :
      IsPlanned catalog lookup depth task metric own
        ((combined plans).andThen (.compute ⟨metric.name, task.output.newName⟩ formula))

private theorem accumulated_eq_ok {part : Dataflow} {name : String} {groupBy : List GroupByItem}
    (ok : (accumulated catalog part name groupBy : Except QueryError Dataflow) = .ok plan) :
    plan = part ∨
      ∃ order parts measures, plan = part.andThen (.accumulate order parts measures) := by
  unfold accumulated at ok
  split at ok
  · obtain ⟨⟩ := ok
    exact .inl rfl
  · split at ok
    · exact nomatch ok
    · obtain ⟨⟩ := ok
      exact .inr ⟨_, _, _, rfl⟩

/-- The inputs of a metric over other metrics are planned under the names by which it knows them. -/
theorem exists_plans_of_metrics {metric : Metric} {own : List Condition}
    (found : catalog.metric? task.output.metric = some metric)
    (kind : metric.kind = .ratio ∨ metric.kind = .derived)
    (ownRead : conditionsAt lookup (.metric metric.name) metric.filter = .ok own)
    (ok : ofMetric catalog lookup (depth + 1) task = .ok plan) :
    ∃ plans formula, plan = (combined plans).andThen
        (.compute ⟨metric.name, task.output.newName⟩ formula) ∧
      List.Forall₂ (fun pair part => ∃ ofConsumer,
        conditionsAt lookup (.inputMetric pair.1.name) pair.1.filter = .ok ofConsumer ∧
          ofMetric catalog lookup depth ⟨pair.2, task.groupBy,
            task.conditions ++ own ++ ofConsumer, pair.1.offset.or task.offset⟩ = .ok part)
        (metric.inputMetrics.zip (inputOutputs metric)) plans := by
  rw [ofMetric_of_metrics found kind ownRead] at ok
  obtain ⟨plans, each, ok⟩ := bind_eq_ok.mp ok
  obtain ⟨formula, _, ok⟩ := bind_eq_ok.mp ok
  refine ⟨plans, formula, ?_, (mapM_eq_ok.mp each).imp fun pair part => bind_eq_ok.mp⟩
  cases none : plans.isEmpty with
  | true =>
      rw [none] at ok
      exact nomatch ok
  | false =>
      rw [none] at ok
      exact (Except.ok.inj ok).symm

/-- A ratio or a derived metric is planned from its inputs. -/
theorem of_ofMetric_of_metrics {metric : Metric} {own : List Condition}
    (found : catalog.metric? task.output.metric = some metric)
    (kind : metric.kind = .ratio ∨ metric.kind = .derived)
    (ownRead : conditionsAt lookup (.metric metric.name) metric.filter = .ok own)
    (ok : ofMetric catalog lookup (depth + 1) task = .ok plan) :
    IsPlanned catalog lookup depth task metric own plan := by
  obtain ⟨plans, formula, rfl, each⟩ := exists_plans_of_metrics found kind ownRead ok
  have noMeasure : metric.inputMeasures = [] := by
    rcases kind with kind | kind <;> rw [Metric.inputMeasures, kind]
  have alike := inputOutputs_alike metric
  refine .metrics noMeasure ?_
  rw [← List.map_fst_zip alike.length_eq.le, List.forall₂_map_left_iff]
  obtain ⟨even, inputs⟩ := List.forall₂_iff_zip.mp each
  refine List.forall₂_iff_zip.mpr ⟨even, fun {pair part} among => ?_⟩
  obtain ⟨ofConsumer, read, ok⟩ := inputs among
  have named := (List.forall₂_iff_zip.mp alike).2 (List.of_mem_zip among).1
  exact ⟨pair.2, ofConsumer, named, read, ok⟩

/-- What is planned of a simple or cumulative metric aggregates its only measure. -/
theorem exists_input_of_ofMetric {metric : Metric}
    (found : catalog.metric? task.output.metric = some metric)
    (kind : metric.kind = .simple ∨ metric.kind = .cumulative)
    (ok : ofMetric catalog lookup (depth + 1) task = .ok plan) :
    ∃ input ofInput, metric.inputMeasures = [input] ∧
      conditionsAt lookup (.metric metric.name) input.filter = .ok ofInput := by
  rw [ofMetric, planMetric, found] at ok
  obtain ⟨own, _, ok⟩ := bind_eq_ok.mp ok
  rcases kind with kind | kind <;>
  · simp only [kind] at ok
    split at ok
    · cases ok
    · rename_i input rest inputs
      obtain ⟨ofInput, read, _⟩ := bind_eq_ok.mp ok
      have among : input ∈ metric.inputMeasures := inputs ▸ List.mem_cons_self
      exact ⟨input, ofInput, inputMeasures_eq_singleton among, read⟩

/-- A simple or cumulative metric is planned from its measure. -/
theorem of_ofMetric_of_measure {metric : Metric} {own : List Condition}
    (found : catalog.metric? task.output.metric = some metric)
    (kind : metric.kind = .simple ∨ metric.kind = .cumulative)
    (ownRead : conditionsAt lookup (.metric metric.name) metric.filter = .ok own)
    (ok : ofMetric catalog lookup (depth + 1) task = .ok plan) :
    IsPlanned catalog lookup depth task metric own plan := by
  obtain ⟨input, ofInput, inputs, inputRead⟩ := exists_input_of_ofMetric found kind ok
  rw [ofMetric_of_measure found inputs ownRead inputRead] at ok
  obtain ⟨part, aggregated, ok⟩ := bind_eq_ok.mp ok
  by_cases cumulative : metric.kind = .cumulative
  · simp only [cumulative, ↓reduceIte] at ok
    obtain ⟨above, accumulates, ⟨⟩⟩ := bind_eq_ok.mp ok
    exact .measure inputs inputRead aggregated (accumulated_eq_ok accumulates)
  · simp only [cumulative, ↓reduceIte] at ok
    obtain ⟨⟩ := ok
    exact .measure inputs inputRead aggregated (.inl rfl)

/-- Whatever metric has been planned was planned in one of the two ways. -/
theorem of_ofMetric (ok : ofMetric catalog lookup depth task = .ok plan) :
    ∃ fewer metric own, depth = fewer + 1 ∧ catalog.metric? task.output.metric = some metric ∧
      conditionsAt lookup (.metric metric.name) metric.filter = .ok own ∧
      IsPlanned catalog lookup fewer task metric own plan := by
  cases depth with
  | zero => cases ok
  | succ depth =>
      have exists_own : ∃ metric own, catalog.metric? task.output.metric = some metric ∧
          conditionsAt lookup (.metric metric.name) metric.filter = .ok own := by
        rw [ofMetric, planMetric] at ok
        split at ok
        · cases ok
        · rename_i metric found
          obtain ⟨own, ownRead, _⟩ := bind_eq_ok.mp ok
          exact ⟨metric, own, found, ownRead⟩
      obtain ⟨metric, own, found, ownRead⟩ := exists_own
      refine ⟨depth, metric, own, rfl, found, ownRead, ?_⟩
      cases kind : metric.kind with
      | simple => exact of_ofMetric_of_measure found (.inl kind) ownRead ok
      | cumulative => exact of_ofMetric_of_measure found (.inr kind) ownRead ok
      | ratio => exact of_ofMetric_of_metrics found (.inl kind) ownRead ok
      | derived => exact of_ofMetric_of_metrics found (.inr kind) ownRead ok

private theorem computes_of_ofMetric (ok : ofMetric catalog lookup depth task = .ok plan) :
    plan.computes = true := by
  obtain ⟨_, _, _, _, _, _, planned⟩ := of_ofMetric ok
  cases planned with
  | measure => rfl
  | metrics => rfl

/-- A subquery computes its metric last. -/
theorem computes_of_subqueryAt : ∀ name entity plan,
    subqueryAt catalog lookup depth name entity = .ok plan → plan.computes = true :=
  fun _ _ _ ok => computes_of_ofMetric ok

/-! ## Derivations -/

/-- Every derivation of a metric that is planned is listed. -/
theorem mem_derivations_of_ofMetric (ok : ofMetric catalog lookup depth task = .ok plan)
    {derivation : Derivation} (derives : catalog.Derives task.output.metric derivation) :
    derivation ∈ catalog.derivations depth task.output.metric := by
  induction depth generalizing task plan derivation with
  | zero => exact nomatch ok
  | succ depth ih =>
      obtain ⟨_, metric, own, ⟨⟩, found, _, planned⟩ := of_ofMetric ok
      rw [Catalog.derivations_succ found]
      cases derives with
      | own same among =>
          obtain ⟨⟩ := found.symm.trans same
          exact List.mem_append_left _ (List.mem_map_of_mem among)
      | @through _ _ input index rest same listed derives =>
          obtain ⟨⟩ := found.symm.trans same
          refine List.mem_append_right _ (List.mem_flatMap.mpr
            ⟨(input, index), List.mk_mem_zipIdx_iff_getElem?.mpr listed, List.mem_map_of_mem ?_⟩)
          have among := List.mem_of_getElem? listed
          cases planned with
          | measure inputs =>
              rw [inputMetrics_eq_nil inputs] at among
              exact nomatch among
          | metrics _ inputs =>
              obtain ⟨_, _, output, _, named, _, ok⟩ := exists_right_of_forall₂ inputs among
              have below := ih ok (named ▸ derives)
              rwa [named] at below

/-- Whether a measure is aggregated for a derivation, under some outer conditions and then the
filters on the derivation, with its time shifted by the last window on the derivation or else by an
outer one. -/
def Aggregates (catalog : Catalog) (lookup : FilterLookup) (groupBy : List GroupByItem)
    (outer : List Condition) (shift : Option OffsetWindow) (derivation : Derivation)
    (aggregated : AggregatedMeasure × Dataflow) : Prop :=
  ∃ depth conditions, derivation.Renders lookup conditions ∧
    ofMeasure catalog (subqueryAt catalog lookup depth) derivation.measure groupBy
      (outer ++ conditions) (derivation.offsets.getLast?.or shift) = .ok aggregated.2 ∧
    aggregated.2.aggregations = [aggregated]

/-- A measure is aggregated once in its plan, by the last step. -/
theorem exists_aggregations_of_ofMeasure {name : String} {groupBy : List GroupByItem}
    {conditions : List Condition} {offset : Option OffsetWindow}
    (ok : ofMeasure catalog (subqueryAt catalog lookup depth) name groupBy conditions offset =
      .ok plan) : ∃ measure, plan.aggregations = [(measure, plan)] := by
  obtain ⟨_, measure, source, _, _, prepares, rfl⟩ :=
    of_ofMeasure computes_of_subqueryAt ok
  refine ⟨⟨measure.name, measure.aggregation⟩, ?_⟩
  rw [aggregations_aggregate, aggregations_andThen rfl, aggregations_constrained,
    prepares.aggregations_eq_nil]
  rfl

/-- The filters on the first metric of a derivation, and those of this metric on the next one, stand
before the filters on the rest. -/
theorem Aggregates.through {groupBy : List GroupByItem} {outer own ofConsumer : List Condition}
    {shift : Option OffsetWindow} {rest : Derivation} {aggregated : AggregatedMeasure × Dataflow}
    {metric : Metric} {input : InputMetric} (index : Nat)
    (aggregates : Aggregates catalog lookup groupBy (outer ++ own ++ ofConsumer)
      (input.offset.or shift) rest aggregated)
    (ownRead : conditionsAt lookup (.metric metric.name) metric.filter = .ok own)
    (read : conditionsAt lookup (.inputMetric input.name) input.filter = .ok ofConsumer) :
    Aggregates catalog lookup groupBy outer shift (.through metric input index rest)
      aggregated := by
  obtain ⟨depth, conditions, renders, ok, single⟩ := aggregates
  refine ⟨depth, own ++ (ofConsumer ++ conditions), ?_, ?_, single⟩
  · have later := List.rel_append (forall₂_of_conditionsAt read) renders
    exact List.rel_append (forall₂_of_conditionsAt ownRead) later
  · rw [Derivation.last_offsets_through, ← List.append_assoc, ← List.append_assoc]
    exact ok

/-- The measures in the plan of a metric are aggregated for its derivations, one by one. -/
theorem aggregations_of_ofMetric (ok : ofMetric catalog lookup depth task = .ok plan) :
    List.Forall₂ (Aggregates catalog lookup task.groupBy task.conditions task.offset)
      (catalog.derivations depth task.output.metric) plan.aggregations := by
  induction depth generalizing task plan with
  | zero => exact nomatch ok
  | succ depth ih =>
      obtain ⟨_, metric, own, ⟨⟩, found, ownRead, planned⟩ := of_ofMetric ok
      rw [Catalog.derivations_succ found]
      cases planned with
      | @measure input ofInput part plan inputs inputRead aggregated accumulated =>
          obtain ⟨measure, single⟩ := exists_aggregations_of_ofMeasure aggregated
          have above : plan.aggregations = part.aggregations := by
            rcases accumulated with rfl | ⟨_, _, _, rfl⟩
            · rfl
            · exact aggregations_andThen rfl part
          rw [aggregations_andThen rfl, above, single, inputs, inputMetrics_eq_nil inputs]
          refine .cons ⟨depth, own ++ ofInput, ?_, ?_, single⟩ .nil
          · exact List.rel_append (forall₂_of_conditionsAt ownRead)
              (forall₂_of_conditionsAt inputRead)
          · rw [← List.append_assoc]
            exact aggregated
      | @metrics plans formula noMeasure inputs =>
          rw [aggregations_andThen rfl, aggregations_combined, noMeasure, List.map_nil,
            List.nil_append]
          rw [← List.zipIdx_map_fst 0 metric.inputMetrics, List.forall₂_map_left_iff] at inputs
          refine List.rel_flatMap inputs fun numbered part planned => ?_
          obtain ⟨output, ofConsumer, named, read, ok⟩ := planned
          have below := ih ok
          rw [named] at below
          exact List.forall₂_map_left_iff.mpr
            (below.imp fun rest aggregated aggregates => aggregates.through _ ownRead read)

/-- A part of plans brought together belongs to one of them, or it is the step that brings them
together. -/
theorem ownParts_combined {plans : List Dataflow} {part : Dataflow}
    (member : part ∈ (combined plans).ownParts) :
    (∃ plan ∈ plans, part ∈ plan.ownParts) ∨ part.step = .combine := by
  have several : part ∈ (node .combine plans).ownParts →
      (∃ plan ∈ plans, part ∈ plan.ownParts) ∨ part.step = .combine := by
    have other : Step.combine.isJoin = false := rfl
    rw [ownParts, other, ownPartsOf_false, List.mem_append, List.mem_flatMap, List.mem_singleton]
    rintro (below | rfl)
    · exact .inl below
    · exact .inr rfl
  rcases plans with _ | ⟨plan, _ | ⟨_, _⟩⟩
  · exact several member
  · exact .inl ⟨plan, List.mem_cons_self, member⟩
  · exact several member

/-- What constrains a plan stands below a step that does not. -/
theorem mem_ownParts_of_constrains {part : Dataflow} {condition : Condition}
    (constrains : part.step = .constrain condition) {step : Step}
    (member : part ∈ (plan.andThen step).ownParts) (other : step ≠ .constrain condition)
    (noJoin : step.isJoin = false) : part ∈ plan.ownParts := by
  rw [ownParts_andThen noJoin] at member
  rcases List.mem_append.mp member with below | last
  · exact below
  · rw [List.mem_singleton.mp last] at constrains
    exact (other constrains).elim

/-- Nothing is constrained above the measures. -/
theorem constrained_of_ofMetric (ok : ofMetric catalog lookup depth task = .ok plan)
    {part : Dataflow} (member : part ∈ plan.ownParts) {condition : Condition}
    (constrains : part.step = .constrain condition) :
    ∃ aggregated ∈ plan.aggregations, part ∈ aggregated.2.ownParts := by
  induction depth generalizing task plan with
  | zero => exact nomatch ok
  | succ depth ih =>
      obtain ⟨_, metric, own, ⟨⟩, found, ownRead, planned⟩ := of_ofMetric ok
      cases planned with
      | @measure input ofInput whole plan inputs inputRead aggregated accumulated =>
          have below := mem_ownParts_of_constrains constrains member nofun rfl
          obtain ⟨measure, single⟩ := exists_aggregations_of_ofMeasure aggregated
          rw [aggregations_andThen rfl]
          rcases accumulated with rfl | ⟨_, _, _, rfl⟩
          · exact ⟨_, single ▸ List.mem_cons_self, below⟩
          · have inside := mem_ownParts_of_constrains constrains below nofun rfl
            rw [aggregations_andThen rfl]
            exact ⟨_, single ▸ List.mem_cons_self, inside⟩
      | @metrics plans formula noMeasure inputs =>
          have below := mem_ownParts_of_constrains constrains member nofun rfl
          rw [aggregations_andThen rfl, aggregations_combined]
          rcases ownParts_combined below with ⟨input, among, inside⟩ | last
          · obtain ⟨_, _, _, _, _, _, ok⟩ := exists_left_of_forall₂ inputs among
            obtain ⟨aggregated, listed, inside⟩ := ih ok inside
            exact ⟨aggregated, List.mem_flatMap.mpr ⟨input, among, listed⟩, inside⟩
          · exact nomatch last.symm.trans constrains

/-! ## Queries -/

/-- Whether a measure is aggregated along a derivation of a query: from its model, to which columns
are only joined, under the condition of the query and then the filters on the derivation, if there
are any. -/
def IsAlong (catalog : Catalog) (query : ResolvedQuery) (derivation : Derivation)
    (aggregated : AggregatedMeasure × Dataflow) : Prop :=
  ∃ model measure source conditions filtered,
    catalog.measure? derivation.measure = some (model, measure) ∧
    derivation.Renders query.lookup conditions ∧
    (query.condition.toList ++ conditions = [] ↔
      query.condition = none ∧ derivation.filters = []) ∧
    source.Prepares ∧
    IsConstrained source (query.condition.toList ++ conditions) filtered ∧
    aggregated.1 = ⟨measure.name, measure.aggregation⟩ ∧
    aggregated.2 = (filtered.andThen
      (.pass (.measure measure.name :: query.groupBy.map .item))).andThen
        (.aggregate [aggregated.1])

/-- A measure that is aggregated for a derivation is aggregated along it. -/
theorem Aggregates.isAlong {query : ResolvedQuery} {derivation : Derivation}
    {aggregated : AggregatedMeasure × Dataflow}
    {shift : Option OffsetWindow} (aggregates : Aggregates catalog query.lookup query.groupBy
      query.condition.toList shift derivation aggregated) :
    IsAlong catalog query derivation aggregated := by
  obtain ⟨depth, conditions, renders, ok, single⟩ := aggregates
  obtain ⟨model, measure, source, found, _, prepares, plan⟩ :=
    of_ofMeasure computes_of_subqueryAt ok
  have isMeasure : aggregated.1 = ⟨measure.name, measure.aggregation⟩ := by
    rw [plan, aggregations_aggregate, aggregations_andThen rfl, aggregations_constrained,
      prepares.aggregations_eq_nil] at single
    exact congrArg Prod.fst (List.singleton_inj.mp single).symm
  refine ⟨model, measure, source, conditions, _, found, renders, ?_, prepares,
    isConstrained_constrained source _, isMeasure, ?_⟩
  · rw [List.append_eq_nil_iff, Option.toList_eq_nil_iff, ← List.length_eq_zero_iff,
      ← renders.length_eq, List.length_eq_zero_iff]
  · rw [isMeasure]
    exact plan

/-- The plan of a query selects, sorts if that is asked for, and gives the result. -/
theorem of_ofQuery {query : ResolvedQuery} (ok : ofQuery catalog query = .ok plan) :
    ∃ selection sorted, ofSelection catalog query = .ok selection ∧
      (sorted = selection ∨ sorted = selection.andThen (.sort query.orderBy query.limit)) ∧
      plan = sorted.andThen .result := by
  obtain ⟨selection, selected, ⟨⟩⟩ := bind_eq_ok.mp ok
  refine ⟨selection, _, selected, ?_, rfl⟩
  split
  · exact .inl rfl
  · exact .inr rfl

/-- Nothing is measured where items are only listed. -/
theorem aggregations_of_ofItems {groupBy : List GroupByItem} {conditions : List Condition}
    (ok : (ofItems catalog groupBy conditions : Except QueryError Dataflow) = .ok plan) :
    plan.aggregations = [] := by
  obtain ⟨_, _, ok⟩ := bind_eq_ok.mp ok
  split at ok
  · cases ok
  · split at ok
    · cases ok
    · rename_i model _
      obtain ⟨⟩ := ok
      rw [aggregations_aggregate, aggregations_andThen rfl, aggregations_constrained,
        (prepares_readModel model).aggregations_eq_nil]
      rfl

/-- The measures of a query are aggregated for the derivations of its metrics, all of which are
listed. -/
theorem aggregates_of_ofQuery {query : ResolvedQuery} (ok : ofQuery catalog query = .ok plan) :
    (∀ output ∈ query.metrics, ∀ derivation,
      derivation ∈ catalog.derivations catalog.metricDepth output.metric ↔
        catalog.Derives output.metric derivation) ∧
    List.Forall₂ (Aggregates catalog query.lookup query.groupBy query.condition.toList none)
      (query.metrics.flatMap fun output => catalog.derivations catalog.metricDepth output.metric)
      plan.aggregations := by
  obtain ⟨selection, sorted, selected, isSorted, rfl⟩ := of_ofQuery ok
  have same : (sorted.andThen .result).aggregations = selection.aggregations := by
    rw [aggregations_andThen rfl]
    rcases isSorted with rfl | rfl
    · rfl
    · exact aggregations_andThen rfl selection
  rw [same]
  unfold ofSelection planSelection at selected
  split at selected
  · rename_i none
    rw [List.isEmpty_iff.mp none, aggregations_of_ofItems selected]
    exact ⟨nofun, .nil⟩
  · obtain ⟨plans, planned, ⟨⟩⟩ := bind_eq_ok.mp selected
    have each := mapM_eq_ok.mp planned
    refine ⟨fun output asked derivation => ?_, ?_⟩
    · obtain ⟨_, _, ok⟩ := exists_right_of_forall₂ each asked
      exact ⟨Catalog.derives_of_mem_derivations, mem_derivations_of_ofMetric ok⟩
    · rw [aggregations_combined]
      exact List.rel_flatMap each fun output part ok => aggregations_of_ofMetric ok

/-- Whether the aggregated measures of a plan are those at the ends of all derivations of the
metrics of a query, in the order of the derivations and each along its own, and nothing is
constrained elsewhere. -/
structure FollowsDerivations (catalog : Catalog) (query : ResolvedQuery) (plan : Dataflow) :
    Prop where
  listed : ∀ output ∈ query.metrics, ∀ derivation,
    derivation ∈ catalog.derivations catalog.metricDepth output.metric ↔
      catalog.Derives output.metric derivation
  distinct : ∀ output ∈ query.metrics,
    (catalog.derivations catalog.metricDepth output.metric).Nodup
  along : List.Forall₂ (IsAlong catalog query)
    (query.metrics.flatMap fun output => catalog.derivations catalog.metricDepth output.metric)
    plan.aggregations
  constrained : query.metrics ≠ [] → ∀ part ∈ plan.ownParts, ∀ condition,
    part.step = .constrain condition → ∃ aggregated ∈ plan.aggregations,
      part ∈ aggregated.2.ownParts

/-- Whatever can be planned follows the derivations of its metrics. -/
theorem ofQuery_follows_derivations {query : ResolvedQuery}
    (ok : ofQuery catalog query = .ok plan) : FollowsDerivations catalog query plan := by
  obtain ⟨selection, sorted, selected, isSorted, rfl⟩ := of_ofQuery ok
  have same : (sorted.andThen .result).aggregations = selection.aggregations := by
    rw [aggregations_andThen rfl]
    rcases isSorted with rfl | rfl
    · rfl
    · exact aggregations_andThen rfl selection
  unfold ofSelection planSelection at selected
  split at selected
  · rename_i none
    rw [List.isEmpty_iff] at none
    have silent := same.trans (aggregations_of_ofItems selected)
    refine ⟨?_, ?_, ?_, fun some => (some none).elim⟩
    · rw [none]
      exact nofun
    · rw [none]
      exact nofun
    · rw [none, silent]
      exact .nil
  · obtain ⟨plans, planned, ⟨⟩⟩ := bind_eq_ok.mp selected
    have each := mapM_eq_ok.mp planned
    rw [aggregations_combined] at same
    refine ⟨fun output asked derivation => ?_, fun _ _ => Catalog.nodup_derivations _ _, ?_,
      fun _ part member condition constrains => ?_⟩
    · obtain ⟨_, _, ok⟩ := exists_right_of_forall₂ each asked
      exact ⟨Catalog.derives_of_mem_derivations, mem_derivations_of_ofMetric ok⟩
    · rw [same]
      refine List.rel_flatMap each fun output part ok => ?_
      exact (aggregations_of_ofMetric ok).imp fun _ _ => Aggregates.isAlong
    · have below := mem_ownParts_of_constrains constrains member nofun rfl
      have inside : part ∈ (combined plans).ownParts := by
        rcases isSorted with rfl | rfl
        · exact below
        · exact mem_ownParts_of_constrains constrains below nofun rfl
      rw [same]
      rcases ownParts_combined inside with ⟨metric, among, inside⟩ | last
      · obtain ⟨_, _, ok⟩ := exists_left_of_forall₂ each among
        obtain ⟨aggregated, listed, inside⟩ := constrained_of_ofMetric ok inside constrains
        exact ⟨aggregated, List.mem_flatMap.mpr ⟨metric, among, listed⟩, inside⟩
      · exact nomatch last.symm.trans constrains

/-- The yield of customers with some revenue is aggregated from orders and from visits. -/
theorem ofQuery_follows_derivations_yield : ∃ query plan,
    ((Request.yieldRequest.resolve Request.shopCatalog .standard).run.run (.empty 4)).1 =
      .ok query ∧
    ofQuery Request.shopCatalog query = .ok plan ∧
    plan.aggregations.map (fun aggregated => aggregated.1.measure) = ["amount", "visits"] ∧
    FollowsDerivations Request.shopCatalog query plan := by
  have checked : ((Request.yieldRequest.resolve Request.shopCatalog .standard).run.run
      (.empty 4)).1.toOption.any (fun query =>
        (ofQuery Request.shopCatalog query).toOption.any fun plan =>
          plan.aggregations.map (fun aggregated => aggregated.1.measure) == ["amount", "visits"]) =
      true := by decide +kernel
  cases resolved : ((Request.yieldRequest.resolve Request.shopCatalog .standard).run.run
      (.empty 4)).1 with
  | error error =>
      rw [resolved] at checked
      cases checked
  | ok query =>
      rw [resolved] at checked
      cases ok : ofQuery Request.shopCatalog query with
      | error error =>
          simp only [Except.toOption, Option.any_some, ok] at checked
          cases checked
      | ok plan =>
          simp only [Except.toOption, Option.any_some, ok, beq_iff_eq] at checked
          exact ⟨query, plan, rfl, ok, checked, ofQuery_follows_derivations ok⟩

end Dataflow

end MetricQuery

import MetricQuery.Filter.Coverage
import MetricQuery.Proofs.Dataflow.Measures

/-! # Metrics over measures

A metric over a measure holds what it is grouped by and itself (`ofMetric_of_measure_yields`). A
metric without filters can also be an item: the subquery for it can be joined wherever it is offered
(`isComputed_of_offered`).
-/

namespace MetricQuery.Dataflow

open Sql

variable {catalog : Catalog} {lookup : FilterLookup} {depth : Nat}

/-- Plans metrics per value of an entity, at most some number of metrics deep. -/
def subqueryAt (catalog : Catalog) (lookup : FilterLookup) (depth : Nat) : SubqueryPlanner :=
  fun metric entity => ofMetric catalog lookup depth ⟨⟨metric, none⟩, [.entity entity []], [], none⟩

/-- A metric over a measure is the measure, aggregated under the conditions of both and accumulated
if the metric is cumulative. -/
theorem ofMetric_of_measure {task : MetricTask} {metric : Metric} {input : InputMeasure}
    {own ofInput : List Condition} (found : catalog.metric? task.output.metric = some metric)
    (inputs : metric.inputMeasures = [input])
    (ownRead : conditionsAt lookup (.metric metric.name) metric.filter = .ok own)
    (inputRead : conditionsAt lookup (.metric metric.name) input.filter = .ok ofInput) :
    ofMetric catalog lookup (depth + 1) task = (do
      let aggregated ← ofMeasure catalog (subqueryAt catalog lookup depth) input.name task.groupBy
        (task.conditions ++ own ++ ofInput) task.offset
      let plan ←
        if metric.kind = .cumulative then accumulated catalog aggregated input.name task.groupBy
        else pure aggregated
      return plan.andThen (.compute ⟨metric.name, task.output.newName⟩ (.measure input.name))) := by
  rw [ofMetric, planMetric, found]
  simp only [ownRead]
  cases kind : metric.kind with
  | simple =>
      simp only [inputs]
      change (conditionsAt lookup _ input.filter >>= _) = _
      rw [inputRead]
      rfl
  | cumulative =>
      simp only [inputs]
      change (conditionsAt lookup _ input.filter >>= _) = _
      rw [inputRead]
      rfl
  | ratio => simp [Metric.inputMeasures, kind] at inputs
  | derived => simp [Metric.inputMeasures, kind] at inputs

/-- Where no filters are declared there are no conditions. -/
theorem conditionsAt_of_none {location : FilterLocation} {filter : Option (List String)}
    (none : filter.getD [] = []) : conditionsAt lookup location filter = .ok [] := by
  rw [conditionsAt, none]
  rfl

/-- A metric without filters has none of its own and none on its input measure. -/
theorem of_ofMetric_eq_nil {metric : Metric} {input : InputMeasure}
    (unfiltered : LocatedFilters.ofMetric metric = []) (inputs : metric.inputMeasures = [input]) :
    metric.filter.getD [] = [] ∧ input.filter.getD [] = [] := by
  rw [LocatedFilters.ofMetric, inputs, List.flatMap_singleton] at unfiltered
  exact ⟨(List.append_eq_nil_iff.mp unfiltered).2, (List.append_eq_nil_iff.mp unfiltered).1⟩

/-- A metric that is computed from a plan is grouped like the plan. -/
theorem computed_yields {plan : Dataflow} {contents : ColumnContent → Prop}
    {groupBy : List GroupByItem} {output : MetricOutput} {formula : MetricFormula}
    (yields : Yields catalog plan contents)
    (grouped : ∀ item, contents (.item item) ↔ item ∈ groupBy)
    (held : ∀ content ∈ formulaReads formula, contents content) :
    Yields catalog (plan.andThen (.compute output formula))
      (GroupedContents groupBy (.metric output)) := by
  refine (yields.compute held).congr fun content => or_congr_left ⟨?_, ?_⟩
  · intro present
    obtain ⟨present, isItem⟩ := present
    cases content with
    | item item => exact ⟨item, (grouped item).mp present, rfl⟩
    | _ => exact nomatch isItem
  · intro present
    obtain ⟨item, member, rfl⟩ := present
    exact ⟨(grouped item).mpr member, rfl⟩

/-- The items among the contents of a grouped plan are those that it is grouped by. -/
theorem GroupedContents.item_iff {groupBy : List GroupByItem} {value : ColumnContent}
    (other : value.item? = none) (item : GroupByItem) :
    GroupedContents groupBy value (.item item) ↔ item ∈ groupBy := by
  constructor
  · intro present
    rcases present with ⟨_, member, ⟨⟩⟩ | rfl
    · exact member
    · exact nomatch other
  · exact fun member => .inl ⟨item, member, rfl⟩

/-- A measure can be accumulated over the time of the metric that it is grouped by. -/
theorem accumulated_yields {plan : Dataflow} {groupBy : List GroupByItem} {name : String}
    (found : (catalog.measure? name).isSome = true)
    (yields : Yields catalog plan (GroupedContents groupBy (.measure name))) :
    ∃ result : Dataflow,
      (accumulated catalog plan name groupBy : Except QueryError Dataflow) = .ok result ∧
      Yields catalog result (GroupedContents groupBy (.measure name)) := by
  unfold accumulated
  cases time : groupBy.find? GroupByItem.isMetricTime with
  | none => exact ⟨plan, rfl, yields⟩
  | some item =>
      obtain ⟨⟨model, measure⟩, found⟩ := Option.isSome_iff_exists.mp found
      rw [found]
      refine ⟨_, rfl, yields.accumulate ?_ fun part member => ?_⟩
      · exact .inl ⟨item, List.mem_of_find?_eq_some time, rfl⟩
      · exact .inl ⟨part, (List.mem_filter.mp member).1, rfl⟩

/-- A metric over a measure that can be aggregated can be planned. -/
theorem ofMetric_of_measure_yields {task : MetricTask} {metric : Metric} {input : InputMeasure}
    {own ofInput : List Condition} (found : catalog.metric? task.output.metric = some metric)
    (inputs : metric.inputMeasures = [input])
    (ownRead : conditionsAt lookup (.metric metric.name) metric.filter = .ok own)
    (inputRead : conditionsAt lookup (.metric metric.name) input.filter = .ok ofInput)
    (measured : (catalog.measure? input.name).isSome = true)
    (aggregates : ∃ plan, ofMeasure catalog (subqueryAt catalog lookup depth) input.name
        task.groupBy (task.conditions ++ own ++ ofInput) task.offset = .ok plan ∧
      Yields catalog plan (GroupedContents task.groupBy (.measure input.name))) :
    ∃ plan, ofMetric catalog lookup (depth + 1) task = .ok plan ∧
      Yields catalog plan (GroupedContents task.groupBy (.metric task.output)) := by
  obtain ⟨aggregated, ok, yields⟩ := aggregates
  have output : MetricOutput.mk metric.name task.output.newName = task.output := by
    rw [(Catalog.of_metric? found).2]
  rw [ofMetric_of_measure found inputs ownRead inputRead, ok, output]
  have computed : ∀ {plan : Dataflow},
      Yields catalog plan (GroupedContents task.groupBy (.measure input.name)) →
        Yields catalog (plan.andThen (.compute task.output (.measure input.name)))
          (GroupedContents task.groupBy (.metric task.output)) :=
    fun yields => computed_yields yields (GroupedContents.item_iff rfl)
      (List.forall_mem_singleton.mpr (.inr rfl))
  by_cases cumulative : metric.kind = .cumulative
  · obtain ⟨plan, ok, yields⟩ := accumulated_yields measured yields
    refine ⟨_, ?_, computed yields⟩
    simp only [cumulative, ↓reduceIte]
    exact bind_eq_ok.mpr ⟨aggregated, rfl, bind_eq_ok.mpr ⟨plan, ok, rfl⟩⟩
  · refine ⟨_, ?_, computed yields⟩
    simp only [cumulative, ↓reduceIte]
    rfl

/-! ## Metrics as items -/

/-- Whether an item is no metric that has filters of its own. -/
def IsUnfiltered (catalog : Catalog) (item : GroupByItem) : Prop :=
  item.kind = .metric → ∀ metric ∈ catalog.metric? item.name, LocatedFilters.ofMetric metric = []

instance (catalog : Catalog) (item : GroupByItem) : Decidable (IsUnfiltered catalog item) :=
  inferInstanceAs (Decidable (item.kind = .metric → ∀ metric ∈ catalog.metric? item.name, _))

private theorem measure?_of_mem {model : SemanticModel} {measure : Measure}
    (distinct : ((catalog.manifest.models.flatMap SemanticModel.measures).map Measure.name).Nodup)
    (known : model ∈ catalog.manifest.models) (own : measure ∈ model.measures) :
    catalog.measure? measure.name = some (model, measure) := by
  have names : catalog.measures.map (fun pair => pair.2.name) =
      (catalog.manifest.models.flatMap SemanticModel.measures).map Measure.name := by
    simp only [Catalog.measures, List.map_flatMap, List.map_map]
    rfl
  have among : (model, measure) ∈ catalog.measures :=
    List.mem_flatMap.mpr ⟨model, known, List.mem_map_of_mem own⟩
  rw [← names] at distinct
  exact findRev?_eq_some_of_mem distinct among

/-- A metric aggregates at most one measure itself. -/
theorem inputMeasures_eq_singleton {metric : Metric} {input : InputMeasure}
    (among : input ∈ metric.inputMeasures) : metric.inputMeasures = [input] := by
  cases kind : metric.kind <;> cases measure : metric.inputs.measure <;>
    simp_all [Metric.inputMeasures]

/-- A metric over a measure is not computed from other metrics. -/
theorem inputMetrics_eq_nil {metric : Metric} {input : InputMeasure}
    (inputs : metric.inputMeasures = [input]) : metric.inputMetrics = [] := by
  cases kind : metric.kind <;> simp_all [Metric.inputMeasures, Metric.inputMetrics]

private theorem ownerOf_eq_some {models : List SemanticModel} {metric : Metric}
    {owner : SemanticModel}
    (owned : Element.ownerOf models metric = some owner) :
    ∃ input measure, metric.inputMeasures = [input] ∧ owner ∈ models ∧
      measure ∈ owner.measures ∧ measure.name = input.name := by
  unfold Element.ownerOf at owned
  split at owned
  · exact nomatch owned
  · rename_i input rest inputs
    have has := List.find?_some owned
    obtain ⟨measure, found⟩ := Option.isSome_iff_exists.mp has
    exact ⟨input, measure, inputMeasures_eq_singleton (inputs ▸ List.mem_cons_self),
      List.mem_of_find?_eq_some owned, List.mem_of_find?_eq_some found,
      by simpa using List.find?_some found⟩

/-- The metrics that a measure offers are simple, and their models have the same entity. -/
theorem of_offered_metric {manifest : Manifest} {model : SemanticModel} {measure : Measure}
    {item : GroupByItem} (offered : Element.Offered manifest model measure item)
    (kind : item.kind = .metric) : ∃ entity metric owner, entity ∈ model.entities ∧
      metric ∈ manifest.metrics ∧ metric.kind = .simple ∧
      Element.ownerOf manifest.models metric = some owner ∧
      (owner.entity? entity.name).isSome = true ∧
      item = .metric metric.name [entity.name] [entity.name] := by
  cases offered with
  | alone alone => exact (kind_ne_metric_of_isOwn (isOwn_of_offersAlone alone) kind).elim
  | time => exact nomatch kind
  | joined joins => exact (joins.kind_ne_metric kind).elim
  | metric entity metric owner own known simple owned shared =>
      exact ⟨entity, metric, owner, own, known, simple, owned, shared, rfl⟩

/-- The subquery for a metric can be joined wherever the metric is offered, if its filters can be
rendered and read what its measure offers, the metrics among it computed in the same way. -/
theorem isComputed_of_conditions (valid : catalog.manifest.IsValid)
    (unambiguous : catalog.manifest.IsUnambiguous) {model : SemanticModel} {measure : Measure}
    {item : GroupByItem} (offered : Element.Offered catalog.manifest model measure item)
    (kind : item.kind = .metric)
    (filtered : ∀ metric input, catalog.metric? item.name = some metric →
      metric.inputMeasures = [input] → ∃ own ofInput,
        conditionsAt lookup (.metric metric.name) metric.filter = .ok own ∧
        conditionsAt lookup (.metric metric.name) input.filter = .ok ofInput ∧
        ∀ condition ∈ own ++ ofInput, ∀ item ∈ condition.items, ∀ owner measure,
          catalog.measure? input.name = some (owner, measure) →
          Element.Offered catalog.manifest owner measure item ∧
            (item.kind = .metric →
              IsComputed catalog (subqueryAt catalog lookup depth) owner item)) :
    IsComputed catalog (subqueryAt catalog lookup (depth + 1)) model item := by
  obtain ⟨entity, metric, owner, shared, known, simple, owned, linked, rfl⟩ :=
    of_offered_metric offered kind
  have found := Catalog.metric?_of_mem valid.metrics known
  obtain ⟨input, measure, single, knownOwner, measured, named⟩ := ownerOf_eq_some owned
  obtain ⟨own, ofInput, ownRead, inputRead, fits⟩ := filtered metric input found single
  obtain ⟨key, ownKey, same⟩ := exists_entity linked
  have alone : owner.OffersAlone (.entity entity.name []) := same ▸ offersAlone_entity ownKey
  have foundMeasure : catalog.measure? input.name = some (owner, measure) :=
    named ▸ measure?_of_mem valid.measures knownOwner measured
  have needed : ∀ item ∈ neededItems [.entity entity.name []] (own ++ ofInput),
      Element.Offered catalog.manifest owner measure item ∧ (item.kind = .metric →
        IsComputed catalog (subqueryAt catalog lookup depth) owner item) := by
    intro item needed
    rcases mem_neededItems.mp needed with grouped | ⟨condition, member, inside⟩
    · rw [List.mem_singleton.mp grouped]
      exact ⟨.alone alone, nofun⟩
    · exact fits condition member item inside owner measure foundMeasure
  have served := served_of_reached unambiguous (isWithin_mostLinks owner _) knownOwner
    List.mem_cons_self fun item member => isReached_of_offered (needed item member).1
  have aggregates := @ofMeasure_yields catalog owner measure valid.models valid.time input.name
    (subqueryAt catalog lookup depth) [.entity entity.name []] (own ++ ofInput) none foundMeasure
    (fun item member => (needed item member).1) served fun item member => (needed item member).2
  obtain ⟨plan, ok, yields⟩ := @ofMetric_of_measure_yields catalog lookup depth
    ⟨⟨metric.name, none⟩, [.entity entity.name []], [], none⟩ metric input own ofInput found
    single ownRead inputRead (by rw [foundMeasure]; rfl) aggregates
  exact ⟨metric.name, entity.name, plan, rfl, List.find?_isSome.mpr ⟨entity, shared, by simp⟩,
    ok, yields.held, (yields.holds_iff _).mpr (.inl ⟨_, List.mem_cons_self, rfl⟩),
    (yields.holds_iff _).mpr (.inr rfl)⟩

/-- The subquery for a metric without filters can be joined wherever the metric is offered. -/
theorem isComputed_of_offered (valid : catalog.manifest.IsValid)
    (unambiguous : catalog.manifest.IsUnambiguous) {model : SemanticModel} {measure : Measure}
    {item : GroupByItem} (offered : Element.Offered catalog.manifest model measure item)
    (kind : item.kind = .metric) (unfiltered : IsUnfiltered catalog item) (deep : 0 < depth) :
    IsComputed catalog (subqueryAt catalog lookup depth) model item := by
  obtain ⟨depth, rfl⟩ := Nat.exists_eq_add_one_of_ne_zero (Nat.pos_iff_ne_zero.mp deep)
  refine isComputed_of_conditions valid unambiguous offered kind fun metric input found single => ?_
  obtain ⟨noOwn, noInput⟩ := of_ofMetric_eq_nil (unfiltered kind metric found) single
  exact ⟨[], [], conditionsAt_of_none noOwn, conditionsAt_of_none noInput,
    fun _ absent => nomatch absent⟩

end MetricQuery.Dataflow

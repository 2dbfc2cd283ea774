import MetricQuery.Proofs.Dataflow.Aggregations
import MetricQuery.Proofs.Remembering
import MetricQuery.Proofs.Sql.Converting
import MetricQuery.Proofs.Sql.Scoping

/-! # What a compiled request selects

A metric that is planned gives the items that it is grouped by and itself, in order and nothing else
(`Dataflow.hasColumns_of_ofMetric`), however deep it is derived, and so does a whole query. The
statement of a compiled request therefore selects exactly its items and its metrics
(`Request.selects_of_compileWith`).
-/

namespace MetricQuery

open Sql

namespace Dataflow

variable {catalog : Catalog} {lookup : FilterLookup} {depth : Nat} {plan : Dataflow}

/-- Whether a plan gives columns for some contents, in order and nothing else. -/
def HasColumns (catalog : Catalog) (plan : Dataflow) (contents : List ColumnContent) : Prop :=
  ∀ dataSet, Converts catalog plan dataSet → dataSet.columns = Columns.holding contents

/-- A value after distinct group-by items repeats none of them. -/
theorem nodup_grouped {groupBy : List GroupByItem} (distinct : groupBy.Nodup)
    {value : ColumnContent} (isValue : value.item? = none) :
    (groupBy.map ColumnContent.item ++ [value]).Nodup := by
  rw [← List.concat_eq_append]
  refine (nodup_items distinct).concat fun member => ?_
  obtain ⟨item, _, rfl⟩ := List.mem_map.mp member
  exact nomatch isValue

namespace HasColumns

/-- The result has the columns it is given. -/
theorem result {contents : List ColumnContent} (columns : HasColumns catalog plan contents) :
    HasColumns catalog (plan.andThen .result) contents :=
  fun dataSet converts => columns dataSet converts.of_result

/-- Sorting keeps the columns. -/
theorem sort {contents : List ColumnContent} (columns : HasColumns catalog plan contents)
    (distinct : contents.Nodup) (order : List OrderItem) (limit : Option Nat) :
    HasColumns catalog (plan.andThen (.sort order limit)) contents := by
  intro dataSet converts
  obtain ⟨input, converts, ok⟩ := converts.of_andThen rfl
  have same : input.columns = Columns.holding contents := columns _ converts
  rw [columns_of_sort (by rwa [same, Columns.map_content_holding]) ok, same]

/-- Accumulating keeps the columns. -/
theorem accumulate {contents : List ColumnContent} (columns : HasColumns catalog plan contents)
    (distinct : contents.Nodup) (order : GroupByItem) (parts : List GroupByItem)
    (measures : List AggregatedMeasure) :
    HasColumns catalog (plan.andThen (.accumulate order parts measures)) contents := by
  intro dataSet converts
  obtain ⟨input, converts, ok⟩ := converts.of_andThen rfl
  have same : input.columns = Columns.holding contents := columns _ converts
  rw [columns_of_accumulate (by rwa [same, Columns.map_content_holding]) ok, same]

/-- A selection of distinct columns has exactly these, in order. -/
theorem pass (plan : Dataflow) {contents : List ColumnContent} (distinct : contents.Nodup) :
    HasColumns catalog (plan.andThen (.pass contents)) contents := by
  intro dataSet converts
  obtain ⟨input, converts, ok⟩ := converts.of_andThen rfl
  exact columns_of_pass converts.named distinct ok

end HasColumns

/-- Whether the items that a plan gives are some items, in order. -/
def HasItems (catalog : Catalog) (plan : Dataflow) (items : List GroupByItem) : Prop :=
  ∀ dataSet, Converts catalog plan dataSet →
    dataSet.columns.items = Columns.holding (items.map .item)

/-- Columns of items and then of values are grouped by the items. -/
theorem HasColumns.hasItems {items : List GroupByItem} {values : List ColumnContent}
    (columns : HasColumns catalog plan (items.map .item ++ values))
    (isValue : ∀ value ∈ values, value.item? = none) : HasItems catalog plan items := by
  intro dataSet converts
  have none : Columns.items (Columns.holding values) = [] := by
    refine List.filter_eq_nil_iff.mpr fun column member isItem => ?_
    obtain ⟨value, among, rfl⟩ := List.mem_map.mp member
    rw [isValue value among] at isItem
    exact nomatch isItem
  rw [columns dataSet converts, Columns.holding_append, Columns.items_append,
    Columns.items_holding_items, none, List.append_nil]

/-- Computing a metric keeps the items and puts the metric behind them. -/
theorem HasItems.compute {items : List GroupByItem} (grouped : HasItems catalog plan items)
    (distinct : items.Nodup) (output : MetricOutput) (formula : MetricFormula) :
    HasColumns catalog (plan.andThen (.compute output formula))
      (items.map .item ++ [.metric output]) := by
  intro dataSet converts
  obtain ⟨input, converts, ok⟩ := converts.of_andThen rfl
  exact columns_of_compute (grouped _ converts) (nodup_grouped distinct rfl) ok

/-- Outputs that are grouped by the same items keep these items. -/
theorem hasItems_combined {plans : List Dataflow} {items : List GroupByItem}
    (distinct : items.Nodup) (each : ∀ plan ∈ plans, HasItems catalog plan items) :
    HasItems catalog (combined plans) items := by
  intro dataSet converts
  rcases converts.of_combined with ⟨single, rfl, converts⟩ | ⟨first, rest, alike, _, ok⟩
  · exact each single List.mem_cons_self dataSet converts
  · obtain ⟨plan, member, converts⟩ := exists_left_of_forall₂ alike List.mem_cons_self
    exact items_of_combine distinct (each plan member _ converts) ok

/-- Outputs for different metrics give the items and the metrics, in order. -/
theorem hasColumns_combined {outputs : List MetricOutput} {plans : List Dataflow}
    {items : List GroupByItem} (distinct : items.Nodup) (different : outputs.Nodup)
    (each : List.Forall₂ (fun output plan =>
      HasColumns catalog plan (items.map .item ++ [.metric output])) outputs plans) :
    HasColumns catalog (combined plans) (items.map .item ++ outputs.map .metric) := by
  intro dataSet converts
  rcases converts.of_combined with ⟨single, rfl, converts⟩ | ⟨first, rest, alike, _, ok⟩
  · obtain ⟨output, _, columns, none, rfl⟩ := List.forall₂_cons_right_iff.mp each
    obtain rfl := List.forall₂_nil_right_iff.mp none
    exact columns dataSet converts
  · refine columns_of_combine distinct different ((forall₂_comp each alike).imp ?_) ok
    rintro output input ⟨plan, columns, converts⟩
    exact columns _ converts

/-- What is chosen for a measure is grouped by the items that are chosen beside it. -/
theorem hasItems_pass (plan : Dataflow) (measure : String) {items : List GroupByItem}
    (distinct : items.Nodup) :
    HasItems catalog (plan.andThen (.pass (.measure measure :: items.map .item))) items := by
  intro dataSet converts
  have passed : (ColumnContent.measure measure :: items.map .item).Nodup := by
    refine List.nodup_cons.mpr ⟨fun member => ?_, nodup_items distinct⟩
    obtain ⟨item, _, same⟩ := List.mem_map.mp member
    exact nomatch same
  rw [HasColumns.pass _ passed _ converts]
  exact Columns.items_holding_items items

/-! ## Metrics -/

/-- The plan of a measure has the group-by items and then the measure. -/
theorem hasColumns_of_ofMeasure {subquery : SubqueryPlanner} {name : String}
    {groupBy : List GroupByItem} {conditions : List Condition} {offset : Option OffsetWindow}
    (distinct : groupBy.Nodup)
    (computes : ∀ name entity plan, subquery name entity = .ok plan → plan.computes = true)
    (ok : ofMeasure catalog subquery name groupBy conditions offset = .ok plan) :
    ∃ measure, HasColumns catalog plan (groupBy.map .item ++ [.measure measure]) := by
  obtain ⟨model, measure, source, _, _, _, rfl⟩ := of_ofMeasure computes ok
  refine ⟨measure.name, fun dataSet converts => ?_⟩
  obtain ⟨input, converts, ok⟩ := converts.of_andThen rfl
  have grouped : input.columns.items = Columns.holding (groupBy.map .item) :=
    hasItems_pass _ measure.name distinct _ converts
  refine columns_of_aggregate converts.named grouped ?_ ok
  exact nodup_grouped distinct rfl

/-- A metric gives the items that it is grouped by and itself, under the name that is wanted. -/
theorem hasColumns_of_ofMetric {task : MetricTask} (distinct : task.groupBy.Nodup)
    (ok : ofMetric catalog lookup depth task = .ok plan) :
    HasColumns catalog plan (task.groupBy.map .item ++ [.metric task.output]) := by
  induction depth generalizing task plan with
  | zero => exact nomatch ok
  | succ depth ih =>
      obtain ⟨_, metric, own, ⟨⟩, found, _, planned⟩ := of_ofMetric ok
      have named : task.output = ⟨metric.name, task.output.newName⟩ := by
        rw [(Catalog.of_metric? found).2]
      rw [named]
      cases planned with
      | @measure input _ part plan _ _ aggregated accumulated =>
          obtain ⟨measure, columns⟩ :=
            hasColumns_of_ofMeasure distinct computes_of_subqueryAt aggregated
          have whole : HasColumns catalog plan (task.groupBy.map .item ++ [.measure measure]) := by
            rcases accumulated with rfl | ⟨order, parts, measures, rfl⟩
            · exact columns
            · exact columns.accumulate (nodup_grouped distinct rfl) order parts measures
          exact (whole.hasItems (List.forall_mem_singleton.mpr rfl)).compute distinct _ _
      | metrics _ inputs =>
          refine HasItems.compute (hasItems_combined distinct fun part member => ?_) distinct _ _
          obtain ⟨input, _, output, ofConsumer, _, _, ok⟩ := exists_left_of_forall₂ inputs member
          have columns : HasColumns catalog part (task.groupBy.map .item ++ [.metric output]) :=
            @ih part ⟨output, task.groupBy, _, _⟩ distinct ok
          exact columns.hasItems (List.forall_mem_singleton.mpr rfl)

/-! ## Queries -/

private theorem hasColumns_of_ofItems {groupBy : List GroupByItem} {conditions : List Condition}
    (distinct : groupBy.Nodup)
    (ok : (ofItems catalog groupBy conditions : Except QueryError Dataflow) = .ok plan) :
    HasColumns catalog plan (groupBy.map .item) := by
  obtain ⟨found, _, ok⟩ := bind_eq_ok.mp ok
  split at ok
  · cases ok
  · split at ok
    · cases ok
    · obtain ⟨⟩ := ok
      intro dataSet converts
      obtain ⟨input, converts, ok⟩ := converts.of_andThen rfl
      have columns : input.columns = Columns.holding (groupBy.map .item) :=
        HasColumns.pass _ (nodup_items distinct) _ converts
      have grouped : input.columns.items = Columns.holding (groupBy.map .item) := by
        rw [columns]
        exact Columns.items_holding_items groupBy
      have aggregated := columns_of_aggregate converts.named grouped
        (by rw [List.map_nil, List.append_nil]; exact nodup_items distinct) ok
      rwa [List.map_nil, List.append_nil] at aggregated

/-- A query for different metrics by different items gives the items and the metrics, in order. -/
theorem hasColumns_of_ofQuery {query : ResolvedQuery} (different : query.metrics.Nodup)
    (distinct : query.groupBy.Nodup) (ok : ofQuery catalog query = .ok plan) :
    HasColumns catalog plan (query.groupBy.map .item ++ query.metrics.map .metric) := by
  obtain ⟨selection, sorted, selected, isSorted, rfl⟩ := of_ofQuery ok
  have columns : HasColumns catalog selection
      (query.groupBy.map .item ++ query.metrics.map .metric) := by
    unfold ofSelection planSelection at selected
    split at selected
    · rename_i none
      rw [List.isEmpty_iff.mp none, List.map_nil, List.append_nil]
      exact hasColumns_of_ofItems distinct selected
    · obtain ⟨plans, planned, ⟨⟩⟩ := bind_eq_ok.mp selected
      refine hasColumns_combined distinct different ((mapM_eq_ok.mp planned).imp ?_)
      exact fun output plan ok => hasColumns_of_ofMetric distinct ok
  have apart : (query.groupBy.map ColumnContent.item ++
      query.metrics.map ColumnContent.metric).Nodup := nodup_selected distinct different
  rcases isSorted with rfl | rfl
  · exact columns.result
  · exact (columns.sort apart _ _).result

end Dataflow

/-! ## Requests -/

namespace Request

/-- However parts of its plan are shared, the statement of a compiled request selects the items that
it groups by and then its metrics, each under its name. -/
theorem selects_of_compileWith {catalog : Catalog} {settings : Settings} {request : Request}
    {sharing : Dataflow → Sharing} {compiled : CompiledQuery}
    (ok : request.compileWith catalog settings sharing = .ok compiled) :
    compiled.statement.root.Selects compiled.statement.ctes
      (compiled.query.groupBy.map GroupByItem.qualifiedName ++
        compiled.query.metrics.map MetricOutput.name) := by
  rw [compileWith_eq] at ok
  obtain ⟨query, resolved, ok⟩ := bind_eq_ok.mp ok
  obtain ⟨plan, planned, ok⟩ := bind_eq_ok.mp ok
  obtain ⟨statement, converted, ⟨⟩⟩ := bind_eq_ok.mp ok
  obtain ⟨different, distinct⟩ := (resolve_nodup request settings _ (.empty _)).1 query resolved
  obtain ⟨plain, plainly, selects⟩ := Statement.selects_of_ofPlan converted
  have columns := Dataflow.hasColumns_of_ofQuery different distinct planned plain
    (DataSet.converts_of_ofPlan plainly)
  rw [columns, Columns.map_name_holding, List.map_append, List.map_map, List.map_map] at selects
  exact selects

/-- Even if all but the last step is shared, so that the result only reads a common table
expression, the yield by region selects the region and the yield. -/
theorem selects_of_compileWith_yield : ∃ compiled,
    yieldRequest.compileWith shopCatalog .standard (fun plan => .parts plan.inputs) =
      .ok compiled ∧
    compiled.statement.root.Selects compiled.statement.ctes ["customer__region", "yield"] := by
  have checked : (yieldRequest.compileWith shopCatalog .standard
      fun plan => .parts plan.inputs).toOption.any (fun compiled => decide
        (compiled.query.groupBy.map GroupByItem.qualifiedName ++
          compiled.query.metrics.map MetricOutput.name =
            ["customer__region", "yield"])) = true := by
    decide +kernel
  cases ok : yieldRequest.compileWith shopCatalog .standard fun plan => .parts plan.inputs with
  | error error =>
      rw [ok] at checked
      exact nomatch checked
  | ok compiled =>
      rw [ok] at checked
      have selects := selects_of_compileWith ok
      rw [of_decide_eq_true checked] at selects
      exact ⟨compiled, rfl, selects⟩

end Request

end MetricQuery

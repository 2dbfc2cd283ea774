import MetricQuery.Proofs.Sql.Contents
import MetricQuery.Proofs.Sql.Reading

/-! # Columns in order

The columns of every step have the names that follow from what they hold (`assemble_named`), and
steps that choose, group or combine give exactly the columns that they are told to give, in order.
-/

namespace MetricQuery.Sql

namespace Columns

/-- Columns that hold some contents, in order, under the names that follow from them. -/
def holding (contents : List ColumnContent) : Columns :=
  contents.map fun content => ⟨content, content.columnName⟩

/-- Columns named after two lists of contents are those of both. -/
theorem holding_append (contents others : List ColumnContent) :
    holding (contents ++ others) = holding contents ++ holding others := List.map_append

/-- Columns named after contents hold these. -/
theorem map_content_holding (contents : List ColumnContent) :
    (holding contents).map Column.content = contents := by
  rw [holding, List.map_map]
  exact List.map_id contents

/-- Columns named after contents have their names. -/
theorem map_name_holding (contents : List ColumnContent) :
    (holding contents).map Column.name = contents.map ColumnContent.columnName := by
  rw [holding, List.map_map]
  rfl

/-- Where columns are named after their contents, a content contained has its own name. -/
theorem AreNamed.mem_of_contains {columns : Columns} (named : columns.AreNamed)
    {content : ColumnContent} (held : columns.contains content = true) :
    ⟨content, content.columnName⟩ ∈ columns := by
  obtain ⟨column, member, rfl⟩ := contains_iff.mp held
  rw [← named column member]
  exact member

/-- The item columns of two lists are those of both. -/
theorem items_append (columns others : Columns) :
    Columns.items (columns ++ others) = columns.items ++ others.items := List.filter_append ..

/-- Columns named after items are all item columns. -/
theorem items_holding_items (items : List GroupByItem) :
    Columns.items (holding (items.map .item)) = holding (items.map .item) := by
  refine List.filter_eq_self.mpr fun column member => ?_
  obtain ⟨_, among, rfl⟩ := List.mem_map.mp member
  obtain ⟨item, _, rfl⟩ := List.mem_map.mp among
  rfl

end Columns

open Columns

namespace Selection

private theorem exists_foldl_add (kept columns : List Selected) :
    ∃ added, columns.foldl add kept = kept ++ added ∧ added ⊆ columns := by
  induction columns generalizing kept with
  | nil => exact ⟨[], (List.append_nil _).symm, List.Subset.refl _⟩
  | cons first rest ih =>
      obtain ⟨added, same, inside⟩ := ih (add kept first)
      rw [List.foldl_cons, same]
      unfold add
      split
      · exact ⟨added, rfl, List.subset_cons_of_subset _ inside⟩
      · refine ⟨first :: added, List.append_assoc .., ?_⟩
        exact List.cons_subset_cons first inside

private theorem foldl_add_of_nodup {kept columns : List Selected}
    (distinct : ((kept ++ columns).map (·.column.content)).Nodup) :
    columns.foldl add kept = kept ++ columns := by
  induction columns generalizing kept with
  | nil => exact (List.append_nil _).symm
  | cons first rest ih =>
      have absent : kept.any (·.column.content == first.column.content) = false := by
        rw [List.map_append, List.map_cons, List.nodup_append] at distinct
        refine List.any_eq_false.mpr fun selected member same => ?_
        exact distinct.2.2 _ (List.mem_map_of_mem member) _ List.mem_cons_self (beq_iff_eq.mp same)
      rw [List.foldl_cons, add, absent]
      simp only [Bool.false_eq_true, ↓reduceIte]
      rw [ih (by rwa [List.append_assoc, List.singleton_append]), List.append_assoc,
        List.singleton_append]

/-- Columns that all hold something else are selected as they are. -/
theorem ofList_of_nodup {columns : List Selected}
    (distinct : (columns.map (·.column.content)).Nodup) : ofList columns = columns :=
  foldl_add_of_nodup distinct

/-- Distinct columns that come first are selected first. -/
theorem exists_ofList_append {columns others : List Selected}
    (distinct : (columns.map (·.column.content)).Nodup) :
    ∃ added, ofList (columns ++ others) = columns ++ added ∧ added ⊆ others := by
  rw [ofList, List.foldl_append, ← ofList, ofList_of_nodup distinct]
  exact exists_foldl_add columns others

/-- A selection of distinct contents keeps every column, in order. -/
theorem columns_eq_of_nodup {columns : List Selected} {others : Columns}
    (same : columns.map Selected.column = others) (distinct : (others.map Column.content).Nodup) :
    (ofList columns).columns = others := by
  subst same
  rw [List.map_map] at distinct
  rw [ofList_of_nodup distinct, Selection.columns]

/-- Keeping columns selects these columns. -/
theorem columns_keep (input : Subquery) (columns : Columns) :
    (keep input columns).map Selected.column = columns := by
  rw [keep, List.map_map]
  exact List.map_id columns

end Selection

/-! ## Names -/

section

variable {input : Subquery} {dataSet : DataSet}

private theorem addMetricTime_named {dimension : String} {stored : Grain}
    {offset : Option OffsetWindow}
    (named : input.columns.AreNamed)
    (ok : addMetricTime input dimension stored offset = .ok dataSet) :
    dataSet.columns.AreNamed := by
  obtain ⟨time, _, ok⟩ := bind_eq_ok.mp ok
  have makes : ∀ added : List Selected,
      (∀ selected ∈ added, ∃ column expr, metricTimeColumn column expr = selected) →
      (Selection.ofList (Selection.keepAll input ++ added)).columns.AreNamed := by
    intro added computed
    refine Selection.named_columns fun selected member => ?_
    rcases List.mem_append.mp member with kept | new
    · exact Selection.named_keep named selected kept
    · obtain ⟨column, expr, rfl⟩ := computed selected new
      rfl
  cases offset with
  | some window =>
      obtain ⟨⟩ := ok
      refine makes _ fun selected member => ?_
      obtain ⟨column, _, rfl⟩ := List.mem_map.mp member
      exact ⟨column, column.expr, rfl⟩
  | none =>
      obtain ⟨added, computed, ⟨⟩⟩ := bind_eq_ok.mp ok
      refine makes _ fun selected member => ?_
      obtain ⟨column, _, found⟩ := exists_of_mapM_eq_ok computed selected member
      obtain ⟨expr, _, rfl⟩ := map_eq_ok.mp found
      exact ⟨column, expr, rfl⟩

/-- A column passed on is named after its content. -/
theorem passed_named {content : ColumnContent} {column : Column} (named : input.columns.AreNamed)
    (ok : passed input content = .ok column) : column = ⟨content, content.columnName⟩ := by
  obtain ⟨source, found, rfl⟩ := passed_eq_ok.mp ok
  obtain ⟨among, rfl⟩ := Columns.of_get? found
  rw [named source among]

/-- An aggregated measure is named after the measure. -/
theorem aggregated_named {measure : AggregatedMeasure} {selected : Selected}
    (named : input.columns.AreNamed) (ok : aggregated input measure = .ok selected) :
    selected.column = ⟨.measure measure.measure, measure.measure⟩ := by
  obtain ⟨column, found, rfl⟩ := aggregated_eq_ok.mp ok
  obtain ⟨among, same⟩ := Columns.of_get? found
  rw [named column among, same]
  rfl

private theorem ofStep_named {step : Step} (named : input.columns.AreNamed)
    (ok : Lower.ofStep input step = .ok dataSet) : dataSet.columns.AreNamed := by
  have all : (Selection.ofList (Selection.keepAll input)).columns.AreNamed :=
    Selection.named_columns (Selection.named_keep named)
  cases step with
  | addMetricTime dimension stored offset => exact addMetricTime_named named ok
  | constrain condition =>
      obtain ⟨⟩ := ok
      exact all
  | pass contents =>
      obtain ⟨columns, computed, ⟨⟩⟩ := bind_eq_ok.mp ok
      refine Selection.named_columns (Selection.named_keep fun column member => ?_)
      obtain ⟨content, _, found⟩ := exists_of_mapM_eq_ok computed column member
      rw [passed_named named found]
  | aggregate measures =>
      obtain ⟨computed, done, ⟨⟩⟩ := bind_eq_ok.mp ok
      refine Selection.named_columns fun selected member => ?_
      rcases List.mem_append.mp member with item | measure
      · exact Selection.named_keep named.items selected item
      · obtain ⟨measure, _, found⟩ := exists_of_mapM_eq_ok done selected measure
        rw [aggregated_named named found]
        rfl
  | compute output formula =>
      obtain ⟨expr, _, ⟨⟩⟩ := bind_eq_ok.mp ok
      refine Selection.named_columns fun selected member => ?_
      rcases List.mem_append.mp member with item | metric
      · exact Selection.named_keep named.items selected item
      · rw [List.mem_singleton.mp metric]
        rfl
  | accumulate order parts measures =>
      obtain ⟨orderExpr, _, ok⟩ := bind_eq_ok.mp ok
      obtain ⟨partExprs, _, ⟨⟩⟩ := bind_eq_ok.mp ok
      refine Selection.named_columns fun selected member => ?_
      obtain ⟨column, among, rfl⟩ := List.mem_map.mp member
      rw [column_accumulated]
      exact named column among
  | sort order limit =>
      obtain ⟨orderBy, _, ⟨⟩⟩ := bind_eq_ok.mp ok
      exact all
  | _ =>
      obtain ⟨⟩ := ok
      exact named

end

/-- Joins keep columns named after their contents. -/
theorem joinAll_named {left : Subquery} (named : left.columns.AreNamed) (joined : List Joined) :
    (joinAll left joined).columns.AreNamed := by
  refine Selection.named_columns (List.forall_mem_append.mpr ⟨Selection.named_keep named, ?_⟩)
  intro selected added
  obtain ⟨part, _, inside⟩ := List.mem_flatMap.mp added
  exact named_joinedColumns selected inside

/-- The columns of a step have the names that follow from what they hold. -/
theorem assemble_named {step : Step} {inputs : List Subquery} {dataSet : DataSet}
    (ok : assemble step inputs = .ok dataSet)
    (named : ∀ input ∈ inputs, input.columns.AreNamed) : dataSet.columns.AreNamed := by
  cases step with
  | join entities =>
      cases inputs with
      | nil => exact nomatch ok
      | cons left rights =>
          obtain ⟨_, joined, _, rfl⟩ := assemble_join_eq_ok.mp ok
          exact joinAll_named (named left List.mem_cons_self) joined
  | combine =>
      cases inputs with
      | nil => exact nomatch ok
      | cons first rest => exact combine_named named ok
  | _ =>
      match inputs with
      | [input] =>
          rw [assemble_singleton (by simp) (by simp)] at ok
          exact ofStep_named (named input List.mem_cons_self) ok
      | [] | _ :: _ :: _ => exact nomatch ok

/-! ## Contents -/

section

variable {input : Subquery} {dataSet : DataSet}

/-- What is passed on is what is asked for, in order. -/
theorem columns_of_pass {contents : List ColumnContent} (named : input.columns.AreNamed)
    (distinct : contents.Nodup) (ok : pass input contents = .ok dataSet) :
    dataSet.columns = holding contents := by
  obtain ⟨columns, computed, ⟨⟩⟩ := bind_eq_ok.mp ok
  have passedOn : columns = holding contents := by
    rw [← List.map_id columns]
    exact map_eq_of_forall₂ ((mapM_eq_ok.mp computed).imp fun _ _ => passed_named named)
  refine Selection.columns_eq_of_nodup ?_ (by rwa [map_content_holding])
  rw [Selection.columns_keep, passedOn]

/-- An aggregation has the items and then the measures. -/
theorem columns_of_aggregate {measures : List AggregatedMeasure} {items : List ColumnContent}
    (named : input.columns.AreNamed) (grouped : input.columns.items = holding items)
    (distinct : (items ++ measures.map fun measure => ColumnContent.measure measure.measure).Nodup)
    (ok : aggregate input measures = .ok dataSet) :
    dataSet.columns = holding (items ++ measures.map fun measure => .measure measure.measure) := by
  obtain ⟨computed, done, ⟨⟩⟩ := bind_eq_ok.mp ok
  refine Selection.columns_eq_of_nodup ?_ (by rwa [map_content_holding])
  have columns : computed.map Selected.column =
      holding (measures.map fun measure => .measure measure.measure) := by
    rw [holding, List.map_map]
    exact map_eq_of_forall₂ ((mapM_eq_ok.mp done).imp fun _ _ => aggregated_named named)
  rw [List.map_append, Selection.columns_keep, grouped, columns, holding_append]

/-- A computed metric stands behind the items. -/
theorem columns_of_compute {output : MetricOutput} {formula : MetricFormula}
    {items : List ColumnContent} (grouped : input.columns.items = holding items)
    (distinct : (items ++ [ColumnContent.metric output]).Nodup)
    (ok : compute input output formula = .ok dataSet) :
    dataSet.columns = holding (items ++ [.metric output]) := by
  obtain ⟨expr, _, ⟨⟩⟩ := bind_eq_ok.mp ok
  refine Selection.columns_eq_of_nodup ?_ (by rwa [map_content_holding])
  rw [List.map_append, Selection.columns_keep, grouped, holding_append]
  rfl

/-- Accumulating keeps the columns, in order. -/
theorem columns_of_accumulate {order : GroupByItem} {parts : List GroupByItem}
    {measures : List AggregatedMeasure} (distinct : (input.columns.map Column.content).Nodup)
    (ok : accumulate input order parts measures = .ok dataSet) :
    dataSet.columns = input.columns := by
  obtain ⟨orderExpr, _, ok⟩ := bind_eq_ok.mp ok
  obtain ⟨partExprs, _, ⟨⟩⟩ := bind_eq_ok.mp ok
  refine Selection.columns_eq_of_nodup ?_ distinct
  rw [List.map_map]
  exact (List.map_congr_left fun column _ => column_accumulated ..).trans (List.map_id _)

/-- Sorting keeps the columns, in order. -/
theorem columns_of_sort {order : List OrderItem} {limit : Option Nat}
    (distinct : (input.columns.map Column.content).Nodup)
    (ok : sort input order limit = .ok dataSet) : dataSet.columns = input.columns := by
  obtain ⟨orderBy, _, ⟨⟩⟩ := bind_eq_ok.mp ok
  exact Selection.columns_eq_of_nodup (Selection.columns_keep input input.columns) distinct

end

section

variable {first : Subquery} {rest : List Subquery} {dataSet : DataSet} {items : List GroupByItem}

private theorem columns_metricColumns {input : Subquery} {output : MetricOutput}
    (columns : input.columns = holding (items.map .item ++ [.metric output])) :
    (metricColumns input).map Selected.column = holding [.metric output] := by
  rw [metricColumns, Selection.columns_keep, columns, holding_append, List.filter_append,
    List.filter_eq_nil_iff (l := holding (items.map .item)).mpr ?_]
  · rfl
  · intro column member
    obtain ⟨_, among, rfl⟩ := List.mem_map.mp member
    obtain ⟨item, _, rfl⟩ := List.mem_map.mp among
    exact Bool.false_ne_true

private theorem columns_flatMap_metricColumns {outputs : List MetricOutput} {inputs : List Subquery}
    (each : List.Forall₂ (fun output input =>
      input.columns = holding (items.map .item ++ [.metric output])) outputs inputs) :
    (inputs.flatMap metricColumns).map Selected.column = holding (outputs.map .metric) := by
  induction each with
  | nil => rfl
  | cons columns _ ih =>
      rw [List.flatMap_cons, List.map_append, columns_metricColumns columns, ih]
      rfl

/-- Distinct items have distinct contents. -/
theorem nodup_items (distinct : items.Nodup) : (items.map ColumnContent.item).Nodup :=
  distinct.map fun _ _ same => ColumnContent.item.inj same

/-- Distinct items and outputs have distinct contents together. -/
theorem nodup_selected {outputs : List MetricOutput} (distinct : items.Nodup)
    (different : outputs.Nodup) :
    (items.map ColumnContent.item ++ outputs.map ColumnContent.metric).Nodup := by
  refine List.nodup_append.mpr ⟨nodup_items distinct,
    different.map fun _ _ same => ColumnContent.metric.inj same, ?_⟩
  intro content item other metric same
  obtain ⟨_, _, rfl⟩ := List.mem_map.mp item
  obtain ⟨_, _, rfl⟩ := List.mem_map.mp metric
  exact nomatch same

/-- Outputs that are brought together keep the items of the first one, in order. -/
theorem items_of_combine (distinct : items.Nodup)
    (grouped : first.columns.items = holding (items.map .item))
    (ok : combine first rest = .ok dataSet) :
    dataSet.columns.items = holding (items.map .item) := by
  obtain ⟨joins, _, ok⟩ := bind_eq_ok.mp ok
  obtain ⟨keys, computed, ⟨⟩⟩ := bind_eq_ok.mp ok
  have columns : keys.map Selected.column = holding (items.map .item) :=
    (columns_firstValues computed).trans grouped
  have apart : (keys.map (·.column.content)).Nodup := by
    change (keys.map (Column.content ∘ Selected.column)).Nodup
    rw [← List.map_map, columns, map_content_holding]
    exact nodup_items distinct
  obtain ⟨added, same, inside⟩ : ∃ added, Selection.ofList
      (keys ++ (first :: rest).flatMap metricColumns) = keys ++ added ∧
        added ⊆ (first :: rest).flatMap metricColumns := Selection.exists_ofList_append apart
  have none : Columns.items (added.map Selected.column) = [] := by
    refine List.filter_eq_nil_iff.mpr fun column member isItem => ?_
    obtain ⟨selected, among, rfl⟩ := List.mem_map.mp member
    obtain ⟨input, _, metric⟩ := List.mem_flatMap.mp (inside among)
    obtain ⟨column, _, ⟨output, content⟩, rfl⟩ := mem_metricColumns.mp metric
    rw [Selection.kept, content] at isItem
    exact nomatch isItem
  rw [Selection.dataSet, same, Selection.columns, List.map_append, items_append, none,
    List.append_nil, columns, items_holding_items]

/-- Outputs for different metrics are brought together as the items and the metrics, in order. -/
theorem columns_of_combine {outputs : List MetricOutput} (distinct : items.Nodup)
    (different : outputs.Nodup)
    (each : List.Forall₂ (fun output input =>
      input.columns = holding (items.map .item ++ [.metric output])) outputs (first :: rest))
    (ok : combine first rest = .ok dataSet) :
    dataSet.columns = holding (items.map .item ++ outputs.map .metric) := by
  obtain ⟨joins, _, ok⟩ := bind_eq_ok.mp ok
  obtain ⟨keys, computed, ⟨⟩⟩ := bind_eq_ok.mp ok
  have grouped : first.columns.items = holding (items.map .item) := by
    cases each with
    | cons columns _ =>
        rw [columns, holding_append, items_append, items_holding_items]
        exact List.append_nil _
  refine Selection.columns_eq_of_nodup ?_ ?_
  · rw [List.map_append, columns_firstValues computed, grouped,
      columns_flatMap_metricColumns each, holding_append]
  · rw [map_content_holding]
    exact nodup_selected distinct different

end

end MetricQuery.Sql

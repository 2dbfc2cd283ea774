import MetricQuery.Proofs.Keeping
import MetricQuery.Proofs.Sql.Combining

/-! # Rows of outputs brought together

If no key repeats within an output, counting nulls as equal, then bringing outputs together gives
exactly one row for each key without nulls. It has the key and the metrics of all outputs, null
where an output lacks the key. For each row of an output with a null in its key there is one more
row, with the metrics of this output alone (`Lower.merges_of_ofOutputs`).
-/

namespace MetricQuery.Sql

open Selection

variable {α : Type}

/-! ## Rows -/

/-- The value of an item in a key. -/
def valueInKey (items : Columns) (key : List (Option α)) (content : ColumnContent) : Option α :=
  (((items.map Column.content).zip key).lookup content).join

/-- The value of a metric in rows that are chosen from subqueries: the first one that has the metric
gives it. -/
def metricValue (inputs : List Subquery) (pick : Subquery → Option (Row α))
    (content : ColumnContent) : Option α :=
  (inputs.find? (·.columns.contains content)).bind fun input =>
    (pick input).bind (input.valueOf · content)

/-- A row with a key, and with the metrics of the rows that are chosen from subqueries. -/
def mergedRow (columns items : Columns) (inputs : List Subquery) (key : List (Option α))
    (pick : Subquery → Option (Row α)) : Row α :=
  columns.map fun column => (column.name,
    if column.content.item?.isSome then valueInKey items key column.content
    else metricValue inputs pick column.content)

/-- A row for each key without nulls of some subqueries, with the metrics of all of them, and a row
for each row with a null in its key, with the metrics of that row. -/
def mergedRows [DecidableEq α] (database : Database α) (columns items : Columns)
    (inputs : List Subquery) : List (Row α) :=
  (fullKeys database items inputs).map (fun key =>
      mergedRow columns items inputs key (·.rowAt database items key)) ++
    inputs.flatMap fun input => (input.nullRows database items).map fun row =>
      mergedRow columns items inputs (input.keyOf items row) (input.only row)

private theorem valueInKey_sharedKey {items : Columns} {inputs : List Subquery}
    {pick : Subquery → Option (Row α)} {item : Column} (member : item ∈ items) :
    valueInKey items (sharedKey items inputs pick) item.content =
      firstOf inputs pick item.content := by
  have alike : sharedKey items inputs pick =
      (items.map Column.content).map (firstOf inputs pick) := by
    rw [sharedKey, List.map_map]
    rfl
  rw [valueInKey, alike, ← List.map_prod_left_eq_zip,
    List.lookup_graph _ (List.mem_map_of_mem member)]
  rfl

private theorem find?_metricColumns (input : Subquery) (output : MetricOutput) :
    (metricColumns input).find? (·.column.content == .metric output) =
      (input.columns.get? (.metric output)).map (kept input) := by
  rw [metricColumns, keep, List.find?_map, List.find?_filter, Columns.get?]
  congr 2
  funext column
  cases same : column.content == .metric output with
  | true => simp [kept, beq_iff_eq.mp same]
  | false => simp [kept, same]

/-- What is found in the first member that has something is what is found first. -/
theorem findSome?_eq_bind {β γ : Type} {members : List β} {compute : β → Option γ}
    {has : β → Bool} (alike : ∀ member, has member = (compute member).isSome) :
    members.findSome? compute = (members.find? has).bind compute := by
  induction members with
  | nil => rfl
  | cons first rest ih =>
      rw [List.findSome?_cons, List.find?_cons, alike]
      cases found : compute first with
      | none => exact ih
      | some value => exact found.symm

/-- A column that is selected is the first one that holds the same. -/
theorem find?_of_mem_ofList {columns : List Selected} {selected : Selected}
    (member : selected ∈ ofList columns) :
    columns.find? (·.column.content == selected.column.content) = some selected := by
  rw [← find?_ofList_of_alike fun _ _ _ _ same => by rw [same]]
  exact find?_eq_some_of_mem (nodup_ofList columns) member

section

variable [DecidableEq α] {database : Database α} {first : Subquery} {rest : List Subquery}
  {keys : List Selected} {rows : List (JoinedRow α)} {pick : Subquery → Option (Row α)}
  (distinct : ((first :: rest).map Subquery.name).Nodup)
  (computed : first.columns.items.mapM (fun item =>
    (firstValue (first :: rest) item).map (Selected.mk item)) = .ok keys)

include distinct computed

/-- Each column has the value of the key that the rows share, or of the first metric like it. -/
theorem value_of_mem_combined {selected : Selected}
    (member : selected ∈ ofList (keys ++ (first :: rest).flatMap metricColumns)) :
    selected.expr.value database rows (sideBySide (first :: rest) pick) =
      if selected.column.content.item?.isSome then
        valueInKey first.columns.items (sharedKey first.columns.items (first :: rest) pick)
          selected.column.content
      else metricValue (first :: rest) pick selected.column.content := by
  have isFirst := find?_of_mem_ofList member
  rcases List.mem_append.mp (mem_of_mem_ofList member) with key | metric
  · obtain ⟨item, isItem, made⟩ := exists_of_mapM_eq_ok computed selected key
    obtain ⟨expr, found, rfl⟩ := map_eq_ok.mp made
    rw [if_pos (Columns.mem_items.mp isItem).2, valueInKey_sharedKey isItem,
      ← value_firstValue distinct found, List.append_nil]
  · obtain ⟨input, _, isMetric⟩ := List.mem_flatMap.mp metric
    obtain ⟨column, _, ⟨output, content⟩, rfl⟩ := mem_metricColumns.mp isMetric
    have keyless : keys.find? (·.column.content == .metric output) = none := by
      refine List.find?_eq_none.mpr fun key inside same => ?_
      have isItem : key.column ∈ first.columns.items :=
        columns_firstValues computed ▸ List.mem_map_of_mem inside
      have held := (Columns.mem_items.mp isItem).2
      rw [beq_iff_eq.mp same] at held
      exact nomatch held
    have alike : ∀ input : Subquery, input.columns.contains (.metric output) =
        ((input.columns.get? (.metric output)).map (kept input)).isSome := by
      intro input
      rw [Option.isSome_map, Columns.get?, List.isSome_find?]
      rfl
    rw [kept, content, List.find?_append, keyless, Option.none_or, List.find?_flatMap] at isFirst
    simp only [find?_metricColumns] at isFirst
    rw [findSome?_eq_bind alike] at isFirst
    obtain ⟨source, isSource, isFirst⟩ := Option.bind_eq_some_iff.mp isFirst
    obtain ⟨held, isHeld, same⟩ := Option.map_eq_some_iff.mp isFirst
    have ok : source.columnFor (.metric output) = .ok (source.column held.name) := by
      rw [Subquery.columnFor, isHeld]
    have expr : source.column held.name = input.column column.name := (Selected.mk.inj same).2
    have noItem : ¬(ColumnContent.metric output).item?.isSome = true := Bool.false_ne_true
    rw [kept, content, if_neg noItem, metricValue, isSource, Option.bind_some,
      ← value_columnFor distinct (List.mem_of_find?_eq_some isSource) ok, List.append_nil, expr]

omit distinct in
private theorem aggregates_of_mem_combined :
    ∀ selected ∈ keys ++ (first :: rest).flatMap metricColumns,
      selected.expr.aggregates = false := by
  refine List.forall_mem_append.mpr ⟨fun selected key => ?_, aggregates_metricColumns _⟩
  obtain ⟨item, _, made⟩ := exists_of_mapM_eq_ok computed selected key
  obtain ⟨expr, found, rfl⟩ := map_eq_ok.mp made
  exact aggregates_of_firstValue found

variable (database) in
/-- What is selected of rows side by side is the key that they share, and their metrics. -/
theorem output_sideBySide (rows : List (JoinedRow α)) {key : List (Option α)}
    (shared : sharedKey first.columns.items (first :: rest) pick = key) :
    (ofList (keys ++ (first :: rest).flatMap metricColumns)).output database rows
        (sideBySide (first :: rest) pick) =
      mergedRow (ofList (keys ++ (first :: rest).flatMap metricColumns)).columns
        first.columns.items (first :: rest) key pick := by
  subst shared
  rw [Selection.output, mergedRow, Selection.columns, List.map_map]
  refine List.map_congr_left fun selected member => ?_
  rw [value_of_mem_combined distinct computed member]
  rfl

end

section

variable [DecidableEq α] {database : Database α} {first : Subquery} {rest : List Subquery}
  {dataSet : DataSet}

/-- Outputs with distinct names and keys that are brought together are merged. -/
theorem rows_combine_perm (distinct : ((first :: rest).map Subquery.name).Nodup)
    (grouped : first.columns.items ≠ [])
    (unique : ∀ input ∈ first :: rest,
      ((input.source.rows database).map (input.keyOf first.columns.items)).Nodup)
    (ok : combine first rest = .ok dataSet) :
    (dataSet.source.rows database).Perm
      (mergedRows database dataSet.columns first.columns.items (first :: rest)) := by
  obtain ⟨joins, areJoins, ok⟩ := bind_eq_ok.mp ok
  obtain ⟨keys, computed, ⟨⟩⟩ := bind_eq_ok.mp ok
  rw [rows_of_ofList (aggregates_of_mem_combined computed)]
  refine ((joined_combineJoins_perm distinct grouped areJoins unique).map _).trans (.of_eq ?_)
  rw [mergedAmong, mergedRows, List.map_append, List.map_map, List.map_flatMap]
  congr 1
  · exact List.map_congr_left fun key known =>
      output_sideBySide database distinct computed _ (sharedKey_rowAt known)
  · refine List.flatMap_congr fun input among => ?_
    rw [List.map_map]
    exact List.map_congr_left fun row _ =>
      output_sideBySide database distinct computed _ (sharedKey_only distinct among row)

end

namespace Lower

variable {context : Context} {before after : Progress}

/-- Subqueries are counted on the way. -/
theorem nextSubquery_le_of_ofPlan {plan : Dataflow} {dataSet : DataSet}
    (ok : ofPlan context plan before = .ok (dataSet, after)) :
    before.nextSubquery ≤ after.nextSubquery := by
  let counts : Dataflow → Progress → DataSet → Progress → Prop := fun _ before _ after =>
    before.nextSubquery ≤ after.nextSubquery
  refine @ofPlan_induction context counts counts ?_ ?_ ?_ ?_ ?_ ?_ plan before dataSet after ok
  · exact fun _ _ _ before _ => Nat.le_succ before.nextSubquery
  · exact fun _ _ _ _ counted => counted
  · exact fun _ _ _ _ _ _ _ _ run _ => (run.names fun _ _ _ _ counted => counted).1
  · exact fun _ before _ _ _ => Nat.le_refl before.nextSubquery
  · exact fun _ _ _ _ _ _ _ _ counted => counted
  · exact fun _ _ _ _ _ counted => counted

private theorem nodup_names_of_ofOutputs {plans : List Dataflow} {subqueries : List Subquery}
    (ok : ofOutputs context plans before = .ok (subqueries, after)) :
    (subqueries.map Subquery.name).Nodup :=
  (InTurn.names (fun _ _ _ _ => nextSubquery_le_of_ofPlan)
    (inTurn_of_ofOutputs (fun _ _ _ _ _ ok => ok) ok)).2.1

/-- Outputs with the items of the first one, where no key repeats within an output, can be brought
together. The columns are these items and all metrics. There is one row for each key without nulls
in any of the outputs, with the metrics of all of them, and one row for each row with a null in its
key, with the metrics of that row alone. -/
theorem merges_of_ofOutputs [DecidableEq α] (database : Database α) {plans : List Dataflow}
    {first : Subquery} {rest : List Subquery}
    (converted : ofOutputs context plans before = .ok (first :: rest, after))
    (grouped : first.columns.items ≠ [])
    (shared : ∀ input ∈ rest, ∀ item ∈ first.columns.items,
      input.columns.contains item.content = true)
    (unique : ∀ input ∈ first :: rest,
      ((input.source.rows database).map (input.keyOf first.columns.items)).Nodup) :
    ∃ dataSet, ofInputs context .combine plans before = .ok (dataSet, after) ∧
      (∀ content, dataSet.columns.contains content = true ↔
        (first.columns.contains content = true ∧ content.item?.isSome = true) ∨
          ∃ input ∈ first :: rest, input.columns.contains content = true ∧
            ∃ output, content = .metric output) ∧
      (dataSet.source.rows database).Perm
        (mergedRows database dataSet.columns first.columns.items (first :: rest)) := by
  have held : ∀ input ∈ first :: rest, ∀ item ∈ first.columns.items,
      input.columns.contains item.content = true :=
    List.forall_mem_cons.mpr ⟨fun item member => Columns.contains_iff.mpr
      ⟨item, (Columns.mem_items.mp member).1, rfl⟩, shared⟩
  obtain ⟨dataSet, ok⟩ := exists_combine held
  refine ⟨dataSet, (ofInputs_eq_ok (by simp) (by simp)).mpr ⟨_, converted, ok⟩,
    fun _ => contains_combine ok, ?_⟩
  exact rows_combine_perm (nodup_names_of_ofOutputs converted) grouped unique ok

/-- A metric of customers over a measure of a model. -/
def byCustomer (model measure metric : String) : Dataflow :=
  (((Dataflow.leaf (.read model)).andThen
    (.pass [.item (.entity "customer" []), .measure measure])).andThen
      (.aggregate [⟨measure, .sum⟩])).andThen (.compute ⟨metric, none⟩ (.measure measure))

/-- The revenue from customers, and their visits. -/
def revenueAndTraffic : List Dataflow :=
  [byCustomer "orders" "amount" "revenue", byCustomer "visits" "visits" "traffic"]

/-- Orders and visits, each of a known customer and of unknown ones. -/
def customerTables : String → List (Row Nat)
  | "shop.orders" =>
    [[("customer", some 7), ("amount", some 10)], [("customer", none), ("amount", some 5)]]
  | "shop.visits" =>
    [[("customer", some 7), ("visits", some 3)], [("customer", none), ("visits", some 4)]]
  | _ => []

/-- Where plans are converted for a shop. -/
def shopContext : Context := ⟨Request.shopCatalog, Settings.standard.sql, .leaf .result, []⟩

/-- The revenue from customers and their visits are merged. -/
theorem merges_of_ofOutputs_customers : ∃ first rest after,
    ofOutputs shopContext revenueAndTraffic ⟨[], [], 0, 0⟩ = .ok (first :: rest, after) ∧
    ∃ dataSet, ofInputs shopContext .combine revenueAndTraffic ⟨[], [], 0, 0⟩ =
        .ok (dataSet, after) ∧
      (dataSet.source.rows (.ofTables customerTables)).Perm
        (mergedRows (.ofTables customerTables) dataSet.columns first.columns.items
          (first :: rest)) := by
  have checked : (ofOutputs shopContext revenueAndTraffic ⟨[], [], 0, 0⟩).toOption.any (fun
      | ([], _) => false
      | (first :: rest, _) => decide (first.columns.items ≠ [] ∧
        (∀ input ∈ rest, ∀ item ∈ first.columns.items,
          input.columns.contains item.content = true) ∧
        ∀ input ∈ first :: rest, ((input.source.rows (.ofTables customerTables)).map
          (input.keyOf first.columns.items)).Nodup)) = true := by decide +kernel
  obtain ⟨⟨inputs, after⟩, converted, checked⟩ := (Option.any_eq_true ..).mp checked
  cases inputs with
  | nil => exact nomatch checked
  | cons first rest =>
      obtain ⟨grouped, shared, unique⟩ := of_decide_eq_true checked
      have converted := toOption_eq_some.mp converted
      obtain ⟨dataSet, ok, _, perm⟩ :=
        merges_of_ofOutputs (.ofTables customerTables) converted grouped shared unique
      exact ⟨first, rest, after, converted, dataSet, ok, perm⟩

/-- The keys in each of some outputs, and the rows of the outputs brought together. -/
def keysAndRows (plans : List Dataflow) :
    Option (List (List (List (Option Nat))) × List (Row Nat)) := do
  let (inputs, _) ← (ofOutputs shopContext plans ⟨[], [], 0, 0⟩).toOption
  let first ← inputs.head?
  let (dataSet, _) ← (ofInputs shopContext .combine plans ⟨[], [], 0, 0⟩).toOption
  let keys (input : Subquery) := (input.source.rows (.ofTables customerTables)).map
    (input.keyOf first.columns.items)
  return (inputs.map keys, dataSet.source.rows (.ofTables customerTables))

/-- A key with a null gives a row for each output that has it, and of outputs with the same metric
only the first one gives it. -/
theorem keysAndRows_customers :
    keysAndRows revenueAndTraffic =
      some ([[[some 7], [none]], [[some 7], [none]]],
        [[("customer", some 7), ("revenue", some 10), ("traffic", some 3)],
          [("customer", none), ("revenue", some 5), ("traffic", none)],
          [("customer", none), ("revenue", none), ("traffic", some 4)]]) ∧
    keysAndRows [byCustomer "orders" "amount" "revenue", byCustomer "visits" "visits" "revenue"] =
      some ([[[some 7], [none]], [[some 7], [none]]],
        [[("customer", some 7), ("revenue", some 10)],
          [("customer", none), ("revenue", some 5)],
          [("customer", none), ("revenue", none)]]) := by
  constructor
  · decide +kernel
  · decide +kernel

end Lower

end MetricQuery.Sql

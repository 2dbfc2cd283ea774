import MetricQuery.Proofs.Dataflow.Grouping
import MetricQuery.Proofs.Dataflow.Keys

/-! # Rows that joins keep

If the entities that identify the rows of models are keys of their tables, and nothing else has
their names, then no join in the plan of a query loses or repeats a row: it gives exactly one row
for each row of its first input, and this one reads a model (`Dataflow.keepsRows_of_ofQuery`). Where
models, entities or measures share a name, a join can repeat rows
(`Dataflow.repeatsOrder_of_sharedNames`).
-/

namespace MetricQuery

open Sql

variable {α : Type} [DecidableEq α]

/-! ## Databases of tables -/

namespace Sql.Database

/-- A database of tables of numbers, where SQL that stays as it is names a column. -/
def ofTables (tables : String → List (Row Nat)) : Database Nat where
  stored := tables
  raw sql row := row.value none sql
  literal _ := none
  cast _ value := value
  operate _ _ _ := none
  aggregate _ values := some (values.reduceOption.foldl (· + ·) 0)
  truncate _ time := time
  extract _ time := time
  shift _ time := time
  accumulate _ values := some (values.reduceOption.foldl (· + ·) 0)
  compare := Ord.compare
  truth := Bool.toNat
  isTrue value := value == 1
  isTrue_truth value := by cases value <;> rfl

instance {rows : List (Row α)} {column : String} : Decidable (IsKey rows column) :=
  inferInstanceAs (Decidable (List.Nodup _))

/-- Stored tables have their keys when each identifying column is a key of its model's table. -/
theorem hasKeys_ofTables_iff {tables : String → List (Row Nat)} {manifest : Manifest} :
    (ofTables tables).HasKeys manifest ↔ ∀ model ∈ manifest.models,
      ∀ entity ∈ model.identifyingEntities, IsKey (tables model.table) entity.sql := by
  have value : ∀ (row : Row Nat) (sql name : String),
      (ofTables tables).raw sql [(some name, row)] = row.value sql := by
    intro row sql name
    change (List.findSome? _ _).join = _
    rw [List.findSome?_singleton]
    rfl
  unfold HasKeys IsKey
  simp only [value]
  exact forall₄_congr fun _ _ _ _ => ⟨fun unique => unique "", fun unique _ => unique⟩

end Sql.Database

namespace Dataflow

variable {database : Database α} {catalog : Catalog} {plan : Dataflow}

/-- An order, customers and their visits. -/
def orderTables : String → List (Row Nat)
  | "shop.orders" => [[("customer", some 7), ("amount", some 10)]]
  | "shop.customers" =>
    [[("customer", some 7), ("parent", some 7), ("region", some 1)],
      [("customer", some 8), ("parent", some 7), ("region", some 2)]]
  | "shop.visits" =>
    [[("customer", some 7), ("region", some 1)], [("customer", some 7), ("region", some 2)]]
  | _ => []

/-- Orders, and what else is known about customers. -/
def ordersWith (models : List SemanticModel) : Catalog :=
  ⟨⟨ordersModel :: models, [revenueMetric]⟩, 2⟩

/-- How many rows the first input of a join has, and how many the join has, where the join is in the
plan of a query. -/
def joinedRows (database : Database α) (catalog : Catalog) (query : ResolvedQuery)
    (way : List Nat) : Option (Nat × Nat) := do
  let plan ← (ofQuery catalog query).toOption
  let context := Context.mk catalog Settings.standard.sql plan []
  match plan.partAt? way with
  | some (.node (.join entities) (first :: rest)) =>
    let (source, _) ← (Lower.ofPlan context first ⟨[], [], 0, 0⟩).toOption
    let join := node (.join entities) (first :: rest)
    let (dataSet, _) ← (Lower.ofPlan context join ⟨[], [], 0, 0⟩).toOption
    return ((source.source.rows database).length, (dataSet.source.rows database).length)
  | _ => none

private theorem exists_of_joinedRows {query : ResolvedQuery} {way : List Nat} {counts : Nat × Nat}
    (counted : joinedRows database catalog query way = some counts) :
    ∃ plan entities inputs dataSet after, ofQuery catalog query = .ok plan ∧
      plan.partAt? way = some (.node (.join entities) inputs) ∧
      Lower.ofPlan ⟨catalog, Settings.standard.sql, plan, []⟩ (.node (.join entities) inputs)
        ⟨[], [], 0, 0⟩ = .ok (dataSet, after) := by
  obtain ⟨plan, planned, counted⟩ := Option.bind_eq_some_iff.mp counted
  split at counted
  · rename_i entities first rest found
    obtain ⟨source, _, counted⟩ := Option.bind_eq_some_iff.mp counted
    obtain ⟨⟨dataSet, after⟩, converted, _⟩ := Option.bind_eq_some_iff.mp counted
    exact ⟨plan, entities, _, dataSet, after, toOption_eq_some.mp planned, found,
      toOption_eq_some.mp converted⟩
  · exact nomatch counted

/-! ## Joins that keep rows -/

/-- Wherever the plan of a query joins, it joins to a model that is read, and whatever the join
becomes has exactly one row for each row of the model, with all columns that have been read as they
are. This holds of plain data sets and, whatever names are generated, of conversions. -/
theorem keepsRows_of_ofQuery (distinct : catalog.manifest.DistinguishesKeys)
    (keys : database.HasKeys catalog.manifest) {query : ResolvedQuery}
    (planned : ofQuery catalog query = .ok plan) {way : List Nat} {entities : List String}
    {inputs : List Dataflow} (found : plan.partAt? way = some (.node (.join entities) inputs)) :
    ∃ model ∈ catalog.manifest.models, ∃ first rest, inputs = first :: rest ∧ Reads model first ∧
      (∀ dataSet, DataSet.ofPlan catalog (.node (.join entities) inputs) = .ok dataSet →
        ∃ source, DataSet.ofPlan catalog first = .ok source ∧
          dataSet.KeepsRows database model source) ∧
      ∀ settings whole before dataSet after,
        Lower.ofPlan ⟨catalog, settings, whole, []⟩ (.node (.join entities) inputs) before =
          .ok (dataSet, after) →
        ∃ source middle, Lower.ofPlan ⟨catalog, settings, whole, []⟩ first before =
            .ok (source, middle) ∧
          dataSet.KeepsRows database model source := by
  obtain ⟨model, known, first, rest, rfl, reads, keyed⟩ :=
    joinsOnKeys_of_ofQuery distinct keys planned way _ _ found entities rfl
  have keeps : ∀ source dataSet, Converts catalog first source →
      IsJoinOf catalog entities rest source dataSet →
      dataSet.KeepsRows database model source := fun source dataSet converts isJoin =>
    ⟨length_rows_of_reads distinct known reads converts,
      completes_of_isJoinOf keyed converts isJoin⟩
  refine ⟨model, known, first, rest, rfl, reads, fun dataSet ok => ?_,
    fun settings whole before dataSet after ok => ?_⟩
  · obtain ⟨source, converted, isJoin⟩ := DataSet.exists_isJoinOf ok
    exact ⟨source, converted, keeps _ _ (DataSet.converts_of_ofPlan converted) isJoin⟩
  · obtain ⟨source, middle, converted, isJoin⟩ := Lower.exists_isJoinOf rfl ok
    exact ⟨source, middle, converted, keeps _ _ (Lower.converts_of_ofPlan rfl converted) isJoin⟩

/-- A query for the revenue by the region of the customer and by all revenue from the customer. -/
def customersQuery : ResolvedQuery :=
  groupedQuery "revenue"
    [.dimension "region" ["customer"], .metric "revenue" ["customer"] ["customer"]]

/-- The order is joined once with its customer and with all revenue from the customer. -/
theorem keepsRows_of_ofQuery_customers : ∃ plan entities inputs dataSet after,
    ofQuery (ordersWith [customersModel]) customersQuery = .ok plan ∧
    plan.partAt? [0, 0, 0, 0] = some (.node (.join entities) inputs) ∧
    Lower.ofPlan ⟨ordersWith [customersModel], Settings.standard.sql, plan, []⟩
      (.node (.join entities) inputs) ⟨[], [], 0, 0⟩ = .ok (dataSet, after) ∧
    ∃ model ∈ (ordersWith [customersModel]).manifest.models, ∃ source,
      dataSet.KeepsRows (.ofTables orderTables) model source := by
  have counted : joinedRows (.ofTables orderTables) (ordersWith [customersModel]) customersQuery
      [0, 0, 0, 0] = some (1, 1) := by decide +kernel
  obtain ⟨plan, entities, inputs, dataSet, after, planned, found, ok⟩ :=
    exists_of_joinedRows counted
  have keys : (Database.ofTables orderTables).HasKeys (ordersWith [customersModel]).manifest :=
    Database.hasKeys_ofTables_iff.mpr (by decide)
  obtain ⟨model, known, first, rest, rfl, _, _, keeps⟩ :=
    keepsRows_of_ofQuery ⟨by decide, by decide, by decide⟩ keys planned found
  obtain ⟨source, _, _, keepsRows⟩ := keeps _ _ _ _ _ ok
  exact ⟨plan, entities, _, dataSet, after, planned, found, ok, model, known, source, keepsRows⟩

/-! ## Shared names -/

/-- Customers that also belong to customers, of the same entity. -/
def subsidiariesModel : SemanticModel :=
  ⟨"customers", "shop.customers", none,
    [⟨"customer", .foreign, some "parent"⟩, ⟨"customer", .primary, none⟩],
    [⟨"region", .categorical, none, none⟩], [], none⟩

/-- Visits of customers, under the name of the customers. -/
def visitedModel : SemanticModel :=
  ⟨"customers", "shop.visits", none, [⟨"customer", .foreign, none⟩],
    [⟨"region", .categorical, none, none⟩], [], none⟩

/-- Customers with a measure of the same name. -/
def measuredModel : SemanticModel :=
  ⟨"customers", "shop.customers", none, [⟨"customer", .primary, none⟩],
    [⟨"region", .categorical, none, none⟩], [⟨"customer", .max, some "parent", none⟩], none⟩

/-- Whether the single order is joined twice for its region, although the tables have keys. -/
def RepeatsOrder (catalog : Catalog) : Prop :=
  (Database.ofTables orderTables).HasKeys catalog.manifest ∧
    joinedRows (.ofTables orderTables) catalog
      (groupedQuery "revenue" [.dimension "region" ["customer"]]) [0, 0, 0, 0] = some (1, 2)

/-- Where two entities, two models, or an entity and a measure share a name, a join on the keys of
tables can repeat rows. -/
theorem repeatsOrder_of_sharedNames :
    RepeatsOrder (ordersWith [subsidiariesModel]) ∧
    RepeatsOrder (ordersWith [customersModel, visitedModel]) ∧
    RepeatsOrder (ordersWith [measuredModel]) := by
  refine ⟨⟨?_, ?_⟩, ⟨?_, ?_⟩, ⟨?_, ?_⟩⟩
  · exact Database.hasKeys_ofTables_iff.mpr (by decide)
  · decide +kernel
  · exact Database.hasKeys_ofTables_iff.mpr (by decide)
  · decide +kernel
  · exact Database.hasKeys_ofTables_iff.mpr (by decide)
  · decide +kernel

end Dataflow

end MetricQuery

import MetricQuery.Proofs.Sql.Keys

/-! # Keys of steps

What steps make of keys. Reading a model gives its identifying entities as keys (`isKey_readModel`),
aggregating by an entity alone makes it one (`isKey_aggregate`), and further steps keep such a key
(`isKey_pass`, `isKey_accumulate`, `isKey_compute`, `isKey_combine`). A join of inputs with keys
gives exactly one row for each row of the first input (`completes_joinAll`).
-/

namespace MetricQuery.Sql

open Columns Selection

variable {α : Type} [DecidableEq α] {database : Database α}

/-- A column kept is no aggregate. -/
theorem aggregates_kept (input : Subquery) (column : Column) :
    (kept input column).expr.aggregates = false := rfl

/-- A column that is kept first has the same values as before. -/
theorem map_value_of_kept (input : Subquery) (column : Column) {rest : List Selected}
    (scalar : ∀ selected ∈ rest, selected.expr.aggregates = false) :
    (((ofList (kept input column :: rest)).dataSet input.tableRef id).source.rows database).map
        (Row.value · column.name) =
      (input.source.rows database).map (Row.value · column.name) := by
  rw [rows_of_ofList_single (List.forall_mem_cons.mpr ⟨aggregates_kept input column, scalar⟩),
    List.map_map]
  refine List.map_congr_left fun row _ => ?_
  exact (value_output_head (kept input column) rest).trans JoinedRow.value_singleton

/-! ## Models -/

/-- The grains and parts of a time that is no aggregate are none either. -/
theorem aggregates_timeColumns {stored : Grain} {time : Expr} (scalar : time.aggregates = false) :
    ∀ column ∈ timeColumns stored time, column.expr.aggregates = false := by
  intro column member
  rcases List.mem_append.mp member with truncated | extracted
  · obtain ⟨grain, _, rfl⟩ := List.mem_map.mp truncated
    exact scalar
  · obtain ⟨part, _, rfl⟩ := List.mem_map.mp extracted
    exact scalar

/-- A model's columns are no aggregates. -/
theorem aggregates_modelColumns (model : SemanticModel) :
    ∀ selected ∈ modelColumns model, selected.expr.aggregates = false := by
  intro selected member
  simp only [modelColumns, List.mem_append, List.mem_flatMap, List.mem_map] at member
  rcases member with (⟨measure, _, rfl⟩ | ⟨entity, _, rfl⟩) | ⟨links, _, dimension, _, column⟩
  · rfl
  · rfl
  · unfold dimensionColumns at column
    split at column
    · obtain ⟨time, among, rfl⟩ := List.mem_map.mp column
      exact aggregates_timeColumns rfl time among
    · rw [List.mem_singleton.mp column]
      rfl

/-- Each row of the table of a model is read once. -/
theorem length_rows_readModel (model : SemanticModel) (name : String) :
    ((readModel model name).source.rows database).length =
      (database.stored model.table).length := by
  rw [readModel, rows_of_ofList_single (aggregates_modelColumns model), List.length_map,
    Relation.rows_table]

/-- The column of a name is the first entity of this name, if no measure has it. -/
theorem find?_modelColumns {model : SemanticModel} {name : String} {entity : Entity}
    (found : model.entity? name = some entity)
    (apart : ∀ measure ∈ model.measures, measure.name ≠ name) :
    (modelColumns model).find? (·.column.name == name) =
      some (computed (.ownEntity entity.name) (.raw entity.sql)) := by
  have noMeasure : (model.measures.map fun measure =>
      computed (.measure measure.name) (.raw measure.sql)).find?
        (·.column.name == name) = none := by
    refine List.find?_eq_none.mpr fun selected member same => ?_
    obtain ⟨measure, defined, rfl⟩ := List.mem_map.mp member
    exact apart measure defined (beq_iff_eq.mp same)
  have isEntity : (model.entities.map fun entity =>
      computed (.ownEntity entity.name) (.raw entity.sql)).find?
        (·.column.name == name) =
      some (computed (.ownEntity entity.name) (.raw entity.sql)) := by
    rw [List.find?_map]
    exact congrArg (Option.map _) found
  rw [modelColumns, List.find?_append, List.find?_append, noMeasure, isEntity]
  rfl

/-- An entity is a key of a model if it is one of the stored table, and no measure has its name. -/
theorem isKey_readModel {model : SemanticModel} {name : String} {entity : Entity}
    (found : model.entity? name = some entity)
    (apart : ∀ measure ∈ model.measures, measure.name ≠ name) {table : String}
    (unique : ((database.stored model.table).map fun row =>
      database.raw entity.sql [(some table, row)]).reduceOption.Nodup) :
    IsKey ((readModel model table).source.rows database) name := by
  have values : ((readModel model table).source.rows database).map (Row.value · name) =
      (database.stored model.table).map fun row =>
        database.raw entity.sql [(some table, row)] := by
    have stored : (Relation.table model.table).rows database = database.stored model.table :=
      Relation.rows_table ..
    rw [readModel, rows_of_ofList_single (aggregates_modelColumns model), stored, List.map_map]
    refine List.map_congr_left fun row _ => ?_
    rw [Function.comp_apply, value_output, find?_ofList (named_modelColumns model),
      find?_modelColumns found apart]
    rfl
  rw [IsKey, values]
  exact unique

/-! ## Steps with one input -/

section

variable {input : Subquery} {dataSet : DataSet} {entity : String}

/-- What a content is read by is no aggregate. -/
theorem aggregates_of_columnFor {content : ColumnContent} {expr : Expr}
    (ok : input.columnFor content = .ok expr) : expr.aggregates = false := by
  obtain ⟨column, _, rfl⟩ := Subquery.columnFor_eq_ok.mp ok
  rfl

/-- The time of metrics is added to each row. -/
theorem length_rows_addMetricTime {dimension : String} {stored : Grain}
    {offset : Option OffsetWindow}
    (ok : addMetricTime input dimension stored offset = .ok dataSet) :
    (dataSet.source.rows database).length = (input.source.rows database).length := by
  have adds : ∀ added : List Selected, (∀ selected ∈ added, selected.expr.aggregates = false) →
      (((ofList (keepAll input ++ added)).dataSet input.tableRef id).source.rows database).length =
        (input.source.rows database).length := by
    intro added scalar
    rw [rows_of_ofList_single (List.forall_mem_append.mpr ⟨fun selected member => ?_, scalar⟩),
      List.length_map]
    · rfl
    · obtain ⟨column, _, rfl⟩ := List.mem_map.mp member
      exact aggregates_kept input column
  obtain ⟨time, found, ok⟩ := bind_eq_ok.mp ok
  cases offset with
  | some window =>
      obtain ⟨⟩ := ok
      have scalar : time.aggregates = false := aggregates_of_columnFor found
      have shifted : (Expr.shift time window).aggregates = false := scalar
      refine adds _ fun selected member => ?_
      obtain ⟨column, among, rfl⟩ := List.mem_map.mp member
      exact aggregates_timeColumns shifted column among
  | none =>
      obtain ⟨added, computed, ⟨⟩⟩ := bind_eq_ok.mp ok
      refine adds _ fun selected member => ?_
      obtain ⟨column, _, made⟩ := exists_of_mapM_eq_ok computed selected member
      obtain ⟨expr, held, rfl⟩ := map_eq_ok.mp made
      exact aggregates_of_columnFor held

/-- Passing a key on keeps it. -/
theorem isKey_pass {rest : List ColumnContent} (named : input.columns.AreNamed)
    (key : IsKey (input.source.rows database) entity)
    (ok : pass input (.ownEntity entity :: rest) = .ok dataSet) :
    IsKey (dataSet.source.rows database) entity := by
  obtain ⟨columns, computed, ⟨⟩⟩ := bind_eq_ok.mp ok
  obtain ⟨first, others, isFirst, _, rfl⟩ :=
    List.forall₂_cons_left_iff.mp (mapM_eq_ok.mp computed)
  obtain rfl := passed_named named isFirst
  refine key.of_map_value
    (map_value_of_kept input ⟨.ownEntity entity, entity⟩ fun selected member => ?_)
  obtain ⟨column, _, rfl⟩ := List.mem_map.mp member
  exact aggregates_kept input column

private theorem aggregates_of_metricExpr {formula : MetricFormula} {expr : Expr}
    (ok : metricExpr input formula = .ok expr) : expr.aggregates = false := by
  cases formula with
  | measure name => exact aggregates_of_columnFor ok
  | ratio numerator denominator =>
      obtain ⟨dividend, first, ok⟩ := bind_eq_ok.mp ok
      obtain ⟨divisor, second, ⟨⟩⟩ := bind_eq_ok.mp ok
      simp only [Expr.asDouble, Expr.aggregates, Expr.anyAggregates,
        aggregates_of_columnFor first, aggregates_of_columnFor second, Bool.or_self]
  | derived sql =>
      obtain ⟨⟩ := ok
      rfl

/-- Computing a metric keeps the key its input is grouped by. -/
theorem isKey_compute {output : MetricOutput} {formula : MetricFormula}
    (grouped : input.columns.items = holding [.ownEntity entity])
    (key : IsKey (input.source.rows database) entity)
    (ok : compute input output formula = .ok dataSet) :
    IsKey (dataSet.source.rows database) entity := by
  obtain ⟨expr, computed, ⟨⟩⟩ := bind_eq_ok.mp ok
  rw [grouped]
  refine key.of_map_value
    (map_value_of_kept input ⟨.ownEntity entity, entity⟩ fun selected member => ?_)
  rw [List.mem_singleton.mp member]
  exact aggregates_of_metricExpr computed

/-- Accumulating keeps the key, which is a column of the input. -/
theorem isKey_accumulate {order : GroupByItem} {parts : List GroupByItem}
    {measures : List AggregatedMeasure} {values : List ColumnContent}
    (columns : input.columns = holding (.ownEntity entity :: values))
    (key : IsKey (input.source.rows database) entity)
    (ok : accumulate input order parts measures = .ok dataSet) :
    IsKey (dataSet.source.rows database) entity := by
  obtain ⟨orderExpr, ordered, ok⟩ := bind_eq_ok.mp ok
  obtain ⟨partExprs, parted, ⟨⟩⟩ := bind_eq_ok.mp ok
  have partsScalar : Expr.anyAggregates partExprs = false := by
    rw [Expr.anyAggregates_eq_any]
    refine List.any_eq_false.mpr fun expr member => ?_
    obtain ⟨part, _, ok⟩ := exists_of_mapM_eq_ok parted expr member
    exact Bool.eq_false_iff.mp (aggregates_of_columnFor ok)
  rw [columns]
  refine key.of_map_value
    (map_value_of_kept input ⟨.ownEntity entity, entity⟩ fun selected member => ?_)
  obtain ⟨column, _, rfl⟩ := List.mem_map.mp member
  unfold accumulated
  split
  · split
    · simp only [Expr.aggregates, Expr.anyAggregates, partsScalar,
        aggregates_of_columnFor ordered, Bool.or_false]
      rfl
    · rfl
  · rfl

/-- Aggregated by an entity alone, there is one row for each of its values. -/
theorem isKey_aggregate {measures : List AggregatedMeasure}
    (grouped : input.columns.items = holding [.ownEntity entity])
    (ok : aggregate input measures = .ok dataSet) :
    IsKey (dataSet.source.rows database) entity := by
  obtain ⟨computed, _, ⟨⟩⟩ := bind_eq_ok.mp ok
  rw [grouped]
  refine nodup_reduceOption ?_
  rw [dataSet, Relation.rows_select]
  exact Select.nodup_value_rows_of_grouped rfl
    (fun rows row => (congrArg (Row.value · entity) (Select.output_eq rfl rows row)).trans
      (value_output_head (kept input ⟨.ownEntity entity, entity⟩) computed)) rfl rfl

end

/-! ## Outputs brought together -/

section

variable {entity : String}

/-- An entity is read from a named input by its own name. -/
theorem columnFor_ownEntity {input : Subquery} {expr : Expr} (named : input.columns.AreNamed)
    (ok : input.columnFor (.ownEntity entity) = .ok expr) :
    expr = .columnOf input.name entity := by
  obtain ⟨column, found, rfl⟩ := Subquery.columnFor_eq_ok.mp ok
  obtain ⟨member, same⟩ := Columns.of_get? found
  rw [Subquery.column, named column member, same]
  rfl

/-- The first value of an entity is taken from the column of its name in each input. -/
theorem firstValue_ownEntity {inputs : List Subquery} {name : String} {expr : Expr}
    (named : ∀ input ∈ inputs, input.columns.AreNamed)
    (ok : firstValue inputs ⟨.ownEntity entity, name⟩ = .ok expr) :
    expr = .firstOf ((inputs.map Subquery.name).map fun table => .columnOf table entity) := by
  obtain ⟨exprs, computed, ⟨⟩⟩ := bind_eq_ok.mp ok
  have values : exprs = inputs.map fun input => Expr.columnOf input.name entity := by
    rw [← List.map_id exprs]
    refine map_eq_of_forall₂ (List.forall₂_iff_zip.mpr ⟨(mapM_eq_ok.mp computed).length_eq, ?_⟩)
    intro input expr member
    have found := (List.forall₂_iff_zip.mp (mapM_eq_ok.mp computed)).2 member
    exact columnFor_ownEntity (named input (List.of_mem_zip member).1) found
  rw [values, List.map_map]
  rfl

private theorem combineJoin_ownEntity {before : List Subquery} {right : Subquery} {name : String}
    {join : Join Relation} (named : ∀ input ∈ before, input.columns.AreNamed)
    (rightNamed : right.columns.AreNamed)
    (ok : combineJoin [⟨.ownEntity entity, name⟩] before right = .ok join) :
    join.withRows database = outputJoin (before.map Subquery.name)
      (right.source.rows database) right.name entity := by
  obtain ⟨on, computed, ⟨⟩⟩ := bind_eq_ok.mp ok
  obtain ⟨condition, _, equates, none, rfl⟩ :=
    List.forall₂_cons_left_iff.mp (mapM_eq_ok.mp computed)
  obtain rfl := List.forall₂_nil_left_iff.mp none
  obtain ⟨left, first, equates⟩ := bind_eq_ok.mp equates
  obtain ⟨key, found, ⟨⟩⟩ := bind_eq_ok.mp equates
  rw [firstValue_ownEntity named first, columnFor_ownEntity rightNamed found]
  rfl

/-- Outputs with keys, joined one after the other, have different first keys. -/
theorem nodup_first_joinRows {before rest : List Subquery} {name : String}
    {joins : List (Join Relation)} {rows : List (JoinedRow α)}
    (named : ∀ input ∈ before ++ rest, input.columns.AreNamed)
    (distinct : ((before ++ rest).map Subquery.name).Nodup)
    (keys : ∀ input ∈ rest, IsKey (input.source.rows database) entity)
    (ok : combineJoins [⟨.ownEntity entity, name⟩] before rest = .ok joins)
    (rowsNamed : ∀ row ∈ rows, row.map Prod.fst = (before.map Subquery.name).map some)
    (unique : (rows.map (·.first (before.map Subquery.name) entity)).reduceOption.Nodup) :
    ((joinRows database ((before.map Subquery.name).map some) rows
      (joins.map (Join.withRows database))).map
        (·.first ((before ++ rest).map Subquery.name) entity)).reduceOption.Nodup := by
  induction rest generalizing before joins rows with
  | nil =>
      obtain ⟨⟩ := ok
      rwa [List.append_nil]
  | cons right rest ih =>
      obtain ⟨join, joined, ok⟩ := bind_eq_ok.mp ok
      obtain ⟨later, further, ⟨⟩⟩ := bind_eq_ok.mp ok
      have rightNamed := named right (List.mem_append_right _ List.mem_cons_self)
      have absent : right.name ∉ before.map Subquery.name := by
        rw [List.map_append, List.nodup_append] at distinct
        exact fun member => distinct.2.2 _ member _ List.mem_cons_self rfl
      have same : join.withRows database = outputJoin (before.map Subquery.name)
          (right.source.rows database) right.name entity := combineJoin_ownEntity
        (fun input member => named input (List.mem_append_left _ member)) rightNamed joined
      let next := (outputJoin (before.map Subquery.name) (right.source.rows database) right.name
        entity).rows database ((before.map Subquery.name).map some) rows
      have names : (before ++ [right]).map Subquery.name =
          before.map Subquery.name ++ [right.name] := List.map_append
      have nextNamed : ∀ row ∈ next,
          row.map Prod.fst = ((before ++ [right]).map Subquery.name).map some := by
        rw [names, List.map_append]
        exact Join.map_fst_rows rowsNamed
      have nextUnique : (next.map
          (·.first ((before ++ [right]).map Subquery.name) entity)).reduceOption.Nodup := by
        rw [names]
        exact nodup_first_rows absent rowsNamed unique (keys right List.mem_cons_self)
      rw [← List.singleton_append, ← List.append_assoc] at named distinct ⊢
      have final := ih named distinct
        (fun input member => keys input (List.mem_cons_of_mem _ member)) further nextNamed
        nextUnique
      have start : ((before ++ [right]).map Subquery.name).map some =
          (before.map Subquery.name).map some ++ [some right.name] := by
        rw [names, List.map_append]
        rfl
      rw [start] at final
      rw [List.map_cons, joinRows, same]
      exact final

/-- The joined rows of outputs with keys have different first keys. -/
theorem nodup_first_joined {first : Subquery} {rest : List Subquery} {name : String}
    {joins : List (Join Relation)} (named : ∀ input ∈ first :: rest, input.columns.AreNamed)
    (distinct : ((first :: rest).map Subquery.name).Nodup)
    (keys : ∀ input ∈ first :: rest, IsKey (input.source.rows database) entity)
    (ok : combineJoins [⟨.ownEntity entity, name⟩] [first] rest = .ok joins) :
    ((first.tableRef.joined database joins).map
      (·.first ((first :: rest).map Subquery.name) entity)).reduceOption.Nodup := by
  let start : List (JoinedRow α) :=
    (first.source.rows database).map fun row => [(some first.name, row)]
  have startNamed : ∀ row ∈ start,
      row.map Prod.fst = ([first].map Subquery.name).map some := by
    intro row member
    obtain ⟨_, _, rfl⟩ := List.mem_map.mp member
    rfl
  have startUnique :
      (start.map (·.first ([first].map Subquery.name) entity)).reduceOption.Nodup := by
    have values : start.map (·.first ([first].map Subquery.name) entity) =
        (first.source.rows database).map (Row.value · entity) := by
      rw [List.map_map]
      refine List.map_congr_left fun row _ => ?_
      rw [Function.comp_apply, JoinedRow.first, List.map_singleton, List.map_singleton,
        List.findSome?_singleton, JoinedRow.value_singleton, id]
    rw [values]
    exact keys first List.mem_cons_self
  exact nodup_first_joinRows named distinct
    (fun input member => keys input (List.mem_cons_of_mem _ member)) ok startNamed startUnique

private theorem aggregates_firstOf {exprs : List Expr}
    (scalar : ∀ expr ∈ exprs, expr.aggregates = false) :
    (Expr.firstOf exprs).aggregates = false := by
  have several : (Expr.call .coalesce exprs).aggregates = false := by
    rw [Expr.aggregates, Expr.anyAggregates_eq_any]
    exact List.any_eq_false.mpr fun expr member => Bool.eq_false_iff.mp (scalar expr member)
  match exprs with
  | [expr] => exact scalar expr (List.mem_singleton_self _)
  | [] => exact several
  | _ :: _ :: _ => exact several

/-- The first value of an item is no aggregate. -/
theorem aggregates_of_firstValue {inputs : List Subquery} {item : Column} {expr : Expr}
    (ok : firstValue inputs item = .ok expr) : expr.aggregates = false := by
  obtain ⟨exprs, computed, ⟨⟩⟩ := bind_eq_ok.mp ok
  refine aggregates_firstOf fun expr member => ?_
  obtain ⟨input, _, found⟩ := exists_of_mapM_eq_ok computed expr member
  exact aggregates_of_columnFor found

/-- The metric columns of the inputs are no aggregates. -/
theorem aggregates_metricColumns (inputs : List Subquery) :
    ∀ selected ∈ inputs.flatMap metricColumns, selected.expr.aggregates = false := by
  intro selected member
  obtain ⟨input, _, metric⟩ := List.mem_flatMap.mp member
  obtain ⟨column, _, _, rfl⟩ := mem_metricColumns.mp metric
  exact aggregates_kept input column

/-- Outputs with the same key, brought together on it, have this key again. -/
theorem isKey_combine {first : Subquery} {rest : List Subquery} {dataSet : DataSet}
    (named : ∀ input ∈ first :: rest, input.columns.AreNamed)
    (distinct : ((first :: rest).map Subquery.name).Nodup)
    (grouped : first.columns.items = holding [.ownEntity entity])
    (keys : ∀ input ∈ first :: rest, IsKey (input.source.rows database) entity)
    (ok : combine first rest = .ok dataSet) : IsKey (dataSet.source.rows database) entity := by
  obtain ⟨joins, joined, ok⟩ := bind_eq_ok.mp ok
  obtain ⟨selected, computed, ⟨⟩⟩ := bind_eq_ok.mp ok
  rw [grouped] at joined computed
  obtain ⟨key, _, made, none, rfl⟩ := List.forall₂_cons_left_iff.mp (mapM_eq_ok.mp computed)
  obtain rfl := List.forall₂_nil_left_iff.mp none
  obtain ⟨expr, isFirst, rfl⟩ := map_eq_ok.mp made
  have keyScalar := aggregates_of_firstValue isFirst
  obtain rfl := firstValue_ownEntity named isFirst
  have unique : ((first.tableRef.joined database joins).map
      (·.first ((first :: rest).map Subquery.name) entity)).reduceOption.Nodup :=
    nodup_first_joined named distinct keys joined
  let key : Selected := ⟨⟨.ownEntity entity, entity⟩,
    .firstOf (((first :: rest).map Subquery.name).map fun table => .columnOf table entity)⟩
  have values : ∀ rows (row : JoinedRow α), key.expr.value database rows row =
      row.first ((first :: rest).map Subquery.name) entity := by
    intro rows row
    rw [Expr.value_firstOf, List.map_map]
    rfl
  have scalar : ∀ selected ∈ key :: (first :: rest).flatMap metricColumns,
      selected.expr.aggregates = false :=
    List.forall_mem_cons.mpr ⟨keyScalar, aggregates_metricColumns (first :: rest)⟩
  have heads : ((((ofList (key :: (first :: rest).flatMap metricColumns)).dataSet first.tableRef
      fun select => { select with joins }).source.rows database).map (Row.value · entity)) =
      (first.tableRef.joined database joins).map
        (·.first ((first :: rest).map Subquery.name) entity) := by
    rw [rows_of_ofList scalar, List.map_map]
    exact List.map_congr_left fun row _ => (value_output_head key _).trans (values _ row)
  rw [IsKey]
  exact heads ▸ unique

end

/-! ## Joins of inputs with keys -/

section

variable {left : Subquery} {rights : List Subquery} {entities : List String}
  {joined : List Joined}

private theorem isOnKey_joinEach (named : ∀ input ∈ left :: rights, input.columns.AreNamed)
    (distinct : ((left :: rights).map Subquery.name).Nodup)
    (keys : List.Forall₂ (fun entity (right : Subquery) =>
      IsKey (right.source.rows database) entity) entities rights)
    (ok : joinEach left entities rights = .ok joined) :
    ∀ part ∈ joined, (part.join.withRows database).IsOnKey left.name := by
  intro part member
  obtain ⟨pair, zipped, made⟩ := exists_of_mapM_eq_ok ok part member
  obtain ⟨join, found, rfl⟩ := map_eq_ok.mp made
  obtain ⟨leftKey, first, found⟩ := bind_eq_ok.mp found
  obtain ⟨rightKey, second, ⟨⟩⟩ := bind_eq_ok.mp found
  have among : pair.2 ∈ rights := (List.of_mem_zip zipped).2
  obtain rfl := columnFor_ownEntity (named left List.mem_cons_self) first
  obtain rfl := columnFor_ownEntity (named pair.2 (List.mem_cons_of_mem _ among)) second
  have different : left.name ≠ pair.2.name := fun same =>
    (List.nodup_cons.mp distinct).1 (same ▸ List.mem_map_of_mem among)
  exact .intro different ((List.forall₂_iff_zip.mp keys).2 zipped)

private theorem aggregates_joinAll (left : Subquery) (joined : List Joined) :
    ∀ selected ∈ keepAll left ++ joined.flatMap fun part => joinedColumns part.entity part.right,
      selected.expr.aggregates = false := by
  intro selected member
  rcases List.mem_append.mp member with kept | added
  · obtain ⟨column, _, rfl⟩ := List.mem_map.mp kept
    rfl
  · obtain ⟨part, _, inside⟩ := List.mem_flatMap.mp added
    obtain ⟨column, _, made⟩ := List.mem_filterMap.mp inside
    obtain ⟨content, _, rfl⟩ := Option.map_eq_some_iff.mp made
    rfl

/-- A join keeps all columns of its first input. -/
theorem subset_columns_joinAll (named : left.columns.AreNamed) (joined : List Joined) :
    left.columns ⊆ (joinAll left joined).columns := by
  intro column member
  have kept : kept left column ∈ keepAll left ++
      joined.flatMap fun part => joinedColumns part.entity part.right :=
    List.mem_append_left _ (List.mem_map_of_mem member)
  have held := (joinAll_named named joined).mem_of_contains (contains_ofList.mpr ⟨_, kept, rfl⟩)
  rwa [Selection.kept, ← named column member] at held

/-- A join of inputs with keys completes its first input. -/
theorem completes_joinAll (named : ∀ input ∈ left :: rights, input.columns.AreNamed)
    (distinct : ((left :: rights).map Subquery.name).Nodup)
    (keys : List.Forall₂ (fun entity (right : Subquery) =>
      IsKey (right.source.rows database) entity) entities rights)
    (ok : joinEach left entities rights = .ok joined) :
    (joinAll left joined).Completes database ⟨left.columns, left.source⟩ := by
  have onKeys : ∀ join ∈ (joined.map Joined.join).map (Join.withRows database),
      join.IsOnKey left.name := by
    intro join member
    obtain ⟨_, among, rfl⟩ := List.mem_map.mp member
    obtain ⟨part, present, rfl⟩ := List.mem_map.mp among
    exact isOnKey_joinEach named distinct keys ok part present
  have names : ((joined.map Joined.join).map (Join.withRows database)).map (·.table.name) =
      rights.map fun right => some right.name := by
    have tables := joinEach_reads keys.length_eq.symm ok
    rw [List.map_map, List.map_map]
    exact (List.map_map.symm.trans (congrArg (List.map TableRef.name) tables)).trans List.map_map
  have apart : ([some left.name] ++ ((joined.map Joined.join).map
      (Join.withRows database)).map (·.table.name)).Nodup := by
    rw [names]
    exact List.map_map (f := Subquery.name) ▸ distinct.map (Option.some_injective String)
  have completed : List.Forall₂ (· <+: ·)
      ((left.source.rows database).map fun row => [(some left.name, row)])
      (left.tableRef.joined database (joined.map Joined.join)) := by
    refine isPrefix_joinRows onKeys (fun row member => ?_) apart
    obtain ⟨_, _, rfl⟩ := List.mem_map.mp member
    rfl
  refine ⟨subset_columns_joinAll (named left List.mem_cons_self) joined, ?_⟩
  rw [joinAll, rows_of_ofList (aggregates_joinAll left joined), List.forall₂_map_right_iff]
  refine (List.forall₂_map_left_iff.mp completed).imp ?_
  rintro row after ⟨others, rfl⟩ column member
  refine (value_output_kept (named left List.mem_cons_self) (fun selected added => ?_)
    member).trans JoinedRow.value_cons_self
  obtain ⟨part, _, inside⟩ := List.mem_flatMap.mp added
  exact named_joinedColumns selected inside

end

end MetricQuery.Sql

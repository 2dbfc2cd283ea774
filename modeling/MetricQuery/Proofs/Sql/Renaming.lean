import MetricQuery.Proofs.Failing
import MetricQuery.Sql.Assembly
import MetricQuery.Sql.Inlining

/-! # Steps do not depend on names

What a step makes of its inputs depends on the names of the inputs and on what they read only in
that it repeats them. If every input is given another name and another source, each step fails as
before or gives the same columns, from the same select over the other names and sources
(`assemble_transport`).
-/

namespace MetricQuery.Sql

/-- The same expression for the same column over tables with other names. -/
def Selected.rename (naming : String → String) (selected : Selected) : Selected :=
  ⟨selected.column, selected.expr.rename naming⟩

/-- The same select with other names of its tables, over other sources. -/
def Select.transport (naming : String → String) (change : Relation → Relation)
    (statement : Select Relation) : Select Relation :=
  (statement.mapSources change).rename naming

/-- The same columns of a subquery with another name and another source. -/
def Subquery.transport (naming : String → String) (change : Relation → Relation)
    (input : Subquery) : Subquery :=
  ⟨naming input.name, input.columns, change input.source⟩

/-- The same columns from a select with other names of its tables, over other sources. -/
def DataSet.transport (naming : String → String) (change : Relation → Relation)
    (dataSet : DataSet) : DataSet where
  columns := dataSet.columns
  source := match dataSet.source with
    | .table name => .table name
    | .select statement => .select (statement.transport naming change)

/-- A join of a table with another name and another source. -/
def Join.transport (naming : String → String) (change : Relation → Relation)
    (join : Join Relation) : Join Relation :=
  ⟨join.kind, ⟨change join.table.source, join.table.name.map naming⟩,
    join.on.map (Expr.rename naming)⟩

/-- A joined table with another name and another source. -/
def Joined.transport (naming : String → String) (change : Relation → Relation)
    (joined : Joined) : Joined :=
  ⟨joined.entity, joined.right.transport naming change, joined.join.transport naming change⟩

variable (naming : String → String) (change : Relation → Relation)

/-! ## Columns and selections -/

/-- Renaming an input keeps its columns. -/
@[simp]
theorem Subquery.columns_transport (input : Subquery) :
    (input.transport naming change).columns = input.columns := rfl

/-- Renaming a selected expression keeps its column. -/
@[simp]
theorem Selected.column_rename (selected : Selected) :
    (selected.rename naming).column = selected.column := rfl

/-- A content is read from a renamed input by the renamed expression. -/
theorem Subquery.columnFor_transport (input : Subquery) (content : ColumnContent) :
    Carried (Expr.rename naming) (input.columnFor content)
      ((input.transport naming change).columnFor content) := by
  simp only [columnFor, columns_transport]
  cases input.columns.get? content with
  | some column => exact .ok (input.column column.name)
  | none => exact .error _ _

namespace Selection

private theorem ofList_rename (columns : List Selected) :
    ofList (columns.map (Selected.rename naming)) =
      (ofList columns).map (Selected.rename naming) := by
  have general : ∀ selection : Selection,
      (columns.map (Selected.rename naming)).foldl add (selection.map (Selected.rename naming)) =
        (columns.foldl add selection).map (Selected.rename naming) := by
    induction columns with
    | nil => exact fun selection => rfl
    | cons selected rest ih =>
        intro selection
        have head : add (selection.map (Selected.rename naming)) (selected.rename naming) =
            (add selection selected).map (Selected.rename naming) := by
          simp only [add, List.any_map, Function.comp_def, Selected.column_rename]
          split
          · rfl
          · rw [List.map_append, List.map_singleton]
        rw [List.map_cons, List.foldl_cons, head, List.foldl_cons, ih]
  exact general []

/-- Renaming a selection keeps its columns. -/
@[simp]
theorem columns_rename (selection : Selection) :
    columns (selection.map (Selected.rename naming)) = columns selection := by
  simp only [columns, List.map_map]
  rfl

/-- Columns kept from a renamed input are the renamed ones. -/
theorem keep_transport (input : Subquery) (columns : Columns) :
    keep (input.transport naming change) columns =
      (keep input columns).map (Selected.rename naming) := by
  simp only [keep, List.map_map]
  rfl

/-- All columns kept from a renamed input are the renamed ones. -/
theorem keepAll_transport (input : Subquery) :
    keepAll (input.transport naming change) =
      (keepAll input).map (Selected.rename naming) := keep_transport naming change input _

/-- A computed column is renamed in its expression. -/
theorem computed_rename (content : ColumnContent) (expr : Expr) :
    computed content (expr.rename naming) = (computed content expr).rename naming := rfl

/-- The select of renamed columns over another source. -/
theorem select_transport (selection : Selection) (input : Subquery) :
    select (selection.map (Selected.rename naming)) (input.transport naming change).tableRef =
      (select selection input.tableRef).transport naming change := by
  simp only [select, Select.plain, Select.transport, Select.rename, Select.mapSources,
    List.map_map, List.map_nil]
  rfl

/-- The data set of renamed columns over another source, if it is completed accordingly. -/
theorem dataSet_carried (complete completeOther : Select Relation → Select Relation)
    (square : ∀ statement, completeOther (statement.transport naming change) =
      (complete statement).transport naming change)
    {columns others : List Selected} (same : others = columns.map (Selected.rename naming))
    (input : Subquery) :
    Carried (ε := QueryError) (DataSet.transport naming change)
      (.ok ((ofList columns).dataSet input.tableRef complete))
      (.ok ((ofList others).dataSet (input.transport naming change).tableRef completeOther)) := by
  have transported : (ofList others).dataSet (input.transport naming change).tableRef
        completeOther =
      ((ofList columns).dataSet input.tableRef complete).transport naming change := by
    rw [same, ofList_rename, dataSet, columns_rename, select_transport, square]
    rfl
  rw [transported]
  exact .ok _

end Selection

/-! ## Models -/

/-- The columns of a renamed time are the renamed ones. -/
theorem timeColumns_rename (stored : Grain) (time : Expr) :
    timeColumns stored (time.rename naming) =
      (timeColumns stored time).map fun column =>
        ⟨column.grain, column.part, column.expr.rename naming⟩ := by
  simp only [timeColumns, List.map_append, List.map_map]
  rfl

private theorem dimensionColumns_rename (links : List String) (dimension : Dimension) :
    (dimensionColumns links dimension).map (Selected.rename naming) =
      dimensionColumns links dimension := by
  have times := timeColumns_rename naming dimension.storedGrain (.raw dimension.sql)
  rw [Expr.rename_raw] at times
  unfold dimensionColumns
  split
  · dsimp only
    conv_rhs => rw [times]
    rw [List.map_map, List.map_map]
    rfl
  · rw [List.map_singleton, ← Selection.computed_rename, Expr.rename_raw]

/-- The columns of a model are computed without a name of a table. -/
theorem modelColumns_rename (model : SemanticModel) :
    (modelColumns model).map (Selected.rename naming) = modelColumns model := by
  simp only [modelColumns, List.map_append, List.map_map, List.map_flatMap,
    dimensionColumns_rename, Function.comp_def, ← Selection.computed_rename, Expr.rename_raw]

/-- Reading a model under another name. -/
theorem readModel_transport (model : SemanticModel) (name : String)
    (unchanged : change (.table model.table) = .table model.table) :
    (readModel model name).transport naming change = readModel model (naming name) := by
  have carried := Selection.dataSet_carried naming change id id (fun _ => rfl)
    (modelColumns_rename naming model).symm ⟨name, [], .table model.table⟩
  have same := Except.ok.inj carried.ok_of
  rw [Subquery.transport, unchanged] at same
  exact same.symm

/-! ## Single steps -/

private theorem addMetricTime_transport (input : Subquery) (dimension : String) (stored : Grain)
    (offset : Option OffsetWindow) :
    Carried (DataSet.transport naming change) (addMetricTime input dimension stored offset)
      (addMetricTime (input.transport naming change) dimension stored offset) := by
  apply (input.columnFor_transport naming change _).bind
  intro time
  have finish : ∀ added : List Selected, Carried (ε := QueryError)
      (DataSet.transport naming change)
      (.ok ((Selection.ofList (Selection.keepAll input ++ added)).dataSet input.tableRef id))
      (.ok ((Selection.ofList (Selection.keepAll (input.transport naming change) ++
        added.map (Selected.rename naming))).dataSet (input.transport naming change).tableRef
          id)) := by
    intro added
    refine Selection.dataSet_carried naming change id id (fun _ => rfl) ?_ input
    rw [Selection.keepAll_transport, List.map_append]
  cases offset with
  | some window =>
      have renamed : Expr.shift (time.rename naming) window =
          (Expr.shift time window).rename naming := by rw [Expr.rename]
      have columns : (timeColumns stored (.shift (time.rename naming) window)).map
            (fun column => metricTimeColumn column column.expr) =
          ((timeColumns stored (.shift time window)).map
            fun column => metricTimeColumn column column.expr).map (Selected.rename naming) := by
        rw [renamed, timeColumns_rename, List.map_map, List.map_map]
        rfl
      simp only [columns]
      exact finish _
  | none =>
      refine Carried.bind ?_ finish
      rw [timeColumns_rename]
      refine Carried.mapM (fun column => ?_) _
      exact (input.columnFor_transport naming change (column.content dimension [])).map
        fun expr => rfl

private theorem constrain_transport (input : Subquery) (condition : Condition) :
    Carried (ε := QueryError) (DataSet.transport naming change) (.ok (constrain input condition))
      (.ok (constrain (input.transport naming change) condition)) := by
  refine Selection.dataSet_carried naming change _ _ (fun statement => ?_)
    (Selection.keepAll_transport naming change input) input
  simp only [Select.transport, Select.rename, Select.mapSources, List.map_cons, List.map_nil,
    Expr.rename]

private theorem pass_transport (input : Subquery) (contents : List ColumnContent) :
    Carried (DataSet.transport naming change) (pass input contents)
      (pass (input.transport naming change) contents) := by
  have each : ∀ content, Carried id (passed input content)
      (passed (input.transport naming change) content) := by
    intro content
    simp only [passed, Subquery.columns_transport]
    cases input.columns.get? content with
    | some column => exact .ok _
    | none => exact .error _ _
  apply (Carried.mapM_same each contents).bind
  intro columns
  refine Selection.dataSet_carried naming change id id (fun _ => rfl) ?_ input
  rw [List.map_id, Selection.keep_transport]

private theorem aggregate_transport (input : Subquery) (measures : List AggregatedMeasure) :
    Carried (DataSet.transport naming change) (aggregate input measures)
      (aggregate (input.transport naming change) measures) := by
  have each : ∀ measure, Carried (Selected.rename naming) (aggregated input measure)
      (aggregated (input.transport naming change) measure) := by
    intro measure
    simp only [aggregated, Subquery.columns_transport]
    cases input.columns.get? (.measure measure.measure) with
    | some column =>
        have renamed : Expr.aggregate measure.aggregation
              ((input.transport naming change).column column.name) =
            (Expr.aggregate measure.aggregation (input.column column.name)).rename naming := by
          rw [Expr.rename]
          rfl
        simp only [renamed]
        exact .ok (⟨⟨.measure measure.measure, column.name⟩, _⟩ : Selected)
    | none => exact .error _ _
  apply (Carried.mapM_same each measures).bind
  intro computed
  refine Selection.dataSet_carried naming change _ _ (fun statement => ?_) ?_ input
  · simp only [Select.transport, Select.rename, Select.mapSources, List.map_map,
      Subquery.columns_transport, Selection.keep_transport]
    rfl
  · rw [Subquery.columns_transport, Selection.keep_transport, List.map_append]

private theorem metricExpr_transport (input : Subquery) (formula : MetricFormula) :
    Carried (Expr.rename naming) (metricExpr input formula)
      (metricExpr (input.transport naming change) formula) := by
  cases formula with
  | measure name => exact input.columnFor_transport naming change _
  | ratio numerator denominator =>
      apply (input.columnFor_transport naming change _).bind
      intro dividend
      apply (input.columnFor_transport naming change _).bind
      intro divisor
      have renamed : ∀ zero, Expr.binary .divide (dividend.rename naming).asDouble
            (Expr.call .nullIf [divisor.rename naming, .literal zero]).asDouble =
          (Expr.binary .divide dividend.asDouble
            (Expr.call .nullIf [divisor, .literal zero]).asDouble).rename naming := by
        intro zero
        simp only [Expr.asDouble, Expr.rename, Expr.renameAll]
      simp only [renamed]
      exact .ok _
  | derived expr =>
      have carried : Carried (ε := QueryError) (Expr.rename naming) (.ok (.raw expr))
          (.ok ((Expr.raw expr).rename naming)) := .ok _
      rwa [Expr.rename_raw] at carried

private theorem compute_transport (input : Subquery) (output : MetricOutput)
    (formula : MetricFormula) :
    Carried (DataSet.transport naming change) (compute input output formula)
      (compute (input.transport naming change) output formula) := by
  apply (metricExpr_transport naming change input formula).bind
  intro expr
  refine Selection.dataSet_carried naming change id id (fun _ => rfl) ?_ input
  rw [Subquery.columns_transport, Selection.keep_transport, List.map_append]
  rfl

private theorem accumulated_transport (input : Subquery) (order : Expr) (parts : List Expr)
    (measures : List AggregatedMeasure) (column : Column) :
    accumulated (input.transport naming change) (order.rename naming)
        (parts.map (Expr.rename naming)) measures column =
      (accumulated input order parts measures column).rename naming := by
  obtain ⟨content, name⟩ := column
  cases content with
  | measure measured =>
      simp only [accumulated]
      cases measures.find? (·.measure == measured) with
      | some measure =>
          simp only [Selected.rename, Expr.rename, Expr.renameAll_eq_map, List.map_cons,
            List.map_nil]
          rfl
      | none => rfl
  | metric output => rfl
  | item item => rfl

private theorem accumulate_transport (input : Subquery) (order : GroupByItem)
    (parts : List GroupByItem)
    (measures : List AggregatedMeasure) :
    Carried (DataSet.transport naming change) (accumulate input order parts measures)
      (accumulate (input.transport naming change) order parts measures) := by
  apply (input.columnFor_transport naming change _).bind
  intro orderExpr
  refine (Carried.mapM_same (fun part =>
    input.columnFor_transport naming change (.item part)) parts).bind fun partExprs => ?_
  refine Selection.dataSet_carried naming change id id (fun _ => rfl) ?_ input
  rw [Subquery.columns_transport, List.map_map]
  exact List.map_congr_left fun column _ => accumulated_transport naming change ..

private theorem sort_transport (input : Subquery) (order : List OrderItem) (limit : Option Nat) :
    Carried (DataSet.transport naming change) (sort input order limit)
      (sort (input.transport naming change) order limit) := by
  have each : ∀ item, Carried
      (fun sorted : SortItem => ⟨sorted.expr.rename naming, sorted.descending⟩)
      (sortItem input item) (sortItem (input.transport naming change) item) := by
    intro item
    simp only [sortItem, Subquery.columns_transport]
    by_cases present : (input.columns.any (·.name == item.content.columnName)) = true
    · simp only [present, ↓reduceIte]
      exact .ok (⟨input.column item.content.columnName, item.descending⟩ : SortItem)
    · simp only [present, Bool.false_eq_true, ↓reduceIte]
      exact .error _ _
  apply (Carried.mapM_same each order).bind
  intro orderBy
  refine Selection.dataSet_carried naming change _ _ (fun statement => ?_)
    (Selection.keepAll_transport naming change input) input
  simp only [Select.transport, Select.rename, Select.mapSources]

private theorem ofStep_transport (input : Subquery) (step : Step)
    (reads : ∀ model, step ≠ .read model)
    (joins : ∀ entities, step ≠ .join entities) (combines : step ≠ .combine)
    (results : step ≠ .result) :
    Carried (DataSet.transport naming change) (Lower.ofStep input step)
      (Lower.ofStep (input.transport naming change) step) := by
  cases step with
  | read model => exact (reads model rfl).elim
  | addMetricTime dimension stored offset =>
      exact addMetricTime_transport naming change input dimension stored offset
  | join entities => exact (joins entities rfl).elim
  | constrain condition => exact constrain_transport naming change input condition
  | pass contents => exact pass_transport naming change input contents
  | aggregate measures => exact aggregate_transport naming change input measures
  | compute output formula => exact compute_transport naming change input output formula
  | combine => exact (combines rfl).elim
  | accumulate order parts measures =>
      exact accumulate_transport naming change input order parts measures
  | sort order limit => exact sort_transport naming change input order limit
  | result => exact (results rfl).elim

/-! ## Joins and combinations -/

private theorem joinedColumns_transport (entity : String) (right : Subquery) :
    joinedColumns entity (right.transport naming change) =
      (joinedColumns entity right).map (Selected.rename naming) := by
  simp only [joinedColumns, Subquery.columns_transport, List.map_filterMap, Option.map_map]
  rfl

private theorem joinOn_transport (entity : String) (left right : Subquery) :
    Carried (Join.transport naming change) (joinOn entity left right)
      (joinOn entity (left.transport naming change) (right.transport naming change)) := by
  apply (left.columnFor_transport naming change _).bind
  intro leftKey
  apply (right.columnFor_transport naming change _).bind
  intro rightKey
  have renamed : Expr.binary .equal (leftKey.rename naming) (rightKey.rename naming) =
      (Expr.binary .equal leftKey rightKey).rename naming := by rw [Expr.rename]
  rw [renamed]
  exact .ok (⟨.left, right.tableRef, [.binary .equal leftKey rightKey]⟩ : Join Relation)

private theorem joinEach_transport (left : Subquery) (entities : List String)
    (rights : List Subquery) :
    Carried (List.map (Joined.transport naming change)) (joinEach left entities rights)
      (joinEach (left.transport naming change) entities
        (rights.map (Subquery.transport naming change))) := by
  have each : ∀ pair : String × Subquery,
      Carried (Joined.transport naming change)
        ((joinOn pair.1 left pair.2).map fun join => ⟨pair.1, pair.2, join⟩)
        ((joinOn pair.1 (left.transport naming change) (pair.2.transport naming change)).map
          fun join => ⟨pair.1, pair.2.transport naming change, join⟩) := fun pair =>
    (joinOn_transport naming change pair.1 left pair.2).map fun join => rfl
  rw [joinEach, joinEach, List.zip_map_right]
  exact Carried.mapM each _

private theorem joinAll_transport (left : Subquery) (joined : List Joined) :
    Carried (ε := QueryError) (DataSet.transport naming change) (.ok (joinAll left joined))
      (.ok (joinAll (left.transport naming change)
        (joined.map (Joined.transport naming change)))) := by
  simp only [joinAll]
  refine Selection.dataSet_carried naming change _ _ (fun statement => ?_) ?_ left
  · simp only [Select.transport, Select.rename, Select.mapSources, List.map_map]
    rfl
  · rw [Selection.keepAll_transport, List.map_append, List.map_flatMap, List.flatMap_map]
    exact congrArg (_ ++ ·) (congrArg List.flatten (List.map_congr_left fun part _ =>
      joinedColumns_transport naming change part.entity part.right))

/-- The first value over renamed inputs is the renamed one. -/
theorem firstValue_transport (inputs : List Subquery) (item : Column) :
    Carried (Expr.rename naming) (firstValue inputs item)
      (firstValue (inputs.map (Subquery.transport naming change)) item) := by
  refine Carried.bind (Carried.mapM (fun input =>
    input.columnFor_transport naming change item.content) inputs) fun values => ?_
  have renamed : Expr.firstOf (values.map (Expr.rename naming)) =
      (Expr.firstOf values).rename naming := by
    match values with
    | [] => simp only [List.map_nil, Expr.firstOf, Expr.rename, Expr.renameAll_eq_map]
    | [value] => rfl
    | first :: second :: rest =>
        simp only [List.map_cons, Expr.firstOf, Expr.rename, Expr.renameAll_eq_map]
  rw [renamed]
  exact .ok _

private theorem combineJoin_transport (items : Columns) (before : List Subquery) (right : Subquery)
    :
    Carried (Join.transport naming change) (combineJoin items before right)
      (combineJoin items (before.map (Subquery.transport naming change))
        (right.transport naming change)) := by
  simp only [combineJoin]
  split
  · exact .ok (⟨.cross, right.tableRef, []⟩ : Join Relation)
  · refine Carried.bind (Carried.mapM_same (fun item => ?_) items) fun on =>
      .ok (⟨.fullOuter, right.tableRef, on⟩ : Join Relation)
    apply (firstValue_transport naming change before item).bind
    intro leftValue
    apply (right.columnFor_transport naming change item.content).bind
    intro rightValue
    have renamed : Expr.binary .equal (leftValue.rename naming) (rightValue.rename naming) =
        (Expr.binary .equal leftValue rightValue).rename naming := by rw [Expr.rename]
    rw [renamed]
    exact .ok _

private theorem combineJoins_transport (items : Columns) (before rest : List Subquery) :
    Carried (List.map (Join.transport naming change)) (combineJoins items before rest)
      (combineJoins items (before.map (Subquery.transport naming change))
        (rest.map (Subquery.transport naming change))) := by
  induction rest generalizing before with
  | nil => exact .ok []
  | cons right rest ih =>
      apply (combineJoin_transport naming change items before right).bind
      intro join
      have later := ih (before ++ [right])
      rw [List.map_append, List.map_singleton] at later
      exact later.bind fun joins => .ok (join :: joins)

private theorem metricColumns_transport (input : Subquery) :
    metricColumns (input.transport naming change) =
      (metricColumns input).map (Selected.rename naming) :=
  Selection.keep_transport naming change input _

private theorem combine_transport (first : Subquery) (rest : List Subquery) :
    Carried (DataSet.transport naming change) (combine first rest)
      (combine (first.transport naming change) (rest.map (Subquery.transport naming change))) := by
  refine (combineJoins_transport naming change first.columns.items [first] rest).bind
    fun joins => ?_
  have each : ∀ item, Carried (Selected.rename naming)
      ((firstValue (first :: rest) item).map (Selected.mk item))
      ((firstValue ((first :: rest).map (Subquery.transport naming change)) item).map
        (Selected.mk item)) := fun item =>
    (firstValue_transport naming change (first :: rest) item).map fun expr => rfl
  apply Carried.bind (Carried.mapM_same each first.columns.items)
  intro keys
  refine Selection.dataSet_carried naming change _ _ (fun statement => ?_) ?_ first
  · simp only [Select.transport, Select.rename, Select.mapSources, List.map_map]
    rfl
  · rw [List.map_append, ← List.map_cons (f := Subquery.transport naming change),
      List.flatMap_map, List.map_flatMap]
    exact congrArg (_ ++ ·) (congrArg List.flatten (List.map_congr_left fun input _ =>
      metricColumns_transport naming change input))

/-- No step depends on the names of its inputs or on what they read. -/
theorem assemble_transport (step : Step) (inputs : List Subquery)
    (reads : ∀ model, step ≠ .read model) (results : step ≠ .result) :
    Carried (DataSet.transport naming change) (assemble step inputs)
      (assemble step (inputs.map (Subquery.transport naming change))) := by
  by_cases joins : ∃ entities, step = .join entities
  · obtain ⟨entities, rfl⟩ := joins
    cases inputs with
    | nil => exact .error _ _
    | cons left rights =>
        simp only [List.map_cons, assemble, List.length_map]
        split
        · exact Carried.bind (joinEach_transport naming change left entities rights)
            fun joined => joinAll_transport naming change left joined
        · exact .error _ _
  · by_cases combines : step = .combine
    · subst combines
      cases inputs with
      | nil => exact .error _ _
      | cons first rest => exact combine_transport naming change first rest
    · have notJoin : ∀ entities, step ≠ .join entities := fun entities same =>
        joins ⟨entities, same⟩
      match inputs with
      | [] =>
          rw [List.map_nil, assemble_of_not_one notJoin combines (by simp)]
          exact .error _ _
      | [input] =>
          rw [List.map_singleton, assemble_singleton notJoin combines,
            assemble_singleton notJoin combines]
          exact ofStep_transport naming change input step reads notJoin combines results
      | first :: second :: rest =>
          rw [assemble_of_not_one notJoin combines (by simp),
            assemble_of_not_one notJoin combines (by simp)]
          exact .error _ _

end MetricQuery.Sql

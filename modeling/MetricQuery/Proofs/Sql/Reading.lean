import MetricQuery.Proofs.Failing
import MetricQuery.Sql.Assembly
import MetricQuery.Sql.Inlining

/-! # What steps read

Whatever a step makes of its inputs is a select over these inputs, in their order and under their
names (`assemble_reads`).
-/

namespace MetricQuery.Sql

/-! ## Columns of inputs -/

/-- The column found for a content is one of the columns and holds it. -/
theorem Columns.of_get? {columns : Columns} {content : ColumnContent} {column : Column}
    (found : columns.get? content = some column) :
    column ∈ columns ∧ column.content = content := by
  have same : (column.content == content) = true := by simpa using List.find?_some found
  exact ⟨List.mem_of_find?_eq_some found, beq_iff_eq.mp same⟩

section

variable {input : Subquery} {content : ColumnContent}

/-- A content is read by the name of the column found for it. -/
theorem Subquery.columnFor_eq_ok {expr : Expr} :
    input.columnFor content = .ok expr ↔
      ∃ column, input.columns.get? content = some column ∧ input.column column.name = expr := by
  unfold columnFor
  cases input.columns.get? content with
  | none => exact ⟨nofun, nofun⟩
  | some column => simp

/-- A content is passed on under the name it was found by. -/
theorem passed_eq_ok {column : Column} :
    passed input content = .ok column ↔
      ∃ source, input.columns.get? content = some source ∧ ⟨content, source.name⟩ = column := by
  unfold passed
  cases input.columns.get? content with
  | none => exact ⟨nofun, nofun⟩
  | some source => simp

/-- A measure is aggregated over the column found for it. -/
theorem aggregated_eq_ok {measure : AggregatedMeasure} {selected : Selected} :
    aggregated input measure = .ok selected ↔
      ∃ column, input.columns.get? (.measure measure.measure) = some column ∧
        ⟨⟨.measure measure.measure, column.name⟩,
          .aggregate measure.aggregation (input.column column.name)⟩ = selected := by
  simp only [aggregated]
  cases input.columns.get? (.measure measure.measure) with
  | none => exact ⟨nofun, nofun⟩
  | some column => simp

/-- A content is sorted by when a column has its name. -/
theorem sortItem_eq_ok {item : OrderItem} {sorted : SortItem} :
    sortItem input item = .ok sorted ↔
      (∃ column ∈ input.columns, column.name = item.content.columnName) ∧
        ⟨input.column item.content.columnName, item.descending⟩ = sorted := by
  have held : input.columns.any (·.name == item.content.columnName) = true ↔
      ∃ column ∈ input.columns, column.name = item.content.columnName := by
    simp only [List.any_eq_true, beq_iff_eq]
  rw [sortItem, ← held]
  cases input.columns.any (·.name == item.content.columnName) <;> simp

end

/-! ## Tables of steps -/

/-- Whether a data set is a select over some subqueries and nothing else. -/
def DataSet.ReadsFrom (dataSet : DataSet) (inputs : List Subquery) : Prop :=
  ∃ statement : Select Relation, dataSet.source = .select statement ∧
    statement.tables = inputs.map Subquery.tableRef

namespace DataSet.ReadsFrom

/-- A select from given inputs names these. -/
theorem tableNames_eq {statement : Select Relation} {inputs : List Subquery}
    (tables : statement.tables = inputs.map Subquery.tableRef) :
    statement.tableNames = inputs.map (·.name) := by
  rw [Select.tableNames, tables, List.filterMap_map, ← List.filterMap_eq_map]
  rfl

/-- A select from given inputs reads their relations. -/
theorem sources_eq {statement : Select Relation} {inputs : List Subquery}
    (tables : statement.tables = inputs.map Subquery.tableRef) :
    statement.sources = inputs.map (·.source) := by
  rw [Select.sources, tables, List.map_map]
  rfl

/-- What is read by the inputs is read, in their order. -/
theorem tables_eq {dataSet : DataSet} {inputs : List Subquery} (reads : dataSet.ReadsFrom inputs) :
    dataSet.source.tables = inputs.flatMap (·.source.tables) := by
  obtain ⟨statement, source, tables⟩ := reads
  rw [source, Relation.tables_select, sources_eq tables, List.flatMap_map]

/-- A select of one input reads from it alone, whatever else it does. -/
theorem single {selection : Selection} {input : Subquery}
    {complete : Select Relation → Select Relation}
    (source : ∀ statement, (complete statement).source = statement.source)
    (joins : ∀ statement, (complete statement).joins = statement.joins) :
    (selection.dataSet input.tableRef complete).ReadsFrom [input] := by
  refine ⟨_, rfl, ?_⟩
  rw [Select.tables, source, joins]
  rfl

end DataSet.ReadsFrom

open DataSet

private theorem ofStep_reads {step : Step} {input : Subquery} {dataSet : DataSet}
    (reads : ∀ model, step ≠ .read model) (joins : ∀ entities, step ≠ .join entities)
    (combines : step ≠ .combine) (results : step ≠ .result)
    (ok : Lower.ofStep input step = .ok dataSet) : dataSet.ReadsFrom [input] := by
  cases step with
  | read model => exact (reads model rfl).elim
  | join entities => exact (joins entities rfl).elim
  | combine => exact (combines rfl).elim
  | result => exact (results rfl).elim
  | addMetricTime dimension stored offset =>
      obtain ⟨time, _, ok⟩ := bind_eq_ok.mp ok
      have added : ∃ added : List Selected, dataSet = (Selection.ofList
          (Selection.keepAll input ++ added)).dataSet input.tableRef id := by
        cases offset with
        | some window => exact ⟨_, (Except.ok.inj ok).symm⟩
        | none =>
            obtain ⟨added, _, ⟨⟩⟩ := bind_eq_ok.mp ok
            exact ⟨added, rfl⟩
      obtain ⟨added, rfl⟩ := added
      exact .single (fun _ => rfl) fun _ => rfl
  | constrain condition =>
      obtain ⟨⟩ := ok
      exact .single (fun _ => rfl) fun _ => rfl
  | pass contents =>
      obtain ⟨columns, _, ⟨⟩⟩ := bind_eq_ok.mp ok
      exact .single (fun _ => rfl) fun _ => rfl
  | aggregate measures =>
      obtain ⟨computed, _, ⟨⟩⟩ := bind_eq_ok.mp ok
      exact .single (fun _ => rfl) fun _ => rfl
  | compute output formula =>
      obtain ⟨expr, _, ⟨⟩⟩ := bind_eq_ok.mp ok
      exact .single (fun _ => rfl) fun _ => rfl
  | accumulate order parts measures =>
      obtain ⟨orderExpr, _, ok⟩ := bind_eq_ok.mp ok
      obtain ⟨partExprs, _, ⟨⟩⟩ := bind_eq_ok.mp ok
      exact .single (fun _ => rfl) fun _ => rfl
  | sort order limit =>
      obtain ⟨orderBy, _, ⟨⟩⟩ := bind_eq_ok.mp ok
      exact .single (fun _ => rfl) fun _ => rfl

/-- The joins of several inputs read these, in order. -/
theorem joinEach_reads {left : Subquery} {entities : List String} {rights : List Subquery}
    {joined : List Joined} (even : rights.length = entities.length)
    (ok : joinEach left entities rights = .ok joined) :
    joined.map (·.join.table) = rights.map Subquery.tableRef := by
  induction rights generalizing entities joined with
  | nil =>
      rw [joinEach, List.zip_nil_right, List.mapM_nil] at ok
      obtain ⟨⟩ := ok
      rfl
  | cons right rights ih =>
      obtain ⟨entity, entities, rfl⟩ := List.exists_cons_of_length_eq_add_one even.symm
      rw [joinEach_cons] at ok
      obtain ⟨join, found, ok⟩ := bind_eq_ok.mp ok
      obtain ⟨rest, each, ⟨⟩⟩ := bind_eq_ok.mp ok
      obtain ⟨leftKey, _, found⟩ := bind_eq_ok.mp found
      obtain ⟨rightKey, _, ⟨⟩⟩ := bind_eq_ok.mp found
      rw [List.map_cons, ih (Nat.succ.inj even) each, List.map_cons]

private theorem combineJoin_reads {items : Columns} {before : List Subquery} {right : Subquery}
    {join : Join Relation} (ok : combineJoin items before right = .ok join) :
    join.table = right.tableRef := by
  unfold combineJoin at ok
  split at ok
  · obtain ⟨⟩ := ok
    rfl
  · obtain ⟨on, _, ⟨⟩⟩ := bind_eq_ok.mp ok
    rfl

private theorem combineJoins_reads {items : Columns} {before rest : List Subquery}
    {joins : List (Join Relation)} (ok : combineJoins items before rest = .ok joins) :
    joins.map (·.table) = rest.map Subquery.tableRef := by
  induction rest generalizing before joins with
  | nil =>
      obtain ⟨⟩ := ok
      rfl
  | cons right rest ih =>
      obtain ⟨join, found, ok⟩ := bind_eq_ok.mp ok
      obtain ⟨later, tail, ⟨⟩⟩ := bind_eq_ok.mp ok
      rw [List.map_cons, combineJoin_reads found, ih tail, List.map_cons]

/-- A join succeeds when there is an entity for each joined input and each can be joined. -/
theorem assemble_join_eq_ok {left : Subquery} {rights : List Subquery} {entities : List String}
    {dataSet : DataSet} : assemble (.join entities) (left :: rights) = .ok dataSet ↔
      rights.length = entities.length ∧
        ∃ joined, joinEach left entities rights = .ok joined ∧ joinAll left joined = dataSet := by
  rw [assemble]
  split
  · rename_i even
    rw [map_eq_ok, and_iff_right even]
  · rename_i uneven
    exact ⟨nofun, fun succeeds => (uneven succeeds.1).elim⟩

/-- Every step reads exactly its inputs. -/
theorem assemble_reads {step : Step} {inputs : List Subquery} {dataSet : DataSet}
    (reads : ∀ model, step ≠ .read model) (results : step ≠ .result)
    (ok : assemble step inputs = .ok dataSet) : dataSet.ReadsFrom inputs := by
  cases step with
  | read model => exact (reads model rfl).elim
  | result => exact (results rfl).elim
  | join entities =>
      cases inputs with
      | nil => exact nomatch ok
      | cons left rights =>
          obtain ⟨even, joined, each, rfl⟩ := assemble_join_eq_ok.mp ok
          refine ⟨_, rfl, ?_⟩
          rw [List.map_cons, ← joinEach_reads even each]
          exact congrArg (left.tableRef :: ·) List.map_map
  | combine =>
      cases inputs with
      | nil => exact nomatch ok
      | cons first rest =>
          obtain ⟨joins, found, ok⟩ := bind_eq_ok.mp ok
          obtain ⟨keys, _, ⟨⟩⟩ := bind_eq_ok.mp ok
          refine ⟨_, rfl, ?_⟩
          rw [List.map_cons, ← combineJoins_reads found]
          rfl
  | _ =>
      match inputs with
      | [input] =>
          rw [assemble_singleton (by simp) (by simp)] at ok
          exact ofStep_reads reads (by simp) (by simp) results ok
      | [] | _ :: _ :: _ => exact nomatch ok

end MetricQuery.Sql

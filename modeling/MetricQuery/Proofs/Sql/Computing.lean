import MetricQuery.Proofs.Sql.Contents
import MetricQuery.Proofs.Sql.Reading
import MetricQuery.Sql.Scoping

/-! # What steps compute

The columns of a step are selected under their names and computed from columns of its inputs, and
so is whatever else the step says about rows (`assemble_computes`).
-/

namespace MetricQuery.Sql

/-! ## Expressions over subqueries -/

namespace Expr

/-- Whether an expression reads nothing but columns of some subqueries. -/
def IsOver (inputs : List Subquery) (expr : Expr) : Prop :=
  ∀ read ∈ expr.reads, ∃ input ∈ inputs, ∃ column ∈ input.columns,
    read = ⟨some input.name, column.name⟩

variable {inputs : List Subquery} {expr left right : Expr}

/-- A column of one of the inputs is over them. -/
theorem isOver_column {input : Subquery} (among : input ∈ inputs) {column : Column}
    (held : column ∈ input.columns) : (input.column column.name).IsOver inputs := by
  intro read member
  rw [Subquery.column, columnOf, reads_column, List.mem_singleton] at member
  exact ⟨input, among, column, held, member⟩

/-- What a content is read by from one of the inputs is over them. -/
theorem isOver_columnFor {input : Subquery} (among : input ∈ inputs) {content : ColumnContent}
    (ok : input.columnFor content = .ok expr) : expr.IsOver inputs := by
  obtain ⟨column, found, rfl⟩ := Subquery.columnFor_eq_ok.mp ok
  exact isOver_column among (Columns.of_get? found).1

/-- An expression that reads nothing is over any inputs. -/
theorem isOver_of_reads_eq_nil (none : expr.reads = []) : expr.IsOver inputs := by
  intro read member
  rw [none] at member
  exact nomatch member

/-- Whether an expression is over the inputs depends on what it reads alone. -/
theorem isOver_of_reads_eq {other : Expr} (same : other.reads = expr.reads)
    (isOver : expr.IsOver inputs) : other.IsOver inputs :=
  fun read member => isOver read (same ▸ member)

/-- An operator of two expressions over the inputs is over them. -/
theorem isOver_binary (operator : Operator) (first : left.IsOver inputs)
    (second : right.IsOver inputs) : (binary operator left right).IsOver inputs := by
  intro read member
  rw [reads] at member
  exact (List.mem_append.mp member).elim (first read) (second read)

private theorem isOver_call (function : Function) {arguments : List Expr}
    (each : ∀ argument ∈ arguments, argument.IsOver inputs) :
    (call function arguments).IsOver inputs := by
  intro read member
  rw [reads, readsOf_eq_flatMap] at member
  obtain ⟨argument, among, member⟩ := List.mem_flatMap.mp member
  exact each argument among read member

private theorem isOver_window (function : WindowFunction) {parts order : List Expr}
    (isOver : expr.IsOver inputs) (parted : ∀ part ∈ parts, part.IsOver inputs)
    (ordered : ∀ key ∈ order, key.IsOver inputs) :
    (window function expr parts order).IsOver inputs := by
  intro read member
  rw [reads, readsOf_eq_flatMap, readsOf_eq_flatMap] at member
  rcases List.mem_append.mp member with member | member
  · rcases List.mem_append.mp member with member | member
    · exact isOver read member
    · obtain ⟨part, among, member⟩ := List.mem_flatMap.mp member
      exact parted part among read member
  · obtain ⟨key, among, member⟩ := List.mem_flatMap.mp member
    exact ordered key among read member

private theorem isOver_firstOf {exprs : List Expr} (each : ∀ expr ∈ exprs, expr.IsOver inputs) :
    (firstOf exprs).IsOver inputs := by
  match exprs with
  | [expr] => exact each expr List.mem_cons_self
  | [] | _ :: _ :: _ => exact isOver_call .coalesce each

end Expr

open Sql.Expr

/-- The grains and parts of a time over the inputs are over them. -/
theorem isOver_timeColumns {inputs : List Subquery} {time : Expr} (isOver : time.IsOver inputs)
    (stored : Grain) : ∀ column ∈ timeColumns stored time, column.expr.IsOver inputs := by
  intro column member
  rcases List.mem_append.mp member with truncated | extracted
  · obtain ⟨grain, _, rfl⟩ := List.mem_map.mp truncated
    exact isOver_of_reads_eq (by rw [reads]) isOver
  · obtain ⟨part, _, rfl⟩ := List.mem_map.mp extracted
    exact isOver_of_reads_eq (by rw [reads]) isOver

/-! ## Columns of steps -/

namespace Selection

/-- Whether all columns to select are computed from columns of some subqueries. -/
def IsOver (inputs : List Subquery) (columns : List Selected) : Prop :=
  ∀ selected ∈ columns, selected.expr.IsOver inputs

variable {inputs : List Subquery} {columns others : List Selected}

/-- Two selections over the inputs are over them together. -/
theorem IsOver.append (first : IsOver inputs columns) (second : IsOver inputs others) :
    IsOver inputs (columns ++ others) := fun selected member =>
  (List.mem_append.mp member).elim (first selected) (second selected)

/-- Columns kept from one of the inputs are over them. -/
theorem isOver_keep {input : Subquery} (among : input ∈ inputs) {columns : Columns}
    (held : ∀ column ∈ columns, ∃ source ∈ input.columns, source.name = column.name) :
    IsOver inputs (keep input columns) := by
  intro selected member
  obtain ⟨column, present, rfl⟩ := mem_keep.mp member
  obtain ⟨source, inside, same⟩ := held column present
  rw [kept, ← same]
  exact isOver_column among inside

/-- Some of the columns of one of the inputs, kept, are over them. -/
theorem isOver_keep_of_subset {input : Subquery} (among : input ∈ inputs) {columns : Columns}
    (held : columns ⊆ input.columns) : IsOver inputs (keep input columns) :=
  isOver_keep among fun column member => ⟨column, held member, rfl⟩

/-- All columns of one of the inputs, kept, are over them. -/
theorem isOver_keepAll {input : Subquery} (among : input ∈ inputs) :
    IsOver inputs (keepAll input) := isOver_keep_of_subset among (List.Subset.refl _)

end Selection

/-- The item columns are among the columns. -/
theorem Columns.items_subset (columns : Columns) : columns.items ⊆ columns :=
  fun _ member => (mem_items.mp member).1

/-- Whether a data set is a select of its columns that is computed from columns of some
subqueries. -/
def DataSet.ComputesFrom (dataSet : DataSet) (inputs : List Subquery) : Prop :=
  ∃ statement : Select Relation, dataSet.source = .select statement ∧
    statement.items.map SelectItem.columnName = (dataSet.columns.map Column.name).map some ∧
    ∀ expr ∈ statement.exprs, expr.IsOver inputs

/-- Columns that are selected from a table, completed by clauses that read nothing else. -/
theorem computesFrom_dataSet {inputs : List Subquery} {columns : List Selected}
    {table : TableRef Relation} {complete : Select Relation → Select Relation}
    (isOver : Selection.IsOver inputs columns)
    (items : ∀ statement, (complete statement).items = statement.items)
    (clauses : ∀ expr ∈ (complete (Selection.select (.ofList columns) table)).clauses,
      expr.IsOver inputs) :
    ((Selection.ofList columns).dataSet table complete).ComputesFrom inputs := by
  refine ⟨_, rfl, ?_, fun expr member => ?_⟩
  · rw [items]
    simp only [Selection.select, Select.plain, Selection.dataSet, Selection.columns, List.map_map,
      Function.comp_def]
  · rw [Select.exprs, items] at member
    rcases List.mem_append.mp member with item | clause
    · simp only [Selection.select, Select.plain, List.map_map, List.mem_map,
        Function.comp_apply] at item
      obtain ⟨selected, among, rfl⟩ := item
      exact isOver selected (Selection.mem_of_mem_ofList among)
    · exact clauses expr clause

/-- A plain select computes from the inputs its columns are over. -/
theorem computesFrom_plain {inputs : List Subquery} {columns : List Selected}
    {table : TableRef Relation} (isOver : Selection.IsOver inputs columns) :
    ((Selection.ofList columns).dataSet table id).ComputesFrom inputs :=
  computesFrom_dataSet isOver (fun _ => rfl) nofun

/-- Reading a model computes from its table alone. -/
theorem readModel_computes (model : SemanticModel) (name : String) :
    (readModel model name).ComputesFrom [] := by
  apply computesFrom_plain
  intro selected member
  simp only [modelColumns, List.mem_append, List.mem_flatMap, List.mem_map] at member
  rcases member with (⟨measure, _, rfl⟩ | ⟨entity, _, rfl⟩) | ⟨links, _, dimension, _, column⟩
  · exact isOver_of_reads_eq_nil (by rw [Selection.computed, reads])
  · exact isOver_of_reads_eq_nil (by rw [Selection.computed, reads])
  · have plain : (Expr.raw dimension.sql).IsOver [] := isOver_of_reads_eq_nil (by rw [reads])
    unfold dimensionColumns at column
    split at column
    · obtain ⟨time, among, rfl⟩ := List.mem_map.mp column
      exact isOver_timeColumns plain _ time among
    · rw [List.mem_singleton.mp column]
      exact plain

private theorem addMetricTime_computes {input : Subquery} {dimension : String} {stored : Grain}
    {offset : Option OffsetWindow} {dataSet : DataSet}
    (ok : addMetricTime input dimension stored offset = .ok dataSet) :
    dataSet.ComputesFrom [input] := by
  obtain ⟨time, found, ok⟩ := bind_eq_ok.mp ok
  have among := List.mem_singleton_self input
  have kept := Selection.isOver_keepAll among
  have isOver := isOver_columnFor among found
  cases offset with
  | some window =>
      obtain ⟨⟩ := ok
      apply computesFrom_plain
      refine kept.append fun selected member => ?_
      obtain ⟨column, added, rfl⟩ := List.mem_map.mp member
      exact isOver_timeColumns (isOver_of_reads_eq (by rw [reads]) isOver) stored column added
  | none =>
      obtain ⟨added, computed, ⟨⟩⟩ := bind_eq_ok.mp ok
      apply computesFrom_plain
      refine kept.append fun selected member => ?_
      obtain ⟨column, _, made⟩ := exists_of_mapM_eq_ok computed selected member
      obtain ⟨expr, held, rfl⟩ := map_eq_ok.mp made
      exact isOver_columnFor among held

private theorem metricExpr_isOver {input : Subquery} {formula : MetricFormula} {expr : Expr}
    (ok : metricExpr input formula = .ok expr) : expr.IsOver [input] := by
  have among := List.mem_singleton_self input
  cases formula with
  | measure name => exact isOver_columnFor among ok
  | ratio numerator denominator =>
      obtain ⟨dividend, first, ok⟩ := bind_eq_ok.mp ok
      obtain ⟨divisor, second, ⟨⟩⟩ := bind_eq_ok.mp ok
      apply isOver_binary
      · exact isOver_of_reads_eq (by rw [asDouble, reads]) (isOver_columnFor among first)
      · have same : (call .nullIf [divisor, .literal (.number (.ofInt 0))]).asDouble.reads =
            divisor.reads := by
          simp only [asDouble, reads, readsOf, List.append_nil]
        exact isOver_of_reads_eq same (isOver_columnFor among second)
  | derived sql =>
      obtain ⟨⟩ := ok
      exact isOver_of_reads_eq_nil (by rw [reads])

private theorem aggregate_computes {input : Subquery} {measures : List AggregatedMeasure}
    {dataSet : DataSet} (ok : aggregate input measures = .ok dataSet) :
    dataSet.ComputesFrom [input] := by
  have among := List.mem_singleton_self input
  have items := Selection.isOver_keep_of_subset among input.columns.items_subset
  obtain ⟨computed, done, ⟨⟩⟩ := bind_eq_ok.mp ok
  refine computesFrom_dataSet (items.append fun selected member => ?_) (fun _ => rfl)
    fun expr member => ?_
  · obtain ⟨measure, _, found⟩ := exists_of_mapM_eq_ok done selected member
    obtain ⟨column, held, rfl⟩ := aggregated_eq_ok.mp found
    exact isOver_of_reads_eq (by rw [reads]) (isOver_column among (Columns.of_get? held).1)
  · have grouped : expr ∈ (Selection.keep input input.columns.items).map Selected.expr := by
      simpa [Select.clauses, Selection.select, Select.plain] using member
    obtain ⟨selected, kept, rfl⟩ := List.mem_map.mp grouped
    exact items selected kept

private theorem accumulate_computes {input : Subquery} {order : GroupByItem}
    {parts : List GroupByItem}
    {measures : List AggregatedMeasure} {dataSet : DataSet}
    (ok : accumulate input order parts measures = .ok dataSet) :
    dataSet.ComputesFrom [input] := by
  have among := List.mem_singleton_self input
  obtain ⟨orderExpr, ordered, ok⟩ := bind_eq_ok.mp ok
  obtain ⟨partExprs, parted, ⟨⟩⟩ := bind_eq_ok.mp ok
  apply computesFrom_plain
  intro selected member
  obtain ⟨column, held, rfl⟩ := List.mem_map.mp member
  have plain : (input.column column.name).IsOver [input] := isOver_column among held
  unfold accumulated
  split
  · split
    · refine isOver_window _ plain (fun part member => ?_) fun key member => ?_
      · obtain ⟨item, _, found⟩ := exists_of_mapM_eq_ok parted part member
        exact isOver_columnFor among found
      · rw [List.mem_singleton.mp member]
        exact isOver_columnFor among ordered
    · exact plain
  · exact plain

private theorem ofStep_computes {step : Step} {input : Subquery} {dataSet : DataSet}
    (reads : ∀ model, step ≠ .read model) (joins : ∀ entities, step ≠ .join entities)
    (combines : step ≠ .combine) (results : step ≠ .result)
    (ok : Lower.ofStep input step = .ok dataSet) : dataSet.ComputesFrom [input] := by
  have among := List.mem_singleton_self input
  have all := Selection.isOver_keepAll among
  have items := Selection.isOver_keep_of_subset among input.columns.items_subset
  cases step with
  | read model => exact (reads model rfl).elim
  | join entities => exact (joins entities rfl).elim
  | combine => exact (combines rfl).elim
  | result => exact (results rfl).elim
  | addMetricTime dimension stored offset => exact addMetricTime_computes ok
  | constrain condition =>
      obtain ⟨⟩ := ok
      refine computesFrom_dataSet all (fun _ => rfl) fun expr member => ?_
      rw [List.mem_singleton.mp member]
      exact isOver_of_reads_eq_nil (by rw [Expr.reads])
  | pass contents =>
      obtain ⟨columns, computed, ⟨⟩⟩ := bind_eq_ok.mp ok
      apply computesFrom_plain
      refine Selection.isOver_keep among fun column member => ?_
      obtain ⟨content, _, found⟩ := exists_of_mapM_eq_ok computed column member
      obtain ⟨source, held, rfl⟩ := passed_eq_ok.mp found
      exact ⟨source, (Columns.of_get? held).1, rfl⟩
  | aggregate measures => exact aggregate_computes ok
  | compute output formula =>
      obtain ⟨expr, found, ⟨⟩⟩ := bind_eq_ok.mp ok
      apply computesFrom_plain
      refine items.append fun selected member => ?_
      rw [List.mem_singleton.mp member]
      exact metricExpr_isOver found
  | accumulate order parts measures => exact accumulate_computes ok
  | sort order limit =>
      obtain ⟨orderBy, computed, ⟨⟩⟩ := bind_eq_ok.mp ok
      refine computesFrom_dataSet all (fun _ => rfl) fun expr member => ?_
      obtain ⟨sorted, listed, rfl⟩ := List.mem_map.mp member
      obtain ⟨item, _, found⟩ := exists_of_mapM_eq_ok computed sorted listed
      obtain ⟨⟨column, held, same⟩, rfl⟩ := sortItem_eq_ok.mp found
      exact same ▸ isOver_column among held

/-- The columns that a joined table adds are computed from its own. -/
theorem isOver_joinedColumns {inputs : List Subquery} (entity : String) {right : Subquery}
    (among : right ∈ inputs) : Selection.IsOver inputs (joinedColumns entity right) := by
  intro selected member
  obtain ⟨column, held, made⟩ := List.mem_filterMap.mp member
  obtain ⟨content, _, rfl⟩ := Option.map_eq_some_iff.mp made
  exact isOver_column among held

private theorem join_computes {left : Subquery} {rights : List Subquery} {entities : List String}
    {joined : List Joined} (ok : joinEach left entities rights = .ok joined) :
    (joinAll left joined).ComputesFrom (left :: rights) := by
  have each : ∀ part ∈ joined, part.right ∈ rights ∧
      ∀ expr ∈ part.join.on, expr.IsOver (left :: rights) := by
    intro part member
    obtain ⟨pair, zipped, made⟩ := exists_of_mapM_eq_ok ok part member
    obtain ⟨join, found, rfl⟩ := map_eq_ok.mp made
    have among : pair.2 ∈ rights := (List.of_mem_zip zipped).2
    obtain ⟨leftKey, first, found⟩ := bind_eq_ok.mp found
    obtain ⟨rightKey, second, ⟨⟩⟩ := bind_eq_ok.mp found
    refine ⟨among, fun expr on => ?_⟩
    rw [List.mem_singleton.mp on]
    exact isOver_binary _ (isOver_columnFor List.mem_cons_self first)
      (isOver_columnFor (List.mem_cons_of_mem _ among) second)
  refine computesFrom_dataSet ((Selection.isOver_keepAll List.mem_cons_self).append ?_)
    (fun _ => rfl) fun expr member => ?_
  · intro selected member
    obtain ⟨part, present, added⟩ := List.mem_flatMap.mp member
    exact isOver_joinedColumns _ (List.mem_cons_of_mem _ (each part present).1) selected added
  · have joins : ∃ part ∈ joined, expr ∈ part.join.on := by
      simpa [Select.clauses, Selection.select, Select.plain] using member
    obtain ⟨part, present, on⟩ := joins
    exact (each part present).2 expr on

/-- The first value of an item is over the inputs it is taken from. -/
theorem firstValue_isOver {inputs before : List Subquery} {item : Column} {expr : Expr}
    (among : before ⊆ inputs) (ok : firstValue before item = .ok expr) : expr.IsOver inputs := by
  obtain ⟨values, computed, ⟨⟩⟩ := bind_eq_ok.mp ok
  apply isOver_firstOf
  intro value member
  obtain ⟨input, present, found⟩ := exists_of_mapM_eq_ok computed value member
  exact isOver_columnFor (among present) found

private theorem combineJoins_isOver {items : Columns} {inputs before rest : List Subquery}
    {joins : List (Join Relation)} (earlier : before ⊆ inputs) (later : rest ⊆ inputs)
    (ok : combineJoins items before rest = .ok joins) :
    ∀ join ∈ joins, ∀ expr ∈ join.on, expr.IsOver inputs := by
  induction rest generalizing before joins with
  | nil =>
      obtain ⟨⟩ := ok
      exact nofun
  | cons right rest ih =>
      obtain ⟨first, found, ok⟩ := bind_eq_ok.mp ok
      obtain ⟨others, tail, ⟨⟩⟩ := bind_eq_ok.mp ok
      have among : right ∈ inputs := later List.mem_cons_self
      intro join member
      rcases List.mem_cons.mp member with rfl | member
      · unfold combineJoin at found
        split at found
        · obtain ⟨⟩ := found
          exact nofun
        · obtain ⟨on, computed, ⟨⟩⟩ := bind_eq_ok.mp found
          intro expr present
          obtain ⟨item, _, found⟩ := exists_of_mapM_eq_ok computed expr present
          obtain ⟨leftValue, first, found⟩ := bind_eq_ok.mp found
          obtain ⟨rightValue, second, ⟨⟩⟩ := bind_eq_ok.mp found
          exact isOver_binary _ (firstValue_isOver earlier first) (isOver_columnFor among second)
      · refine ih ?_ (fun _ present => later (List.mem_cons_of_mem _ present)) tail join member
        exact List.append_subset.mpr ⟨earlier, List.cons_subset.mpr ⟨among, List.nil_subset _⟩⟩

private theorem combine_computes {first : Subquery} {rest : List Subquery} {dataSet : DataSet}
    (ok : combine first rest = .ok dataSet) : dataSet.ComputesFrom (first :: rest) := by
  obtain ⟨joins, joined, ok⟩ := bind_eq_ok.mp ok
  obtain ⟨keys, computed, ⟨⟩⟩ := bind_eq_ok.mp ok
  have isOver : Selection.IsOver (first :: rest)
      (keys ++ (first :: rest).flatMap metricColumns) := by
    refine Selection.IsOver.append (fun selected member => ?_) fun selected member => ?_
    · obtain ⟨item, _, made⟩ := exists_of_mapM_eq_ok computed selected member
      obtain ⟨expr, found, rfl⟩ := map_eq_ok.mp made
      exact firstValue_isOver (List.Subset.refl _) found
    · obtain ⟨input, among, metric⟩ := List.mem_flatMap.mp member
      obtain ⟨column, held, _, rfl⟩ := mem_metricColumns.mp metric
      exact isOver_column among held
  refine computesFrom_dataSet isOver (fun _ => rfl) fun expr member => ?_
  have on : ∃ join ∈ joins, expr ∈ join.on := by
    simpa [Select.clauses, Selection.select, Select.plain] using member
  obtain ⟨join, present, on⟩ := on
  exact combineJoins_isOver
    (List.cons_subset.mpr ⟨List.mem_cons_self, List.nil_subset _⟩)
    (List.subset_cons_self _ _) joined join present expr on

/-- Every step selects its columns, computed from columns of its inputs. -/
theorem assemble_computes {step : Step} {inputs : List Subquery} {dataSet : DataSet}
    (reads : ∀ model, step ≠ .read model) (results : step ≠ .result)
    (ok : assemble step inputs = .ok dataSet) : dataSet.ComputesFrom inputs := by
  cases step with
  | read model => exact (reads model rfl).elim
  | result => exact (results rfl).elim
  | join entities =>
      cases inputs with
      | nil => exact nomatch ok
      | cons left rights =>
          obtain ⟨_, joined, each, rfl⟩ := assemble_join_eq_ok.mp ok
          exact join_computes each
  | combine =>
      cases inputs with
      | nil => exact nomatch ok
      | cons first rest => exact combine_computes ok
  | _ =>
      match inputs with
      | [input] =>
          rw [assemble_singleton (by simp) (by simp)] at ok
          exact ofStep_computes reads (by simp) (by simp) results ok
      | [] | _ :: _ :: _ => exact nomatch ok

end MetricQuery.Sql

import Mathlib.Data.List.Forall2
import MetricQuery.Proofs.Collection.Counting
import MetricQuery.Proofs.Collection.Sorting
import MetricQuery.Proofs.Sql.Columns
import MetricQuery.Sql.Rows

/-! # Rows of selects

A select that neither sums up nor sorts gives one row for each row of its joined tables
(`Select.rows_of_plain`), and one that groups by a single expression gives rows with different
values of it (`Select.nodup_value_rows_of_grouped`). Columns of joined rows are read by the name of
their table, whatever is joined later.
-/

namespace MetricQuery

/-- If each member gives a single result, then so does each member of the list, in order. -/
theorem forall₂_flatMap_singleton {α β : Type} {related : α → β → Prop} {compute : α → List β}
    {members : List α}
    (each : ∀ member ∈ members, ∃ result, compute member = [result] ∧ related member result) :
    List.Forall₂ related members (members.flatMap compute) := by
  induction members with
  | nil => exact .nil
  | cons member rest ih =>
      obtain ⟨result, single, holds⟩ := each member List.mem_cons_self
      rw [List.flatMap_cons, single]
      exact .cons holds (ih fun other among => each other (List.mem_cons_of_mem _ among))

namespace Sql

variable {α : Type}

/-! ## Values of joined rows -/

namespace JoinedRow

variable {row : JoinedRow α} {other : Row α} {table column : String} {name : Option String}

/-- In a row of one table the values are that table's. -/
@[simp]
theorem value_singleton : JoinedRow.value [(some table, other)] (some table) column =
    other.value column := by
  rw [value, List.lookup_cons_self]
  rfl

/-- A table joined later has no part in the values of another. -/
theorem value_append_of_ne (different : name ≠ some table) :
    JoinedRow.value (row ++ [(name, other)]) (some table) column =
      row.value (some table) column := by
  have absent : List.lookup (some table) [(name, other)] = none :=
    List.lookup_eq_none_iff.mpr (List.forall_mem_singleton.mpr (bne_iff_ne.mpr different.symm))
  rw [value, List.lookup_append, absent, Option.or_none]
  rfl

/-- A table joined later gives its own values. -/
theorem value_append_self (absent : some table ∉ row.map Prod.fst) :
    JoinedRow.value (row ++ [(some table, other)]) (some table) column = other.value column := by
  have none : List.lookup (some table) row = none :=
    List.lookup_eq_none_iff.mpr fun source member => bne_iff_ne.mpr fun same =>
      absent (same ▸ List.mem_map_of_mem member)
  rw [value, List.lookup_append, none, Option.none_or, List.lookup_cons_self]
  rfl

/-- The first table gives its own values. -/
theorem value_cons_self {rest : JoinedRow α} :
    JoinedRow.value ((some table, other) :: rest) (some table) column = other.value column := by
  rw [value, List.lookup_cons_self]
  rfl

/-- Tables without columns have no values. -/
theorem value_nulls (names : List (Option String)) :
    JoinedRow.value (names.map fun name => (name, ([] : Row α))) (some table) column = none := by
  rw [value]
  induction names with
  | nil => rfl
  | cons first rest ih =>
      rw [List.map_cons, List.lookup_cons]
      split
      · rfl
      · exact ih

end JoinedRow

/-! ## Values of expressions -/

section

variable [DecidableEq α] {database : Database α} {rows : List (JoinedRow α)} {row : JoinedRow α}

/-- A column has the value of its table in the row. -/
@[simp]
theorem Expr.value_columnOf (table column : String) :
    (columnOf table column).value database rows row = row.value (some table) column := rfl

/-- The values of several expressions are the values of each. -/
@[simp]
theorem Expr.values_eq_map (exprs : List Expr) :
    Expr.values database rows exprs row = exprs.map fun expr => expr.value database rows row := by
  induction exprs with
  | nil => rfl
  | cons expr rest ih => rw [Expr.values, ih, List.map_cons]

/-- The first of several expressions that is not null gives the value. -/
theorem Expr.value_firstOf (exprs : List Expr) :
    (firstOf exprs).value database rows row =
      (exprs.map fun expr => expr.value database rows row).findSome? id := by
  have several : (call .coalesce exprs).value database rows row =
      (exprs.map fun expr => expr.value database rows row).findSome? id := by
    rw [Expr.value, values_eq_map, Function.value]
  match exprs with
  | [expr] =>
      rw [firstOf, List.map_singleton, List.findSome?_singleton]
      rfl
  | [] => exact several
  | _ :: _ :: _ => exact several

/-- An equation holds of two values that are the same and not null. -/
theorem Expr.holds_equal {left right : Expr} :
    (binary .equal left right).holds database row = true ↔
      ∃ value, left.value database [] row = some value ∧
        right.value database [] row = some value := by
  rw [holds, Expr.value, Database.equal]
  cases left.value database [] row with
  | none => exact ⟨nofun, nofun⟩
  | some first =>
      cases right.value database [] row with
      | none => exact ⟨nofun, nofun⟩
      | some second =>
          simp only [Option.bind_some, Option.map_some, Option.any_some, database.isTrue_truth,
            decide_eq_true_eq, Option.some.injEq, exists_eq_left']
          exact eq_comm

end

/-- Some of the expressions aggregate when one of them does. -/
@[simp]
theorem Expr.anyAggregates_eq_any (exprs : List Expr) :
    anyAggregates exprs = exprs.any aggregates := by
  induction exprs with
  | nil => rfl
  | cons expr rest ih => rw [anyAggregates, ih, List.any_cons]

/-! ## Rows of selects -/

namespace Select

variable [DecidableEq α] {database : Database α} {statement : Select (List (Row α))}

/-- A select without order and limit gives one row for each of its units. -/
theorem rows_of_unsorted (unsorted : statement.orderBy = []) (unlimited : statement.limit = none) :
    statement.rows database = (statement.units database).map (statement.output database) := by
  have order : sortBy (fun first second => database.compareBy (statement.sortKeys database first)
      (statement.sortKeys database second) != .gt) (statement.units database) =
      statement.units database := by
    refine sortBy_of_pairwise (List.pairwise_of_forall fun first second => ?_)
    rw [sortKeys, sortKeys, unsorted]
    rfl
  rw [rows, order, unlimited]

/-- Without grouping and sorting, each joined row gives one row. -/
theorem rows_of_plain (ungrouped : statement.groupBy = [])
    (scalar : ∀ item ∈ statement.items, item.expr.aggregates = false)
    (unsorted : statement.orderBy = []) (unlimited : statement.limit = none) :
    statement.rows database = (statement.joined database).map fun row =>
      statement.output database (statement.joined database, row) := by
  have plain : statement.isGrouped = false := by
    rw [isGrouped, ungrouped, List.any_eq_false.mpr fun item member => ?_]
    · rfl
    · exact Bool.eq_false_iff.mp (scalar item member)
  rw [rows_of_unsorted unsorted unlimited, units, plain]
  simp only [Bool.false_eq_true, ↓reduceIte, List.map_map, Function.comp_def]

/-- Groups by a single expression have different values of it. -/
theorem nodup_value_rows_of_grouped {expr : Expr} {column : String}
    (grouped : statement.groupBy = [expr])
    (computed : ∀ rows row, (statement.output database (rows, row)).value column =
      expr.value database [] row)
    (unsorted : statement.orderBy = []) (unlimited : statement.limit = none) :
    ((statement.rows database).map (Row.value · column)).Nodup := by
  have isGrouped : statement.isGrouped = true := by
    rw [isGrouped, grouped]
    rfl
  let keys := (statement.joined database).map (Expr.values database [] [expr])
  let group (key : List (Option α)) := (statement.joined database).filter fun row =>
    Expr.values database [] [expr] row = key
  have groups : statement.groups database = keys.eraseDups.map group := by
    rw [Select.groups, grouped]
    rfl
  have rows : (statement.rows database).map (Row.value · column) =
      keys.eraseDups.map fun key => expr.value database [] ((group key).headD []) := by
    rw [rows_of_unsorted unsorted unlimited, units, isGrouped, if_pos rfl, groups, List.map_map,
      List.map_map, List.map_map]
    exact List.map_congr_left fun key _ => computed _ _
  -- the first row of a group has the value that the group is for
  have first : ∀ key ∈ keys, [expr.value database [] ((group key).headD [])] = key := by
    intro key member
    obtain ⟨row, among, same⟩ := List.mem_map.mp member
    have inGroup : row ∈ group key := List.mem_filter.mpr ⟨among, decide_eq_true same⟩
    obtain ⟨head, rest, split⟩ := List.exists_cons_of_ne_nil (List.ne_nil_of_mem inGroup)
    have inside : head ∈ group key := split ▸ List.mem_cons_self
    have same : Expr.values database [] [expr] head = key :=
      of_decide_eq_true (List.mem_filter.mp inside).2
    rw [split, List.headD_cons, ← same, Expr.values_eq_map, List.map_singleton]
  rw [rows]
  refine (nodup_eraseDups keys).map_on fun key member other among same => ?_
  rw [← first key (List.mem_eraseDups.mp member), ← first other (List.mem_eraseDups.mp among), same]

end Select

/-! ## Columns of selects -/

namespace Selection

/-- Whatever tells no columns apart that hold the same is found among those that are selected as
among all. -/
theorem find?_ofList_of_alike {columns : List Selected} {wanted : Selected → Bool}
    (alike : ∀ selected ∈ columns, ∀ other ∈ columns,
      selected.column.content = other.column.content → wanted selected = wanted other) :
    (ofList columns).find? wanted = columns.find? wanted := by
  suffices ∀ kept : List Selected,
      (∀ selected ∈ kept, ∀ other ∈ columns,
        selected.column.content = other.column.content → wanted selected = wanted other) →
      (columns.foldl add kept).find? wanted = (kept ++ columns).find? wanted from this [] nofun
  induction columns with
  | nil => exact fun kept _ => by rw [List.foldl_nil, List.append_nil]
  | cons first rest ih =>
      intro kept keptAlike
      have ih := ih fun selected member other among =>
        alike selected (.tail _ member) other (.tail _ among)
      rw [List.foldl_cons, add]
      split
      · rename_i repeated
        rw [ih kept fun selected member other among =>
          keptAlike selected member other (.tail _ among), List.find?_append, List.find?_append,
          List.find?_cons]
        split
        · rename_i isFirst
          -- what is repeated is wanted as well
          obtain ⟨selected, member, same⟩ := List.any_eq_true.mp repeated
          have found : (kept.find? wanted).isSome = true := by
            refine List.find?_isSome.mpr ⟨selected, member, ?_⟩
            rw [keptAlike selected member first List.mem_cons_self (beq_iff_eq.mp same), isFirst]
          obtain ⟨other, found⟩ := Option.isSome_iff_exists.mp found
          rw [found, Option.some_or, Option.some_or]
        · rfl
      · rw [ih, List.append_assoc, List.singleton_append]
        refine List.forall_mem_append.mpr ⟨fun selected member other among =>
          keptAlike selected member other (.tail _ among), ?_⟩
        exact List.forall_mem_singleton.mpr fun other among =>
          alike first List.mem_cons_self other (.tail _ among)

/-- A column is found by its name among those that are selected as among all. -/
theorem find?_ofList {columns : List Selected}
    (named : ∀ selected ∈ columns, selected.column.name = selected.column.content.columnName)
    (name : String) :
    (ofList columns).find? (·.column.name == name) = columns.find? (·.column.name == name) := by
  refine find?_ofList_of_alike fun selected member other among same => ?_
  rw [named selected member, named other among, same]

variable [DecidableEq α] {database : Database α} {selection : Selection}
  {rows : List (JoinedRow α)} {row : JoinedRow α}

/-- What a selection makes of a row, which is one of some rows. -/
def output (database : Database α) (selection : Selection) (rows : List (JoinedRow α))
    (row : JoinedRow α) : Row α :=
  selection.map fun selected => (selected.column.name, selected.expr.value database rows row)

/-- A row of a selection has the value of the first column with that name. -/
theorem value_output (name : String) : (selection.output database rows row).value name =
    (selection.find? (·.column.name == name)).bind fun selected =>
      selected.expr.value database rows row := by
  rw [Selection.output, Row.value]
  induction selection with
  | nil => rfl
  | cons first rest ih =>
      rw [List.map_cons, List.lookup_cons, List.find?_cons, BEq.comm]
      cases first.column.name == name
      · exact ih
      · rfl

/-- The first column has the value of its expression. -/
theorem value_output_head (first : Selected) (rest : List Selected) :
    ((ofList (first :: rest)).output database rows row).value first.column.name =
      first.expr.value database rows row := by
  obtain ⟨added, same, _⟩ :
      ∃ added, ofList ([first] ++ rest) = [first] ++ added ∧ added ⊆ rest :=
    exists_ofList_append (List.nodup_singleton _)
  rw [List.singleton_append, List.singleton_append] at same
  rw [value_output, same, List.find?_cons, beq_self_eq_true]
  rfl

/-- A column of a table that is kept has the value that it has there. -/
theorem value_output_kept {input : Subquery} {added : List Selected} {column : Column}
    (named : input.columns.AreNamed)
    (addedNamed : ∀ selected ∈ added,
      selected.column.name = selected.column.content.columnName)
    (member : column ∈ input.columns) :
    ((ofList (keepAll input ++ added)).output database rows row).value column.name =
      row.value (some input.name) column.name := by
  have allNamed : ∀ selected ∈ keepAll input ++ added,
      selected.column.name = selected.column.content.columnName :=
    List.forall_mem_append.mpr ⟨named_keep named, addedNamed⟩
  have some : ((keepAll input).find? (·.column.name == column.name)).isSome = true :=
    List.find?_isSome.mpr ⟨kept input column, List.mem_map_of_mem member, beq_self_eq_true _⟩
  obtain ⟨selected, found⟩ := Option.isSome_iff_exists.mp some
  obtain ⟨other, _, rfl⟩ := List.mem_map.mp (List.mem_of_find?_eq_some found)
  have same := List.find?_some found
  rw [value_output, find?_ofList allNamed, List.find?_append, found]
  exact congrArg (row.value (Option.some input.name)) (beq_iff_eq.mp same)

end Selection

/-! ## Data sets -/

/-- Whether a data set has exactly one row for each row of another one, in order, with all columns
of the other one as they are. -/
structure DataSet.Completes [DecidableEq α] (database : Database α) (dataSet source : DataSet) :
    Prop where
  columns : source.columns ⊆ dataSet.columns
  rows : List.Forall₂ (fun row after => ∀ column ∈ source.columns,
      Row.value after column.name = row.value column.name)
    (source.source.rows database) (dataSet.source.rows database)

section

variable [DecidableEq α] {database : Database α} {columns : List Selected}
  {table : TableRef Relation} {joins : List (Join Relation)}

/-- A join with the rows of its table. -/
def Join.withRows (database : Database α) (join : Join Relation) : Join (List (Row α)) :=
  ⟨join.kind, ⟨join.table.source.rows database, join.table.name⟩, join.on⟩

/-- The rows of a table, joined with others. -/
def TableRef.joined (database : Database α) (table : TableRef Relation)
    (joins : List (Join Relation)) : List (JoinedRow α) :=
  joinRows database [table.name] ((table.source.rows database).map fun row => [(table.name, row)])
    (joins.map (Join.withRows database))

/-- A select of a selection gives the selection's rows. -/
theorem Select.output_eq {σ : Type} {statement : Select σ} {selection : Selection}
    (items : statement.items = selection.map fun selected =>
      ⟨selected.expr, some selected.column.name⟩) (rows : List (JoinedRow α))
    (row : JoinedRow α) :
    statement.output database (rows, row) = selection.output database rows row := by
  rw [output, items, List.map_map]
  rfl

/-- Columns that sum nothing up are computed row by row. -/
theorem rows_of_ofList (scalar : ∀ selected ∈ columns, selected.expr.aggregates = false) :
    ((Selection.ofList columns).dataSet table fun select =>
      { select with joins }).source.rows database =
      (table.joined database joins).map
        ((Selection.ofList columns).output database (table.joined database joins)) := by
  let statement := Select.mapSources (Relation.rows database)
    { (Selection.ofList columns).select table with joins }
  have joined : statement.joined database = table.joined database joins :=
    List.filter_eq_self.mpr fun _ _ => rfl
  have each : ∀ item ∈ statement.items, item.expr.aggregates = false := by
    intro item member
    obtain ⟨selected, among, rfl⟩ := List.mem_map.mp member
    exact scalar selected (Selection.mem_of_mem_ofList among)
  rw [Selection.dataSet, Relation.rows_select]
  change statement.rows database = _
  rw [Select.rows_of_plain rfl each rfl rfl, joined]
  exact List.map_congr_left fun row _ => Select.output_eq rfl _ row

/-- Columns of a single table that sum nothing up are computed row by row. -/
theorem rows_of_ofList_single (scalar : ∀ selected ∈ columns, selected.expr.aggregates = false) :
    ((Selection.ofList columns).dataSet table id).source.rows database =
      (table.source.rows database).map fun row => (Selection.ofList columns).output database
        (table.joined database []) [(table.name, row)] := by
  have joined : table.joined database [] =
      (table.source.rows database).map fun row => [(table.name, row)] := rfl
  have rows : ((Selection.ofList columns).dataSet table id).source.rows database =
      (table.joined database []).map
        ((Selection.ofList columns).output database (table.joined database [])) :=
    rows_of_ofList scalar
  rw [rows, joined, List.map_map]
  rfl

end

end Sql

end MetricQuery

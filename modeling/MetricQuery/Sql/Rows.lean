import MetricQuery.Collection.Basic
import MetricQuery.Sql.Scoping

/-! # Rows of relations

What SQL says that a relation gives over a database (`Relation.rows`). What values are and what
functions make of them is left to the database; a value is null or something. Joins, conditions,
groups and the sorting of rows are spelled out: two values are equal only if neither is null, a row
without a partner in an outer join is completed by nulls, and in a group all nulls are alike.
-/

namespace MetricQuery.Sql

/-- A row: its columns in order, each with its name and its value, which may be null. -/
abbrev Row (α : Type) : Type := List (String × Option α)

/-- Rows of several tables side by side, each under the name of its table. -/
abbrev JoinedRow (α : Type) : Type := List (Option String × Row α)

/-- Stored tables, and the meaning of what is not spelled out here. -/
structure Database (α : Type) where
  /-- The rows of a table. -/
  stored : String → List (Row α)
  /-- SQL that stays as it is, computed from the rows in view. -/
  raw : String → JoinedRow α → Option α
  literal : Json → Option α
  cast : String → Option α → Option α
  /-- An operator apart from equality. -/
  operate : Operator → Option α → Option α → Option α
  aggregate : Aggregation → List (Option α) → Option α
  truncate : Grain → Option α → Option α
  extract : DatePart → Option α → Option α
  shift : OffsetWindow → Option α → Option α
  accumulate : WindowFunction → List (Option α) → Option α
  /-- How values are sorted. -/
  compare : Option α → Option α → Ordering
  truth : Bool → α
  isTrue : α → Bool
  isTrue_truth : ∀ value, isTrue (truth value) = value

variable {α : Type}

/-! ## Columns -/

/-- The value of the first column of a name, null if there is none. -/
def Row.value (row : Row α) (name : String) : Option α := (row.lookup name).join

/-- The value of a column of a table. Without a table, it is the first column of the name. -/
def JoinedRow.value (row : JoinedRow α) (table : Option String) (name : String) : Option α :=
  match table with
  | some table => (row.lookup (some table)).bind (Row.value · name)
  | none => (row.findSome? fun source => source.2.lookup name).join

/-! ## Expressions -/

/-- How rows compare that are sorted by some values, each perhaps backwards. -/
def Database.compareBy (database : Database α) :
    (left right : List (Option α × Bool)) → Ordering
  | (first, backwards) :: rest, (second, _) :: others =>
    let compared := database.compare first second
    (if backwards then compared.swap else compared).then (database.compareBy rest others)
  | _, _ => .eq

section

variable [DecidableEq α] (database : Database α)

/-- Whether two values are equal, null if one of them is. -/
def Database.equal (left right : Option α) : Option α :=
  left.bind fun first => right.map fun second => database.truth (decide (first = second))

/-- The value of a function at the values of its arguments. -/
def Function.value : Function → List (Option α) → Option α
  | .coalesce, values => values.findSome? id
  | .nullIf, [value, other] => if value = other then none else value
  | .nullIf, _ => none

mutual

/-- The value of an expression at a row, which is one of some rows to aggregate or to accumulate. -/
def Expr.value (rows : List (JoinedRow α)) : Expr → JoinedRow α → Option α
  | .column table name, row => row.value table name
  | .literal value, _ => database.literal value
  | .raw sql, row => database.raw sql row
  | .call function arguments, row => function.value (Expr.values rows arguments row)
  | .cast expr type, row => database.cast type (expr.value rows row)
  | .binary .equal left right, row =>
    database.equal (left.value rows row) (right.value rows row)
  | .binary operator left right, row =>
    database.operate operator (left.value rows row) (right.value rows row)
  | .aggregate aggregation expr, _ =>
    database.aggregate aggregation (rows.map fun row => expr.value rows row)
  | .truncate grain expr, row => database.truncate grain (expr.value rows row)
  | .extract part expr, row => database.extract part (expr.value rows row)
  | .shift expr offset, row => database.shift offset (expr.value rows row)
  | .window function expr parts order, row =>
    let keys (row : JoinedRow α) := (Expr.values rows order row).map (·, false)
    let upTo := rows.filter fun other =>
      Expr.values rows parts other = Expr.values rows parts row &&
        database.compareBy (keys other) (keys row) != .gt
    database.accumulate function (upTo.map fun other => expr.value rows other)

def Expr.values (rows : List (JoinedRow α)) : List Expr → JoinedRow α → List (Option α)
  | [], _ => []
  | expr :: rest, row => expr.value rows row :: Expr.values rows rest row

end

/-- Whether a condition holds of a row: null is not enough. -/
def Expr.holds (condition : Expr) (row : JoinedRow α) : Bool :=
  (condition.value database [] row).any database.isTrue

end

mutual

/-- Whether an expression sums rows up. -/
def Expr.aggregates : Expr → Bool
  | .column _ _ => false
  | .literal _ => false
  | .raw _ => false
  | .call _ arguments => Expr.anyAggregates arguments
  | .cast expr _ => expr.aggregates
  | .binary _ left right => left.aggregates || right.aggregates
  | .aggregate _ _ => true
  | .truncate _ expr => expr.aggregates
  | .extract _ expr => expr.aggregates
  | .shift expr _ => expr.aggregates
  | .window _ expr parts order =>
    expr.aggregates || Expr.anyAggregates parts || Expr.anyAggregates order

def Expr.anyAggregates : List Expr → Bool
  | [] => false
  | expr :: rest => expr.aggregates || Expr.anyAggregates rest

end

section

variable [DecidableEq α] (database : Database α)

/-! ## Joins -/

namespace Join

variable (join : Join (List (Row α)))

/-- A row together with one of the table that is joined, or with nulls. -/
def extend (row : JoinedRow α) (other : Row α) : JoinedRow α := row ++ [(join.table.name, other)]

/-- Whether two rows meet the conditions of a join. -/
def meets (row : JoinedRow α) (other : Row α) : Bool :=
  join.on.all fun condition => condition.holds database (join.extend row other)

/-- A row with each of its partners, or with nulls if there is none. -/
def outer (row : JoinedRow α) : List (JoinedRow α) :=
  match join.table.source.filter (join.meets database row) with
  | [] => [join.extend row []]
  | others => others.map (join.extend row)

/-- The rows of a table without a partner among some rows, behind nulls for the tables there. -/
def unmatched (names : List (Option String)) (rows : List (JoinedRow α)) : List (JoinedRow α) :=
  let others := join.table.source.filter fun other => !rows.any (join.meets database · other)
  others.map (join.extend (names.map (·, [])))

/-- Rows of tables of some names, joined with a further table. -/
def rows (names : List (Option String)) (rows : List (JoinedRow α)) : List (JoinedRow α) :=
  match join.kind with
  | .cross => rows.flatMap fun row => join.table.source.map (join.extend row)
  | .left => rows.flatMap (join.outer database)
  | .fullOuter => rows.flatMap (join.outer database) ++ join.unmatched database names rows

end Join

/-- Rows of tables of some names, joined with one table after the other. -/
def joinRows : (names : List (Option String)) → List (JoinedRow α) →
    List (Join (List (Row α))) → List (JoinedRow α)
  | _, rows, [] => rows
  | names, rows, join :: rest =>
    joinRows (names ++ [join.table.name]) (join.rows database names rows) rest

/-! ## Selects -/

namespace Select

variable (statement : Select (List (Row α)))

/-- The rows of all tables, joined, that meet all conditions. -/
def joined : List (JoinedRow α) :=
  let first := statement.source.source.map fun row => [(statement.source.name, row)]
  (joinRows database [statement.source.name] first statement.joins).filter fun row =>
    statement.filters.all fun condition => condition.holds database row

/-- Whether rows are summed up. -/
def isGrouped {σ : Type} (statement : Select σ) : Bool :=
  !statement.groupBy.isEmpty || statement.items.any (·.expr.aggregates)

/-- Rows that agree on what they are grouped by; without that, all rows. -/
def groups : List (List (JoinedRow α)) :=
  let rows := statement.joined database
  if statement.groupBy.isEmpty then [rows]
  else
    let keys := rows.map (Expr.values database [] statement.groupBy)
    keys.eraseDups.map fun key =>
      rows.filter fun row => Expr.values database [] statement.groupBy row = key

/-- What becomes one row of the result each: some rows, and one of them. -/
def units : List (List (JoinedRow α) × JoinedRow α) :=
  if statement.isGrouped then (statement.groups database).map fun group => (group, group.headD [])
  else
    let rows := statement.joined database
    rows.map (rows, ·)

/-- What is compared to sort a row of the result. -/
def sortKeys {σ : Type} (statement : Select σ) (unit : List (JoinedRow α) × JoinedRow α) :
    List (Option α × Bool) :=
  statement.orderBy.map fun item => (item.expr.value database unit.1 unit.2, item.descending)

/-- The row a select gives for one of its units. -/
def output {σ : Type} (statement : Select σ) (unit : List (JoinedRow α) × JoinedRow α) : Row α :=
  statement.items.map fun item =>
    (item.columnName.getD "", item.expr.value database unit.1 unit.2)

/-- The rows that a select gives. -/
def rows : List (Row α) :=
  let precedes first second :=
    database.compareBy (statement.sortKeys database first) (statement.sortKeys database second) !=
      .gt
  let sorted := sortBy precedes (statement.units database)
  let kept := match statement.limit with
    | none => sorted
    | some limit => sorted.take limit
  kept.map (statement.output database)

end Select

/-- The rows that a relation gives. -/
def Relation.rows (relation : Relation) : List (Row α) :=
  relation.fold database.stored (Select.rows database)

/-- A stored table has the rows stored under its name. -/
@[simp]
theorem Relation.rows_table (name : String) : (table name).rows database = database.stored name :=
  fold_table ..

/-- A select has its rows over those of its sources. -/
@[simp]
theorem Relation.rows_select (statement : Select Relation) :
    (select statement).rows database =
      (statement.mapSources (Relation.rows database)).rows database :=
  fold_select ..

end

end MetricQuery.Sql

import Mathlib.Logic.Function.Iterate
import MetricQuery.Sql.Statement
import MetricQuery.Text.Basic

/-! # Inlining and renaming

What a statement says without its common table expressions, and without the names of its
subqueries. Reading a common table expression by its name is replaced by the expression itself
(`Statement.inlined`). The positional form of a relation calls every table of a select by its place
among the tables of that select (`Relation.positional`): two relations have the same positional
form exactly if they differ in the names of their subqueries alone.
-/

namespace MetricQuery.Sql

/-! ## Renaming tables -/

mutual

/-- The same expression over tables with other names. -/
def Expr.rename (naming : String → String) : Expr → Expr
  | .column table name => .column (table.map naming) name
  | .literal value => .literal value
  | .raw sql => .raw sql
  | .call function arguments => .call function (Expr.renameAll naming arguments)
  | .cast expr type => .cast (expr.rename naming) type
  | .binary operator left right => .binary operator (left.rename naming) (right.rename naming)
  | .aggregate aggregation expr => .aggregate aggregation (expr.rename naming)
  | .truncate grain expr => .truncate grain (expr.rename naming)
  | .extract part expr => .extract part (expr.rename naming)
  | .shift expr offset => .shift (expr.rename naming) offset
  | .window function expr parts order =>
    .window function (expr.rename naming) (Expr.renameAll naming parts)
      (Expr.renameAll naming order)

def Expr.renameAll (naming : String → String) : List Expr → List Expr
  | [] => []
  | expr :: rest => expr.rename naming :: Expr.renameAll naming rest

end

/-- Expressions are renamed one by one. -/
@[simp]
theorem Expr.renameAll_eq_map (naming : String → String) (exprs : List Expr) :
    Expr.renameAll naming exprs = exprs.map (Expr.rename naming) := by
  induction exprs with
  | nil => rfl
  | cons expr rest ih => rw [Expr.renameAll, ih, List.map_cons]

/-- Raw text is not renamed. -/
@[simp]
theorem Expr.rename_raw (naming : String → String) (sql : String) :
    (Expr.raw sql).rename naming = .raw sql := by
  rw [Expr.rename]

namespace Select

variable {σ τ υ : Type}

/-- The tables of a select, in order. -/
def tables (statement : Select σ) : List (TableRef σ) :=
  statement.source :: statement.joins.map (·.table)

/-- What the tables of a select read, in order. -/
def sources (statement : Select σ) : List σ := statement.tables.map (·.source)

/-- The names of the tables of a select, in order. -/
def tableNames (statement : Select σ) : List String := statement.tables.filterMap (·.name)

/-- The same select over other sources. -/
def mapSources (change : σ → τ) (statement : Select σ) : Select τ where
  items := statement.items
  source := ⟨change statement.source.source, statement.source.name⟩
  joins := statement.joins.map fun join =>
    ⟨join.kind, ⟨change join.table.source, join.table.name⟩, join.on⟩
  filters := statement.filters
  groupBy := statement.groupBy
  orderBy := statement.orderBy
  limit := statement.limit

/-- The same select with other names of its tables, wherever it uses them. -/
def rename (naming : String → String) (statement : Select σ) : Select σ where
  items := statement.items.map fun item => ⟨item.expr.rename naming, item.columnName⟩
  source := ⟨statement.source.source, statement.source.name.map naming⟩
  joins := statement.joins.map fun join =>
    ⟨join.kind, ⟨join.table.source, join.table.name.map naming⟩,
      join.on.map (Expr.rename naming)⟩
  filters := statement.filters.map (Expr.rename naming)
  groupBy := statement.groupBy.map (Expr.rename naming)
  orderBy := statement.orderBy.map fun item => ⟨item.expr.rename naming, item.descending⟩
  limit := statement.limit

/-- How a table is called by its place among some names. A name that is none of them keeps its
spelling, behind a word that no place begins with. -/
def placeName (names : List String) (name : String) : String :=
  if name ∈ names then Text.decimal (names.idxOf name) else "unbound " ++ name

/-- The same select with each of its tables called by its place. -/
def positional (statement : Select σ) : Select σ :=
  statement.rename (placeName statement.tableNames)

/-- Changing the sources of a select changes each. -/
@[simp]
theorem sources_mapSources (change : σ → τ) (statement : Select σ) :
    (statement.mapSources change).sources = statement.sources.map change := by
  simp only [sources, tables, mapSources, List.map_cons, List.map_map, Function.comp_def]

/-- Renaming keeps the sources. -/
@[simp]
theorem sources_rename (naming : String → String) (statement : Select σ) :
    (statement.rename naming).sources = statement.sources := by
  simp only [sources, tables, rename, List.map_cons, List.map_map, Function.comp_def]

/-- Numbering the tables keeps the sources. -/
@[simp]
theorem sources_positional (statement : Select σ) :
    statement.positional.sources = statement.sources := sources_rename _ _

/-- Changing the sources keeps the names of the tables. -/
@[simp]
theorem tableNames_mapSources (change : σ → τ) (statement : Select σ) :
    (statement.mapSources change).tableNames = statement.tableNames := by
  simp only [tableNames, tables, mapSources, List.filterMap_cons, List.map_map,
    List.filterMap_map, Function.comp_def]

/-- Two changes of the sources are one. -/
@[simp]
theorem mapSources_mapSources (change : σ → τ) (further : τ → υ) (statement : Select σ) :
    (statement.mapSources change).mapSources further =
      statement.mapSources (further ∘ change) := by
  simp only [mapSources, List.map_map, Function.comp_def]

/-- No change of the sources is none. -/
@[simp]
theorem mapSources_id (statement : Select σ) : statement.mapSources id = statement := by
  simp only [mapSources, id_eq, List.map_id_fun']

/-- Changes that agree on the sources are the same. -/
theorem mapSources_congr {change further : σ → τ} {statement : Select σ}
    (same : ∀ source ∈ statement.sources, change source = further source) :
    statement.mapSources change = statement.mapSources further := by
  have first : change statement.source.source = further statement.source.source :=
    same _ List.mem_cons_self
  have others : ∀ join ∈ statement.joins,
      change join.table.source = further join.table.source := fun join member =>
    same _ (List.mem_map_of_mem (List.mem_cons_of_mem _ (List.mem_map_of_mem member)))
  simp only [mapSources, first, mk.injEq, true_and, and_true]
  exact List.map_congr_left fun join member => by rw [others join member]

end Select

/-! ## Rebuilding relations -/

mutual

/-- Rebuilds a relation from the inside to the outside: tables by `leaf`, and selects, over their
rebuilt sources, by `finish`. -/
def Relation.rebuild (leaf : String → Relation) (finish : Select Relation → Select Relation) :
    Relation → Relation
  | .table name => leaf name
  | .select statement => .select (finish (rebuildSelect leaf finish statement))

def rebuildSelect (leaf : String → Relation) (finish : Select Relation → Select Relation) :
    Select Relation → Select Relation
  | ⟨items, source, joins, filters, groupBy, orderBy, limit⟩ =>
    ⟨items, rebuildTable leaf finish source, rebuildJoins leaf finish joins, filters, groupBy,
      orderBy, limit⟩

def rebuildTable (leaf : String → Relation) (finish : Select Relation → Select Relation) :
    TableRef Relation → TableRef Relation
  | ⟨source, name⟩ => ⟨source.rebuild leaf finish, name⟩

def rebuildJoin (leaf : String → Relation) (finish : Select Relation → Select Relation) :
    Join Relation → Join Relation
  | ⟨kind, table, on⟩ => ⟨kind, rebuildTable leaf finish table, on⟩

def rebuildJoins (leaf : String → Relation) (finish : Select Relation → Select Relation) :
    List (Join Relation) → List (Join Relation)
  | [] => []
  | join :: rest => rebuildJoin leaf finish join :: rebuildJoins leaf finish rest

end

mutual

/-- The names of the tables that a relation reads, in order, each as often as it is read. -/
def Relation.tables : Relation → List String
  | .table name => [name]
  | .select statement => tablesOfSelect statement

def tablesOfSelect : Select Relation → List String
  | ⟨_, source, joins, _, _, _, _⟩ => tablesOfTable source ++ tablesOfJoins joins

def tablesOfTable : TableRef Relation → List String
  | ⟨source, _⟩ => source.tables

def tablesOfJoin : Join Relation → List String
  | ⟨_, table, _⟩ => tablesOfTable table

def tablesOfJoins : List (Join Relation) → List String
  | [] => []
  | join :: rest => tablesOfJoin join ++ tablesOfJoins rest

end

namespace Relation

/-- Every relation is built from tables by selects. -/
theorem inductionOn {motive : Relation → Prop} (table : ∀ name, motive (.table name))
    (select : ∀ statement : Select Relation,
      (∀ source ∈ statement.sources, motive source) → motive (.select statement)) :
    ∀ relation, motive relation := by
  intro relation
  refine @Relation.rec motive
    (fun statement => ∀ source ∈ statement.sources, motive source)
    (fun ref => motive ref.source)
    (fun joins => ∀ join ∈ joins, motive join.table.source)
    (fun join => motive join.table.source)
    ?_ ?_ ?_ ?_ ?_ ?_ ?_ relation
  · exact table
  · exact fun statement sources => select statement sources
  · intro items source joins filters groupBy orderBy limit first others member reached
    obtain ⟨read, among, rfl⟩ := List.mem_map.mp reached
    rcases List.mem_cons.mp among with rfl | later
    · exact first
    · obtain ⟨join, present, rfl⟩ := List.mem_map.mp later
      exact others join present
  · exact fun source name reached => reached
  · exact fun join member => (List.not_mem_nil member).elim
  · intro join rest first others member present
    rcases List.mem_cons.mp present with rfl | later
    · exact first
    · exact others member later
  · exact fun kind table on reached => reached

end Relation

private theorem rebuildJoins_eq_map (leaf : String → Relation)
    (finish : Select Relation → Select Relation) (joins : List (Join Relation)) :
    rebuildJoins leaf finish joins = joins.map fun join =>
      ⟨join.kind, ⟨join.table.source.rebuild leaf finish, join.table.name⟩, join.on⟩ := by
  induction joins with
  | nil => rfl
  | cons join rest ih =>
      obtain ⟨kind, ⟨source, name⟩, on⟩ := join
      rw [rebuildJoins, ih, rebuildJoin, rebuildTable, List.map_cons]

namespace Relation

variable {leaf : String → Relation} {finish : Select Relation → Select Relation}

/-- A stored table is rebuilt as given. -/
@[simp]
theorem rebuild_table (name : String) : (table name).rebuild leaf finish = leaf name := by
  rw [rebuild]

/-- A select is rebuilt from its sources and then finished. -/
@[simp]
theorem rebuild_select (statement : Select Relation) :
    (select statement).rebuild leaf finish =
      select (finish (statement.mapSources (rebuild leaf finish))) := by
  obtain ⟨items, ⟨source, name⟩, joins, filters, groupBy, orderBy, limit⟩ := statement
  rw [rebuild, rebuildSelect, rebuildTable, rebuildJoins_eq_map]
  rfl

end Relation

private theorem tablesOfJoins_eq_flatMap (joins : List (Join Relation)) :
    tablesOfJoins joins = (joins.map (·.table.source)).flatMap Relation.tables := by
  induction joins with
  | nil => rfl
  | cons join rest ih =>
      obtain ⟨kind, ⟨source, name⟩, on⟩ := join
      rw [tablesOfJoins, ih, tablesOfJoin, tablesOfTable, List.map_cons, List.flatMap_cons]

namespace Relation

/-- A stored table reads itself. -/
@[simp]
theorem tables_table (name : String) : (table name).tables = [name] := by
  rw [tables]

/-- A select reads what its sources read. -/
@[simp]
theorem tables_select (statement : Select Relation) :
    (select statement).tables = statement.sources.flatMap tables := by
  obtain ⟨items, ⟨source, name⟩, joins, filters, groupBy, orderBy, limit⟩ := statement
  rw [tables, tablesOfSelect, tablesOfTable, tablesOfJoins_eq_flatMap, Select.sources,
    Select.tables, List.map_cons, List.flatMap_cons, List.map_map]
  rfl

/-- The relation with each table of each select called by its place in it. -/
def positional (relation : Relation) : Relation := relation.rebuild table Select.positional

/-- A stored table has nothing to number. -/
@[simp]
theorem positional_table (name : String) : (table name).positional = table name :=
  rebuild_table name

/-- A select is numbered in its sources and in itself. -/
@[simp]
theorem positional_select (statement : Select Relation) :
    (select statement).positional = select (statement.mapSources positional).positional :=
  rebuild_select statement

/-- Names of subqueries do not count among the tables that are read. -/
@[simp]
theorem tables_positional (relation : Relation) : relation.positional.tables = relation.tables := by
  induction relation using inductionOn with
  | table name => rw [positional_table]
  | select statement ih =>
      rw [positional_select, tables_select, Select.sources_positional, Select.sources_mapSources,
        tables_select, List.flatMap_map]
      exact congrArg List.flatten (List.map_congr_left ih)

/-- Replaces every table that is named like one of the given common table expressions by the
expression. -/
def replaceCtes (ctes : List Cte) (relation : Relation) : Relation :=
  relation.rebuild (fun name => ((ctes.find? (·.name == name)).map Cte.body).getD (table name)) id

/-- A common table expression is replaced by its body, any other table stays. -/
theorem replaceCtes_table (ctes : List Cte) (name : String) :
    (table name).replaceCtes ctes =
      ((ctes.find? (·.name == name)).map Cte.body).getD (table name) :=
  rebuild_table name

/-- In a select the sources are replaced. -/
theorem replaceCtes_select (ctes : List Cte) (statement : Select Relation) :
    (select statement).replaceCtes ctes = select (statement.mapSources (replaceCtes ctes)) :=
  rebuild_select statement

/-- However often, in a select the sources are replaced. -/
theorem iterate_replaceCtes_select (ctes : List Cte) (rounds : Nat)
    (statement : Select Relation) :
    (replaceCtes ctes)^[rounds] (select statement) =
      select (statement.mapSources (replaceCtes ctes)^[rounds]) := by
  induction rounds generalizing statement with
  | zero => exact congrArg select statement.mapSources_id.symm
  | succ rounds ih =>
      rw [Function.iterate_succ_apply, replaceCtes_select, ih, Select.mapSources_mapSources]
      rfl

end Relation

/-- The result of a statement after its common table expressions have been put in place of their
names a number of times. -/
def Statement.inlined (statement : Statement) (rounds : Nat) : Relation :=
  (Relation.replaceCtes statement.ctes)^[rounds] statement.root

/-- Whether a relation still reads a common table expression of a statement by its name. -/
def Statement.IsReadBy (statement : Statement) (relation : Relation) : Prop :=
  ∃ cte ∈ statement.ctes, cte.name ∈ relation.tables

end MetricQuery.Sql

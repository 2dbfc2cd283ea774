import MetricQuery.Sql.Expr

/-! # SQL statements

A statement selects from tables, common table expressions and subqueries, which are statements
themselves.
-/

namespace MetricQuery.Sql

/-- An expression in the list of a select, with the name of its column. -/
structure SelectItem where
  expr : Expr
  columnName : Option String

/-- An expression by which rows are sorted. -/
structure SortItem where
  expr : Expr
  /-- Whether the greatest comes first. -/
  descending : Bool

/-- The ways to join. -/
inductive JoinKind where
  | left
  | fullOuter
  | cross
  deriving DecidableEq

/-- A source under a name. The type of sources is a parameter, since the sources of a statement are
statements again. -/
structure TableRef (σ : Type) where
  source : σ
  /-- The name under which it is read. -/
  name : Option String

/-- A table joined to those before it. -/
structure Join (σ : Type) where
  kind : JoinKind
  table : TableRef σ
  on : List Expr

/-- A select over sources of some type. -/
structure Select (σ : Type) where
  /-- The columns of the result. -/
  items : List SelectItem
  source : TableRef σ
  joins : List (Join σ)
  filters : List Expr
  groupBy : List Expr
  orderBy : List SortItem
  limit : Option Nat

/-- What can be read: a table or common table expression by its name, or a select. -/
inductive Relation where
  | table (name : String)
  | select (select : Select Relation)

/-- A named select in front of a statement. -/
structure Cte where
  name : String
  body : Relation

/-- A statement: common table expressions, each using only earlier ones, and the result. -/
structure Statement where
  ctes : List Cte
  root : Relation

/-- A select that takes columns from a single table and does nothing else. -/
def Select.plain {σ : Type} (items : List SelectItem) (source : TableRef σ) : Select σ where
  items
  source
  joins := []
  filters := []
  groupBy := []
  orderBy := []
  limit := none

end MetricQuery.Sql

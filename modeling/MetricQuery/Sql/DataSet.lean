import MetricQuery.Dataflow.Basic
import MetricQuery.Sql.Statement

/-! # Data sets

A relation together with what its columns hold. No two columns of a data set hold the same; a
column that would repeat one is left out.
-/

namespace MetricQuery.Sql

/-- A column and what it holds. -/
structure Column where
  content : ColumnContent
  name : String
  deriving DecidableEq

/-- The columns of a relation, in order. -/
abbrev Columns : Type := List Column

namespace Columns

/-- The column that holds something. -/
def get? (columns : Columns) (content : ColumnContent) : Option Column :=
  columns.find? (·.content == content)

/-- Whether some column holds a content. -/
def contains (columns : Columns) (content : ColumnContent) : Bool :=
  columns.any (·.content == content)

/-- Adds a column, unless one that holds the same is there. -/
def add (columns : Columns) (column : Column) : Columns :=
  if columns.contains column.content then columns else columns ++ [column]

/-- The columns that hold items. -/
def items (columns : Columns) : Columns := columns.filter (·.content.item?.isSome)

end Columns

/-- A relation and its columns. -/
structure DataSet where
  columns : Columns
  source : Relation

/-- A data set read under a name. -/
structure Subquery where
  name : String
  columns : Columns
  source : Relation

namespace Subquery

/-- A subquery as a table of a select. -/
def tableRef (subquery : Subquery) : TableRef Relation := ⟨subquery.source, some subquery.name⟩

/-- A column of a subquery, by name. -/
def column (subquery : Subquery) (name : String) : Expr := Expr.columnOf subquery.name name

/-- The column of a subquery that holds something. -/
def columnFor (subquery : Subquery) (content : ColumnContent) : Except QueryError Expr :=
  match subquery.columns.get? content with
  | some column => .ok (subquery.column column.name)
  | none => .error (.noColumn content subquery.name)

end Subquery

/-- A column to select, with the expression that computes it. -/
structure Selected where
  column : Column
  expr : Expr

/-- The columns to select, in order. -/
abbrev Selection : Type := List Selected

namespace Selection

/-- Adds a column, unless one that holds the same is there. -/
def add (selection : Selection) (selected : Selected) : Selection :=
  if selection.any (·.column.content == selected.column.content) then selection
  else selection ++ [selected]

/-- Selects columns one after the other. -/
def ofList (columns : List Selected) : Selection := columns.foldl add []

/-- A column that holds something under the name that follows from it. -/
def computed (content : ColumnContent) (expr : Expr) : Selected :=
  ⟨⟨content, content.columnName⟩, expr⟩

/-- A column of a subquery, selected under its name. -/
def kept (subquery : Subquery) (column : Column) : Selected :=
  ⟨column, subquery.column column.name⟩

/-- Some columns of a subquery, selected under their names. -/
def keep (subquery : Subquery) (columns : Columns) : List Selected := columns.map (kept subquery)

/-- All columns of a subquery, selected under their names. -/
def keepAll (subquery : Subquery) : List Selected := keep subquery subquery.columns

/-- The columns a selection has. -/
def columns (selection : Selection) : Columns := selection.map Selected.column

/-- The select that computes the columns from a table. -/
def select (selection : Selection) (source : TableRef Relation) : Select Relation :=
  .plain (selection.map fun selected => ⟨selected.expr, some selected.column.name⟩) source

/-- The data set of a select that computes the columns, completed by `complete`. -/
def dataSet (selection : Selection) (source : TableRef Relation)
    (complete : Select Relation → Select Relation) : DataSet :=
  ⟨selection.columns, .select (complete (selection.select source))⟩

end Selection

end MetricQuery.Sql

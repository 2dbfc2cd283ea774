import MetricQuery.Json.Basic
import MetricQuery.Manifest.Basic
import MetricQuery.Time.DatePart

/-! # SQL expressions

The expressions of generated statements. What the manifest or a filter says in SQL stays as it is.
-/

namespace MetricQuery.Sql

/-- The functions that are called. -/
inductive Function where
  | coalesce
  | nullIf
  deriving DecidableEq

/-- The functions that accumulate over ordered rows. -/
inductive WindowFunction where
  | sum
  | min
  | max
  deriving DecidableEq

/-- The function that accumulates values aggregated in a given way; all but extremes add up. -/
def WindowFunction.ofAggregation : Aggregation → WindowFunction
  | .min => min
  | .max => max
  | _ => sum

/-- The operators between two expressions. -/
inductive Operator where
  | add
  | subtract
  | multiply
  | divide
  | and
  | equal
  deriving DecidableEq

/-- An expression. -/
inductive Expr where
  /-- A column, of a table if one is named. -/
  | column (table : Option String) (name : String)
  /-- A constant. -/
  | literal (value : Json)
  /-- SQL that stays as it is. -/
  | raw (sql : String)
  /-- A function call. -/
  | call (function : Function) (arguments : List Expr)
  /-- A conversion to a type. -/
  | cast (expr : Expr) (type : String)
  /-- Two expressions with an operator between them. -/
  | binary (operator : Operator) (left right : Expr)
  /-- An aggregation. -/
  | aggregate (aggregation : Aggregation) (expr : Expr)
  /-- A time truncated to a grain. -/
  | truncate (grain : Grain) (expr : Expr)
  /-- A part of a time. -/
  | extract (part : DatePart) (expr : Expr)
  /-- A time shifted by a window. -/
  | shift (expr : Expr) (window : OffsetWindow)
  /-- An accumulation over ordered rows, within parts. -/
  | window (function : WindowFunction) (expr : Expr) (parts order : List Expr)

namespace Expr

/-- A column of a table. -/
def columnOf (table name : String) : Expr := column (some table) name

/-- An expression as a floating-point number. -/
def asDouble (expr : Expr) : Expr := cast expr "DOUBLE"

/-- The first of some values that is not null; a single one stands for itself. -/
def firstOf : List Expr → Expr
  | [expr] => expr
  | exprs => call .coalesce exprs

end Expr

end MetricQuery.Sql

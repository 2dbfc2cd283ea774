import MetricQuery.Json.Compact
import MetricQuery.Sql.Statement

/-! # SQL text

Statements as text in the dialect of DuckDB. Identifiers stand in double quotes and texts in single
quotes, with quotes of the same sort inside them doubled; common table expressions come first.
-/

namespace MetricQuery.Sql

/-- A text between quotes, with the quotes inside it doubled. -/
def enclose (quote : Char) (text : String) : String :=
  let inside := text.toList.flatMap fun c => if c = quote then [c, c] else [c]
  String.ofList ([quote] ++ inside ++ [quote])

/-- A name in double quotes. -/
def identifier (name : String) : String := enclose '"' name

/-- A text in single quotes. -/
def textConstant (text : String) : String := enclose '\'' text

/-- The name of a table, whose parts points separate. -/
def tableName (name : String) : String :=
  let parts := (name.toList.splitOn '.').map String.ofList
  String.intercalate "." (parts.map identifier)

/-- Texts with commas between them. -/
def commaList (texts : List String) : String := String.intercalate ", " texts

/-- Conditions that have to hold together. -/
def conjunction (texts : List String) : String := String.intercalate " AND " texts

mutual

/-- A constant. The items of an array become a list, an object becomes a text. -/
def constant : Json → String
  | .null => "NULL"
  | .bool flag => if flag then "true" else "false"
  | .number number => number.text
  | .text text => textConstant text
  | .array items => commaList (constants items)
  | .object members => textConstant (Json.compact (.object members))

def constants : List Json → List String
  | [] => []
  | value :: rest => constant value :: constants rest

end

/-- A call of a function, written. -/
def Function.text (arguments : List String) : Function → String
  | coalesce => "COALESCE(" ++ commaList arguments ++ ")"
  | nullIf => "NULLIF(" ++ commaList arguments ++ ")"

/-- An operator, written. -/
def Operator.text : Operator → String
  | add => "+"
  | subtract => "-"
  | multiply => "*"
  | divide => "/"
  | and => "AND"
  | equal => "="

/-- An aggregation of an expression, written. -/
def aggregationText (expr : String) : Aggregation → String
  | .sum => "SUM(" ++ expr ++ ")"
  | .count => "COUNT(" ++ expr ++ ")"
  | .countDistinct => "COUNT(DISTINCT " ++ expr ++ ")"
  | .min => "MIN(" ++ expr ++ ")"
  | .max => "MAX(" ++ expr ++ ")"
  | .average => "AVG(" ++ expr ++ ")"
  | .sumBoolean => "SUM(CAST(" ++ expr ++ " AS INTEGER))"

/-- A window function of an expression, written. -/
def WindowFunction.text (expr : String) : WindowFunction → String
  | sum => "SUM(" ++ expr ++ ")"
  | min => "MIN(" ++ expr ++ ")"
  | max => "MAX(" ++ expr ++ ")"

/-- The field that a date part is extracted as; weeks begin on Monday. -/
def extractField : DatePart → String
  | .dayOfWeek => "isodow"
  | part => part.name

/-- The rows over which an accumulation runs. -/
def overText (parts order : List String) : String :=
  let partition := if parts.isEmpty then [] else ["PARTITION BY " ++ commaList parts]
  let ordered :=
    if order.isEmpty then []
    else ["ORDER BY " ++ commaList order, "ROWS BETWEEN UNBOUNDED PRECEDING AND CURRENT ROW"]
  "OVER (" ++ String.intercalate " " (partition ++ ordered) ++ ")"

mutual

/-- An expression, written. -/
def Expr.text : Expr → String
  | .column (some table) name => identifier table ++ "." ++ identifier name
  | .column none name => identifier name
  | .literal value => constant value
  | .raw sql => sql
  | .call function arguments => function.text (Expr.texts arguments)
  | .cast expr type => "CAST(" ++ expr.text ++ " AS " ++ type ++ ")"
  | .binary operator left right =>
    "(" ++ left.text ++ " " ++ operator.text ++ " " ++ right.text ++ ")"
  | .aggregate aggregation expr => aggregationText expr.text aggregation
  | .truncate grain expr => "DATE_TRUNC('" ++ grain.name ++ "', " ++ expr.text ++ ")"
  | .extract part expr => "EXTRACT(" ++ extractField part ++ " FROM " ++ expr.text ++ ")"
  | .shift expr offset =>
    "(" ++ expr.text ++ " + INTERVAL " ++ Text.decimal offset.count ++ " " ++
      offset.grain.name ++ ")"
  | .window function expr parts order =>
    function.text expr.text ++ " " ++ overText (Expr.texts parts) (Expr.texts order)

def Expr.texts : List Expr → List String
  | [] => []
  | expr :: rest => expr.text :: Expr.texts rest

end

/-- An item of a select, written. -/
def SelectItem.text (item : SelectItem) : String :=
  match item.columnName with
  | some name => item.expr.text ++ " AS " ++ identifier name
  | none => item.expr.text

/-- A sort key, written. -/
def SortItem.text (item : SortItem) : String :=
  item.expr.text ++ if item.descending then " DESC" else " ASC"

/-- A kind of join, written. -/
def JoinKind.text : JoinKind → String
  | left => "LEFT OUTER JOIN"
  | fullOuter => "FULL OUTER JOIN"
  | cross => "CROSS JOIN"

/-- A part of a select that is left out if there is nothing in it. -/
def clause (keyword : String) (render : List String → String) (texts : List String) : String :=
  if texts.isEmpty then "" else " " ++ keyword ++ " " ++ render texts

mutual

/-- A select, written. -/
def selectText : Select Relation → String
  | ⟨items, source, joins, filters, groupBy, orderBy, limit⟩ =>
    "SELECT " ++ commaList (items.map SelectItem.text) ++
      " FROM " ++ tableRefText source ++ joinsText joins ++
      clause "WHERE" conjunction (filters.map Expr.text) ++
      clause "GROUP BY" commaList (groupBy.map Expr.text) ++
      clause "ORDER BY" commaList (orderBy.map SortItem.text) ++
      clause "LIMIT" commaList (limit.map Text.decimal).toList

/-- A table in a select, a subquery in parentheses. -/
def tableRefText : TableRef Relation → String
  | ⟨source, name⟩ =>
    let shown := sourceText source
    match name with
    | some name => shown ++ " " ++ identifier name
    | none => shown

def sourceText : Relation → String
  | .table name => tableName name
  | .select statement => "(" ++ selectText statement ++ ")"

def joinText : Join Relation → String
  | ⟨kind, table, on⟩ =>
    " " ++ kind.text ++ " " ++ tableRefText table ++
      clause "ON" conjunction (on.map Expr.text)

def joinsText : List (Join Relation) → String
  | [] => ""
  | join :: rest => joinText join ++ joinsText rest

end

/-- A relation as a statement of its own. -/
def Relation.text : Relation → String
  | .table name => "SELECT * FROM " ++ tableName name
  | .select statement => selectText statement

/-- A common table expression, written. -/
def Cte.text (cte : Cte) : String := identifier cte.name ++ " AS (" ++ cte.body.text ++ ")"

/-- A statement, written. -/
def Statement.text (statement : Statement) : String :=
  if statement.ctes.isEmpty then statement.root.text
  else "WITH " ++ commaList (statement.ctes.map Cte.text) ++ " " ++ statement.root.text

end MetricQuery.Sql

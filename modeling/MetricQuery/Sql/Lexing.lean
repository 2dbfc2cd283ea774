import MetricQuery.Sql.Scoping

/-! # Tokens of SQL

How a text is cut into tokens in the dialect of DuckDB (`tokensOf`). Identifiers stand in double
quotes and texts in single quotes, with quotes of the same sort inside them doubled; words, numbers
and symbols stand outside of quotes. What generated statements have no use for is refused: comments,
quotes with a word in front, and other characters. So nothing is hidden in a text that has tokens.

A statement asks for tokens in quotes: its names, its texts, and the grains that it truncates times
to (`Statement.quoted`). It has a form that is left when the names and texts are taken out
(`Statement.emptied`).
-/

namespace MetricQuery.Sql

/-- A token of a statement; what stands in quotes is given without them. -/
inductive Token where
  | identifier (name : String)
  | text (content : String)
  | word (spelling : String)
  | number (spelling : String)
  | symbol (c : Char)
  deriving DecidableEq

namespace Token

/-- The token that stands between quotes of one sort. -/
def inQuotes (quote : Char) (inside : String) : Token :=
  if quote = '"' then identifier inside else text inside

/-- Whether a token stands in quotes. -/
def isQuoted : Token → Bool
  | identifier _ => true
  | text _ => true
  | _ => false

/-- A token without what stands in its quotes. -/
def emptied : Token → Token
  | identifier _ => identifier ""
  | text _ => text ""
  | token => token

end Token

/-! ## Characters -/

/-- Whether a character opens a quoted token. -/
def isQuote (c : Char) : Bool := c == '"' || c == '\''

/-- Whether a word can begin with a character. -/
def beginsWord (c : Char) : Bool := c.isAlpha || c == '_'

/-- Whether a word can go on with a character. -/
def continuesWord (c : Char) : Bool := beginsWord c || c.isDigit

/-- Whether a number can go on with a character, behind another one: an exponent may have a sign. -/
def continuesNumber (last c : Char) : Bool :=
  c.isDigit || c == '.' || c == 'e' || (last == 'e' && (c == '+' || c == '-'))

/-- Whether a character is a symbol whatever stands behind it. -/
def isSymbol (c : Char) : Bool :=
  c == '(' || c == ')' || c == ',' || c == '.' || c == '+' || c == '*' || c == '='

/-! ## Reading tokens -/

/-- Where reading stands: between tokens, or behind a first part of one, whose characters are kept
with the last one in front. -/
inductive Lexer where
  | between
  | word (read : List Char)
  | number (last : Char) (before : List Char)
  | quoted (quote : Char) (inside : List Char)
  /-- Behind a quote that ends the token, unless another one follows. -/
  | closing (quote : Char) (inside : List Char)
  /-- Behind a minus or a slash, which are symbols unless they begin a comment. -/
  | mark (c : Char)
  deriving DecidableEq

namespace Lexer

/-- What begins with a character. -/
def start (c : Char) : Option (Lexer × List Token) :=
  if c.isWhitespace then some (between, [])
  else if isQuote c then some (quoted c [], [])
  else if beginsWord c then some (word [c], [])
  else if c.isDigit then some (number c [], [])
  else if c == '-' || c == '/' then some (mark c, [])
  else if isSymbol c then some (between, [.symbol c])
  else none

/-- How a token goes on with a character, if it does. -/
def goOn : Lexer → Char → Option Lexer
  | between, _ => none
  | word read, c => if continuesWord c then some (word (c :: read)) else none
  | number last before, c =>
    if continuesNumber last c then some (number c (last :: before)) else none
  | quoted quote inside, c =>
    if c = quote then some (closing quote inside) else some (quoted quote (c :: inside))
  | closing quote inside, c => if c = quote then some (quoted quote (c :: inside)) else none
  | mark _, _ => none

/-- The tokens that end where nothing goes on; quotes have to be closed. -/
def finish : Lexer → Option (List Token)
  | between => some []
  | word read => some [.word (String.ofList read.reverse)]
  | number last before => some [.number (String.ofList (last :: before).reverse)]
  | quoted _ _ => none
  | closing quote inside => some [.inQuotes quote (String.ofList inside.reverse)]
  | mark c => some [.symbol c]

/-- Whether a character that does not go on with a token is refused behind it. -/
def refuses : Lexer → Char → Bool
  | word _, c => isQuote c
  | number _ _, c => isQuote c || beginsWord c
  | mark first, c => (first == '-' && c == '-') || (first == '/' && c == '*')
  | _, _ => false

/-- Goes on by a character, with the tokens that end in front of it. -/
def step (lexer : Lexer) (c : Char) : Option (Lexer × List Token) :=
  match lexer.goOn c with
  | some next => some (next, [])
  | none =>
    if lexer.refuses c then none
    else lexer.finish.bind fun ended => (start c).map fun begun => (begun.1, ended ++ begun.2)

/-- Reads characters to their end. -/
def read : Lexer → List Char → Option (List Token)
  | lexer, [] => lexer.finish
  | lexer, c :: rest => (lexer.step c).bind fun next => (read next.1 rest).map (next.2 ++ ·)

end Lexer

/-- The tokens of a text, if it has any. -/
def tokensOf (text : String) : Option (List Token) := Lexer.between.read text.toList

/-! ## What statements put in quotes -/

/-- The parts of the name of a table, which points separate. -/
def tableParts (name : String) : List String := (name.toList.splitOn '.').map String.ofList

/-- The name of a table with as many parts, which are empty. -/
def emptiedTable (name : String) : String := String.ofList (name.toList.filter (· == '.'))

/-- Whether a type is made of words. -/
def isPlainType (type : String) : Bool :=
  (type.toList.splitOn ' ').all fun chars =>
    match chars with
    | [] => false
    | c :: rest => beginsWord c && rest.all continuesWord

mutual

/-- The tokens in quotes that an expression asks for, in order. -/
def Expr.quoted : Expr → List Token
  | .column table name => table.toList.map Token.identifier ++ [.identifier name]
  | .literal (.text text) => [.text text]
  | .literal _ => []
  | .raw _ => []
  | .call _ arguments => Expr.quotedOf arguments
  | .cast expr _ => expr.quoted
  | .binary _ left right => left.quoted ++ right.quoted
  | .aggregate _ expr => expr.quoted
  | .truncate grain expr => .text grain.name :: expr.quoted
  | .extract _ expr => expr.quoted
  | .shift expr _ => expr.quoted
  | .window _ expr parts order => expr.quoted ++ Expr.quotedOf parts ++ Expr.quotedOf order

def Expr.quotedOf : List Expr → List Token
  | [] => []
  | expr :: rest => expr.quoted ++ Expr.quotedOf rest

end

mutual

/-- An expression without its names and texts. -/
def Expr.emptied : Expr → Expr
  | .column table _ => .column (table.map fun _ => "") ""
  | .literal (.text _) => .literal (.text "")
  | .literal value => .literal value
  | .raw sql => .raw sql
  | .call function arguments => .call function (Expr.emptiedAll arguments)
  | .cast expr type => .cast expr.emptied type
  | .binary operator left right => .binary operator left.emptied right.emptied
  | .aggregate aggregation expr => .aggregate aggregation expr.emptied
  | .truncate grain expr => .truncate grain expr.emptied
  | .extract part expr => .extract part expr.emptied
  | .shift expr offset => .shift expr.emptied offset
  | .window function expr parts order =>
    .window function expr.emptied (Expr.emptiedAll parts) (Expr.emptiedAll order)

def Expr.emptiedAll : List Expr → List Expr
  | [] => []
  | expr :: rest => expr.emptied :: Expr.emptiedAll rest

end

mutual

/-- Whether all of an expression is generated: it takes over no SQL, has no arrays or objects as
constants, and its types are made of words. -/
def Expr.isPlain : Expr → Bool
  | .column _ _ => true
  | .literal (.array _) => false
  | .literal (.object _) => false
  | .literal _ => true
  | .raw _ => false
  | .call _ arguments => Expr.arePlain arguments
  | .cast expr type => expr.isPlain && isPlainType type
  | .binary _ left right => left.isPlain && right.isPlain
  | .aggregate _ expr => expr.isPlain
  | .truncate _ expr => expr.isPlain
  | .extract _ expr => expr.isPlain
  | .shift expr _ => expr.isPlain
  | .window _ expr parts order => expr.isPlain && Expr.arePlain parts && Expr.arePlain order

def Expr.arePlain : List Expr → Bool
  | [] => true
  | expr :: rest => expr.isPlain && Expr.arePlain rest

end

/-- What is quoted in an item of a select. -/
def SelectItem.quoted (item : SelectItem) : List Token :=
  item.expr.quoted ++ item.columnName.toList.map Token.identifier

/-- An item of a select with its quotes emptied. -/
def SelectItem.emptied (item : SelectItem) : SelectItem :=
  ⟨item.expr.emptied, item.columnName.map fun _ => ""⟩

/-- A sort key with its quotes emptied. -/
def SortItem.emptied (item : SortItem) : SortItem := ⟨item.expr.emptied, item.descending⟩

namespace TableRef

variable {σ : Type}

/-- The tokens in quotes of a table, given those of its source. -/
def quoted (table : TableRef (List Token)) : List Token :=
  table.source ++ table.name.toList.map Token.identifier

/-- A table with its own name emptied. -/
def emptied (table : TableRef σ) : TableRef σ := ⟨table.source, table.name.map fun _ => ""⟩

end TableRef

namespace Join

variable {σ : Type}

/-- What is quoted in a join. -/
def quoted (join : Join (List Token)) : List Token :=
  join.table.quoted ++ join.on.flatMap Expr.quoted

/-- A join with its quotes emptied. -/
def emptied (join : Join σ) : Join σ := ⟨join.kind, join.table.emptied, join.on.map Expr.emptied⟩

end Join

namespace Select

variable {σ : Type}

/-- The tokens in quotes of a select, given those of its sources. -/
def quoted (statement : Select (List Token)) : List Token :=
  statement.items.flatMap SelectItem.quoted ++ statement.source.quoted ++
    statement.joins.flatMap Join.quoted ++ statement.filters.flatMap Expr.quoted ++
    statement.groupBy.flatMap Expr.quoted ++ statement.orderBy.flatMap fun item => item.expr.quoted

/-- A select without its own names and texts. -/
def emptied (statement : Select σ) : Select σ where
  items := statement.items.map SelectItem.emptied
  source := statement.source.emptied
  joins := statement.joins.map Join.emptied
  filters := statement.filters.map Expr.emptied
  groupBy := statement.groupBy.map Expr.emptied
  orderBy := statement.orderBy.map SortItem.emptied
  limit := statement.limit

end Select

namespace Relation

/-- What is quoted in a relation. -/
def quoted (relation : Relation) : List Token :=
  relation.fold (fun name => (tableParts name).map Token.identifier) Select.quoted

/-- A relation with its quotes emptied. -/
def emptied (relation : Relation) : Relation :=
  relation.rebuild (fun name => .table (emptiedTable name)) Select.emptied

/-- Whether all of a relation is generated. -/
def isPlain (relation : Relation) : Bool :=
  relation.fold (fun _ => true) fun statement =>
    statement.exprs.all Expr.isPlain && statement.sources.all id

end Relation

namespace Cte

/-- What is quoted in a common table expression. -/
def quoted (cte : Cte) : List Token := .identifier cte.name :: cte.body.quoted

/-- A common table expression with its quotes emptied. -/
def emptied (cte : Cte) : Cte := ⟨"", cte.body.emptied⟩

end Cte

namespace Statement

/-- The tokens in quotes that a statement asks for, in order: names of columns, of tables and their
parts, texts, and grains that times are truncated to. -/
def quoted (statement : Statement) : List Token :=
  statement.ctes.flatMap Cte.quoted ++ statement.root.quoted

/-- A statement without its names and texts. -/
def emptied (statement : Statement) : Statement :=
  ⟨statement.ctes.map Cte.emptied, statement.root.emptied⟩

/-- Whether all of a statement is generated. -/
def isPlain (statement : Statement) : Bool := statement.relations.all Relation.isPlain

end Statement

end MetricQuery.Sql

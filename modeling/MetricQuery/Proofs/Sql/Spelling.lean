import MetricQuery.Sql.Inlining
import MetricQuery.Sql.Printing

/-! # Names in the text of a statement

The text of a statement cut into pieces (`Statement.pieces`), so that the names under which common
table expressions are declared and tables are read can be told from everything between them
(`Statement.names_pieces`).
-/

namespace MetricQuery.Sql

/-- A piece of the text of a statement. -/
inductive Piece where
  /-- Text as it stands. -/
  | verbatim (text : String)
  /-- The name of a common table expression where it is declared. -/
  | declared (name : String)
  /-- The name of a table where it is read. -/
  | read (name : String)
  deriving DecidableEq

namespace Piece

/-- The text of a piece. -/
def written : Piece → String
  | verbatim text => text
  | declared name => identifier name
  | read name => tableName name

/-- Whether a piece is a name. -/
def isName : Piece → Bool
  | verbatim _ => false
  | _ => true

end Piece

/-- The text that pieces make. -/
def spelled (pieces : List Piece) : String := String.join (pieces.map Piece.written)

mutual

def piecesOfSelect : Select Relation → List Piece
  | ⟨items, source, joins, filters, groupBy, orderBy, limit⟩ =>
    .verbatim ("SELECT " ++ commaList (items.map SelectItem.text) ++ " FROM ") ::
      (piecesOfTable source ++ piecesOfJoins joins ++
        [.verbatim (clause "WHERE" conjunction (filters.map Expr.text) ++
          clause "GROUP BY" commaList (groupBy.map Expr.text) ++
          clause "ORDER BY" commaList (orderBy.map SortItem.text) ++
          clause "LIMIT" commaList (limit.map Text.decimal).toList)])

def piecesOfTable : TableRef Relation → List Piece
  | ⟨source, name⟩ => piecesOfSource source ++
    [.verbatim (match name with
      | some name => " " ++ identifier name
      | none => "")]

def piecesOfSource : Relation → List Piece
  | .table name => [.read name]
  | .select statement => .verbatim "(" :: (piecesOfSelect statement ++ [.verbatim ")"])

def piecesOfJoin : Join Relation → List Piece
  | ⟨kind, table, on⟩ => .verbatim (" " ++ kind.text ++ " ") ::
    (piecesOfTable table ++ [.verbatim (clause "ON" conjunction (on.map Expr.text))])

def piecesOfJoins : List (Join Relation) → List Piece
  | [] => []
  | join :: rest => piecesOfJoin join ++ piecesOfJoins rest

end

/-- The pieces of a relation as a statement of its own. -/
def Relation.pieces : Relation → List Piece
  | .table name => [.verbatim "SELECT * FROM ", .read name]
  | .select statement => piecesOfSelect statement

/-- A common table expression in pieces. -/
def Cte.pieces (cte : Cte) : List Piece :=
  .declared cte.name :: .verbatim " AS (" :: (cte.body.pieces ++ [.verbatim ")"])

/-- A statement in pieces. -/
def Statement.pieces (statement : Statement) : List Piece :=
  if statement.ctes.isEmpty then statement.root.pieces
  else .verbatim "WITH " :: ([.verbatim ", "].intercalate (statement.ctes.map Cte.pieces) ++
    .verbatim " " :: statement.root.pieces)

/-! ## Text -/

@[simp]
theorem spelled_nil : spelled [] = "" := rfl

@[simp]
theorem spelled_cons (piece : Piece) (pieces : List Piece) :
    spelled (piece :: pieces) = piece.written ++ spelled pieces := String.join_cons

/-- Pieces are spelled one after the other. -/
@[simp]
theorem spelled_append (first second : List Piece) :
    spelled (first ++ second) = spelled first ++ spelled second := by
  rw [spelled, List.map_append, String.join_append]
  rfl

mutual

/-- The pieces of a select spell it. -/
theorem spelled_piecesOfSelect :
    (statement : Select Relation) → spelled (piecesOfSelect statement) = selectText statement
  | ⟨items, source, joins, filters, groupBy, orderBy, limit⟩ => by
    simp only [piecesOfSelect, selectText, spelled_cons, spelled_append, spelled_nil,
      Piece.written, spelled_piecesOfTable source, spelled_piecesOfJoins joins,
      String.append_assoc, String.append_empty]

theorem spelled_piecesOfTable :
    (table : TableRef Relation) → spelled (piecesOfTable table) = tableRefText table
  | ⟨source, name⟩ => by
    cases name <;>
      simp only [piecesOfTable, tableRefText, spelled_append, spelled_cons, spelled_nil,
        Piece.written, spelled_piecesOfSource source, String.append_assoc, String.append_empty]

private theorem spelled_piecesOfSource :
    (relation : Relation) → spelled (piecesOfSource relation) = sourceText relation
  | .table name => by
    simp only [piecesOfSource, sourceText, spelled_cons, spelled_nil, Piece.written,
      String.append_empty]
  | .select statement => by
    simp only [piecesOfSource, sourceText, spelled_cons, spelled_append, spelled_nil,
      Piece.written, spelled_piecesOfSelect statement, String.append_assoc, String.append_empty]

private theorem spelled_piecesOfJoin :
    (join : Join Relation) → spelled (piecesOfJoin join) = joinText join
  | ⟨kind, table, on⟩ => by
    simp only [piecesOfJoin, joinText, spelled_cons, spelled_append, spelled_nil, Piece.written,
      spelled_piecesOfTable table, String.append_assoc, String.append_empty]

theorem spelled_piecesOfJoins :
    (joins : List (Join Relation)) → spelled (piecesOfJoins joins) = joinsText joins
  | [] => rfl
  | join :: rest => by
    simp only [piecesOfJoins, joinsText, spelled_append, spelled_piecesOfJoin join,
      spelled_piecesOfJoins rest]

end

/-- The pieces of a relation spell it. -/
theorem Relation.spelled_pieces (relation : Relation) :
    spelled relation.pieces = relation.text := by
  cases relation with
  | table name => simp [pieces, text, Piece.written]
  | select statement => exact spelled_piecesOfSelect statement

/-- The pieces of a common table expression spell it. -/
theorem Cte.spelled_pieces (cte : Cte) : spelled cte.pieces = cte.text := by
  simp [pieces, text, Piece.written, Relation.spelled_pieces, String.append_assoc]

private theorem spelled_intercalate (parts : List (List Piece)) :
    spelled ([.verbatim ", "].intercalate parts) = commaList (parts.map spelled) := by
  induction parts with
  | nil => rfl
  | cons part rest ih =>
      cases rest with
      | nil =>
          rw [List.intercalate_singleton, List.map_singleton, commaList,
            String.intercalate_singleton]
      | cons next rest =>
          rw [commaList] at ih ⊢
          rw [List.intercalate_cons_cons, spelled_append, spelled_append, ih, List.map_cons,
            List.map_cons, List.map_cons, String.intercalate_cons_cons]
          simp [Piece.written]

/-- The pieces of a statement make its text. -/
theorem Statement.spelled_pieces (statement : Statement) :
    spelled statement.pieces = statement.text := by
  unfold pieces text
  split
  · exact statement.root.spelled_pieces
  · have bodies : (statement.ctes.map Cte.pieces).map spelled = statement.ctes.map Cte.text := by
      rw [List.map_map]
      refine List.map_congr_left fun cte _ => ?_
      rw [Function.comp_apply, cte.spelled_pieces]
    simp [Piece.written, spelled_intercalate, bodies, Relation.spelled_pieces,
      String.append_assoc]

/-! ## Names -/

/-- The names among pieces, in order. -/
def names (pieces : List Piece) : List Piece := pieces.filter Piece.isName

@[simp]
theorem names_nil : names [] = [] := rfl

@[simp]
theorem names_verbatim (text : String) (pieces : List Piece) :
    names (.verbatim text :: pieces) = names pieces := rfl

@[simp]
theorem names_declared (name : String) (pieces : List Piece) :
    names (.declared name :: pieces) = .declared name :: names pieces := rfl

@[simp]
theorem names_read (name : String) (pieces : List Piece) :
    names (.read name :: pieces) = .read name :: names pieces := rfl

/-- The names among pieces are those of each half. -/
@[simp]
theorem names_append (first second : List Piece) :
    names (first ++ second) = names first ++ names second := List.filter_append ..

mutual

/-- The names in a select are the tables it reads, in order. -/
theorem names_piecesOfSelect : (statement : Select Relation) →
    names (piecesOfSelect statement) = (tablesOfSelect statement).map .read
  | ⟨items, source, joins, filters, groupBy, orderBy, limit⟩ => by
    simp only [piecesOfSelect, tablesOfSelect, names_verbatim, names_append, names_nil,
      names_piecesOfTable source, names_piecesOfJoins joins, List.map_append, List.append_nil]

theorem names_piecesOfTable : (table : TableRef Relation) →
    names (piecesOfTable table) = (tablesOfTable table).map .read
  | ⟨source, name⟩ => by
    simp only [piecesOfTable, tablesOfTable, names_append, names_verbatim, names_nil,
      names_piecesOfSource source, List.append_nil]

private theorem names_piecesOfSource : (relation : Relation) →
    names (piecesOfSource relation) = relation.tables.map .read
  | .table name => by
    simp only [piecesOfSource, Relation.tables, names_read, names_nil, List.map_cons,
      List.map_nil]
  | .select statement => by
    simp only [piecesOfSource, Relation.tables, names_verbatim, names_append, names_nil,
      names_piecesOfSelect statement, List.append_nil]

private theorem names_piecesOfJoin : (join : Join Relation) →
    names (piecesOfJoin join) = (tablesOfJoin join).map .read
  | ⟨kind, table, on⟩ => by
    simp only [piecesOfJoin, tablesOfJoin, names_verbatim, names_append, names_nil,
      names_piecesOfTable table, List.append_nil]

theorem names_piecesOfJoins : (joins : List (Join Relation)) →
    names (piecesOfJoins joins) = (tablesOfJoins joins).map .read
  | [] => rfl
  | join :: rest => by
    simp only [piecesOfJoins, tablesOfJoins, names_append, names_piecesOfJoin join,
      names_piecesOfJoins rest, List.map_append]

end

/-- The names in a relation are the tables it reads, in order. -/
theorem Relation.names_pieces (relation : Relation) :
    names relation.pieces = relation.tables.map .read := by
  cases relation with
  | table name => simp [pieces]
  | select statement => rw [pieces, tables, names_piecesOfSelect]

private theorem names_intercalate (text : String) (parts : List (List Piece)) :
    names ([.verbatim text].intercalate parts) = parts.flatMap names := by
  induction parts with
  | nil => rfl
  | cons part rest ih =>
      cases rest with
      | nil => rw [List.intercalate_singleton, List.flatMap_singleton]
      | cons next rest =>
          rw [List.intercalate_cons_cons, names_append, names_append, ih]
          rw [names_verbatim, names_nil, List.append_nil, ← List.flatMap_cons]

/-- The names in the text of a statement: each common table expression is declared, and followed by
what it reads, and what the result reads comes last. -/
theorem Statement.names_pieces (statement : Statement) :
    names statement.pieces =
      statement.ctes.flatMap (fun cte => .declared cte.name :: cte.body.tables.map .read) ++
        statement.root.tables.map .read := by
  have bodies (cte : Cte) :
      names cte.pieces = .declared cte.name :: cte.body.tables.map .read := by
    simp [Cte.pieces, Relation.names_pieces]
  unfold pieces
  split
  case isTrue none =>
    rw [List.isEmpty_iff.mp none, List.flatMap_nil, List.nil_append, Relation.names_pieces]
  case isFalse =>
    rw [names_verbatim, names_append, names_intercalate, names_verbatim, Relation.names_pieces,
      List.flatMap_map]
    simp only [bodies]

end MetricQuery.Sql

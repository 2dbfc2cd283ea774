import MetricQuery.Sql.Inlining

/-! # Scopes of statements

What a statement introduces and uses by name. Every table of a select can have a name
(`Relation.subqueryNames`), and expressions read columns of tables by their names (`Expr.reads`). A
select selects columns under names, and a common table expression selects those of its body
(`Relation.Selects`). A statement is well scoped if every select in it reads only columns of its own
tables, which select them (`Statement.IsScoped`).
-/

namespace MetricQuery.Sql

/-! ## Going through relations -/

section

variable {α : Type}

mutual

/-- What is computed of a relation from the inside to the outside: of tables by `leaf`, and of
selects, over what has been computed of their sources, by `node`. -/
def Relation.fold (leaf : String → α) (node : Select α → α) : Relation → α
  | .table name => leaf name
  | .select statement => node (foldSelect leaf node statement)

def foldSelect (leaf : String → α) (node : Select α → α) : Select Relation → Select α
  | ⟨items, source, joins, filters, groupBy, orderBy, limit⟩ =>
    ⟨items, foldTable leaf node source, foldJoins leaf node joins, filters, groupBy, orderBy,
      limit⟩

def foldTable (leaf : String → α) (node : Select α → α) : TableRef Relation → TableRef α
  | ⟨source, name⟩ => ⟨source.fold leaf node, name⟩

def foldJoin (leaf : String → α) (node : Select α → α) : Join Relation → Join α
  | ⟨kind, table, on⟩ => ⟨kind, foldTable leaf node table, on⟩

def foldJoins (leaf : String → α) (node : Select α → α) : List (Join Relation) → List (Join α)
  | [] => []
  | join :: rest => foldJoin leaf node join :: foldJoins leaf node rest

end

private theorem foldJoins_eq_map (leaf : String → α) (node : Select α → α)
    (joins : List (Join Relation)) :
    foldJoins leaf node joins = joins.map fun join =>
      ⟨join.kind, ⟨join.table.source.fold leaf node, join.table.name⟩, join.on⟩ := by
  induction joins with
  | nil => rfl
  | cons join rest ih =>
      obtain ⟨kind, ⟨source, name⟩, on⟩ := join
      rw [foldJoins, ih, foldJoin, foldTable, List.map_cons]

namespace Relation

variable (leaf : String → α) (node : Select α → α)

/-- A stored table is folded to its leaf. -/
@[simp]
theorem fold_table (name : String) : (table name).fold leaf node = leaf name := by
  rw [fold]

/-- A select is folded over its folded sources. -/
@[simp]
theorem fold_select (statement : Select Relation) :
    (select statement).fold leaf node = node (statement.mapSources (fold leaf node)) := by
  obtain ⟨items, ⟨source, name⟩, joins, filters, groupBy, orderBy, limit⟩ := statement
  rw [fold, foldSelect, foldTable, foldJoins_eq_map]
  rfl

end Relation

end

/-! ## Names that are introduced -/

namespace Select

variable {σ τ : Type}

/-- Changing the sources keeps the tables' own names. -/
@[simp]
theorem tables_mapSources (change : σ → τ) (statement : Select σ) :
    (statement.mapSources change).tables =
      statement.tables.map fun table => ⟨change table.source, table.name⟩ := by
  simp only [tables, mapSources, List.map_cons, List.map_map, Function.comp_def]

end Select

namespace Relation

/-- The names of all tables of selects in a relation, each as often as it is introduced. -/
def subqueryNames (relation : Relation) : List String :=
  relation.fold (fun _ => []) fun statement =>
    statement.tables.flatMap fun table => table.name.toList ++ table.source

/-- A stored table introduces no subquery. -/
@[simp]
theorem subqueryNames_table (name : String) : (table name).subqueryNames = [] := fold_table ..

/-- A select introduces the names of its subqueries and theirs. -/
@[simp]
theorem subqueryNames_select (statement : Select Relation) :
    (select statement).subqueryNames = statement.tables.flatMap fun table =>
      table.name.toList ++ table.source.subqueryNames := by
  rw [subqueryNames, fold_select, Select.tables_mapSources, List.flatMap_map]
  rfl

end Relation

/-! ## Columns that are read -/

/-- A column as an expression names it, of a table if one is named. -/
structure ColumnRead where
  table : Option String
  name : String

mutual

/-- The columns that an expression reads by name. What is taken over as SQL does not count. -/
def Expr.reads : Expr → List ColumnRead
  | .column table name => [⟨table, name⟩]
  | .literal _ => []
  | .raw _ => []
  | .call _ arguments => Expr.readsOf arguments
  | .cast expr _ => expr.reads
  | .binary _ left right => left.reads ++ right.reads
  | .aggregate _ expr => expr.reads
  | .truncate _ expr => expr.reads
  | .extract _ expr => expr.reads
  | .shift expr _ => expr.reads
  | .window _ expr parts order => expr.reads ++ Expr.readsOf parts ++ Expr.readsOf order

def Expr.readsOf : List Expr → List ColumnRead
  | [] => []
  | expr :: rest => expr.reads ++ Expr.readsOf rest

end

/-- The columns several expressions read are those each reads. -/
@[simp]
theorem Expr.readsOf_eq_flatMap (exprs : List Expr) :
    Expr.readsOf exprs = exprs.flatMap Expr.reads := by
  induction exprs with
  | nil => rfl
  | cons expr rest ih => rw [Expr.readsOf, ih, List.flatMap_cons]

/-- A column reads itself. -/
@[simp]
theorem Expr.reads_column (table : Option String) (name : String) :
    (Expr.column table name).reads = [⟨table, name⟩] := by
  rw [Expr.reads]

namespace Select

variable {σ τ : Type}

/-- The expressions of a select apart from those of its columns. -/
def clauses (statement : Select σ) : List Expr :=
  statement.joins.flatMap Join.on ++ statement.filters ++ statement.groupBy ++
    statement.orderBy.map SortItem.expr

/-- All expressions of a select, those of its sources not counted. -/
def exprs (statement : Select σ) : List Expr :=
  statement.items.map SelectItem.expr ++ statement.clauses

/-- The columns that a select reads by name, those within its sources not counted. -/
def reads (statement : Select σ) : List ColumnRead := statement.exprs.flatMap Expr.reads

end Select

/-! ## Scopes -/

namespace Relation

/-- Whether a relation selects columns of exactly some names, in order. A table selects known
columns if it is a common table expression. -/
inductive Selects (ctes : List Cte) : Relation → List String → Prop where
  | select {statement : Select Relation} {names : List String}
      (named : statement.items.map SelectItem.columnName = names.map some) :
      Selects ctes (.select statement) names
  | cte {cte : Cte} {name : String} {names : List String}
      (found : ctes.find? (·.name == name) = some cte) (body : Selects ctes cte.body names) :
      Selects ctes (.table name) names

/-- A relation selects columns of no other names. -/
theorem Selects.unique {ctes : List Cte} {relation : Relation} {names others : List String}
    (selects : relation.Selects ctes names) (also : relation.Selects ctes others) :
    names = others := by
  induction selects with
  | select named =>
      cases also with
      | select same =>
          exact (List.map_inj_right fun _ _ => Option.some.inj).mp (named.symm.trans same)
  | cte found body ih =>
      cases also with
      | cte same other =>
          obtain rfl := Option.some.inj (found.symm.trans same)
          exact ih other

/-- What is selected stays selected with more common table expressions behind. -/
theorem Selects.append {ctes : List Cte} {relation : Relation} {names : List String}
    (selects : relation.Selects ctes names) (later : List Cte) :
    relation.Selects (ctes ++ later) names := by
  induction selects with
  | select named => exact .select named
  | cte found body ih =>
      refine .cte ?_ ih
      rw [List.find?_append, found, Option.some_or]

/-- Whether a column that is read belongs to one of some tables, which selects it. -/
def Finds (ctes : List Cte) (tables : List (TableRef Relation)) (read : ColumnRead) : Prop :=
  ∃ name, read.table = some name ∧ ∃ table ∈ tables, table.name = some name ∧
    ∃ names, table.source.Selects ctes names ∧ read.name ∈ names

/-- Whether each select in a relation reads only columns that one of its own tables selects. -/
inductive IsScoped (ctes : List Cte) : Relation → Prop where
  | table (name : String) : IsScoped ctes (.table name)
  | select {statement : Select Relation}
      (sources : ∀ source ∈ statement.sources, IsScoped ctes source)
      (reads : ∀ read ∈ statement.reads, Finds ctes statement.tables read) :
      IsScoped ctes (.select statement)

/-- What is well scoped stays so with more common table expressions behind. -/
theorem IsScoped.append {ctes : List Cte} {relation : Relation}
    (inScope : relation.IsScoped ctes) (later : List Cte) :
    relation.IsScoped (ctes ++ later) := by
  induction inScope with
  | table name => exact .table name
  | select _ reads ih =>
      refine .select ih fun read member => ?_
      obtain ⟨name, named, table, among, same, names, selects, selected⟩ := reads read member
      exact ⟨name, named, table, among, same, names, selects.append later, selected⟩

end Relation

/-- Whether each of some common table expressions relates in some way to those before it. -/
def EachAfter (related : List Cte → Cte → Prop) (ctes : List Cte) : Prop :=
  ∀ earlier cte later, ctes = earlier ++ cte :: later → related earlier cte

/-- In a list with one more at the end a member is the last or among the others. -/
theorem eq_or_exists_of_concat_eq {ctes earlier later : List Cte} {last cte : Cte}
    (split : ctes ++ [last] = earlier ++ cte :: later) :
    (later = [] ∧ ctes = earlier ∧ last = cte) ∨
      ∃ between, later = between ++ [last] ∧ ctes = earlier ++ cte :: between := by
  rcases List.eq_nil_or_concat later with rfl | ⟨between, final, rfl⟩
  · obtain ⟨rfl, same⟩ := List.append_inj' split rfl
    exact .inl ⟨rfl, rfl, (List.cons.inj same).1⟩
  · rw [List.concat_eq_append] at split ⊢
    rw [← List.cons_append, ← List.append_assoc] at split
    obtain ⟨rfl, same⟩ := List.append_inj' split rfl
    obtain rfl := (List.cons.inj same).1
    exact .inr ⟨between, rfl, rfl⟩

namespace EachAfter

variable {related : List Cte → Cte → Prop} {ctes : List Cte}

/-- Without members there is nothing to relate. -/
theorem nil : EachAfter related [] := by
  intro earlier cte later split
  exact absurd split.symm (List.append_ne_nil_of_right_ne_nil _ (List.cons_ne_nil _ _))

/-- A further common table expression relates to all others. -/
theorem concat (each : EachAfter related ctes) {cte : Cte} (last : related ctes cte) :
    EachAfter related (ctes ++ [cte]) := by
  intro earlier other later split
  rcases eq_or_exists_of_concat_eq split with ⟨_, rfl, rfl⟩ | ⟨between, _, split⟩
  · exact last
  · exact each earlier other between split

end EachAfter

namespace Statement

/-- The bodies of the common table expressions, and the result. -/
def relations (statement : Statement) : List Relation :=
  statement.ctes.map Cte.body ++ [statement.root]

/-- The names of all tables of selects in a statement. -/
def subqueryNames (statement : Statement) : List String :=
  statement.relations.flatMap Relation.subqueryNames

/-- Whether a statement is well scoped, where a common table expression can be read only behind
it. -/
structure IsScoped (statement : Statement) : Prop where
  ctes : EachAfter (fun earlier cte => cte.body.IsScoped earlier) statement.ctes
  root : statement.root.IsScoped statement.ctes

end Statement

end MetricQuery.Sql

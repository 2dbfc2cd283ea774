import Mathlib.Data.List.ReduceOption
import MetricQuery.Proofs.Sql.Rows

/-! # Keys of relations

A column is a key of some rows if no value occurs in it twice, nulls apart (`IsKey`). A row has at
most one partner in a table that is joined on a key, so that left joins on keys give exactly one
row for each row (`isPrefix_joinRows`), and outputs that are brought together on a key of each have
this key again (`nodup_first_rows`).
-/

namespace MetricQuery.Sql

variable {α : Type}

/-- Whether no value occurs twice in a column, nulls apart. -/
def IsKey (rows : List (Row α)) (column : String) : Prop :=
  (rows.map (Row.value · column)).reduceOption.Nodup

/-- Leaving out nulls repeats nothing. -/
theorem nodup_reduceOption {values : List (Option α)} (distinct : values.Nodup) :
    values.reduceOption.Nodup := by
  refine distinct.filterMap fun value other result same also => ?_
  rw [Option.mem_def, id] at same also
  rw [same, also]

namespace IsKey

variable {rows others : List (Row α)} {column name : String}

/-- A column with the values of a key is a key. -/
theorem of_map_value (key : IsKey rows column)
    (same : others.map (Row.value · name) = rows.map (Row.value · column)) :
    IsKey others name := by
  rw [IsKey, same]
  exact key

/-- At most one row has a given value in a key. -/
theorem length_filter_le_one (key : IsKey rows column) (value : Option α) {meets : Row α → Bool}
    (only : ∀ row ∈ rows, meets row = true →
      ∃ held, value = some held ∧ row.value column = some held) :
    (rows.filter meets).length ≤ 1 := by
  induction rows with
  | nil => exact Nat.zero_le 1
  | cons first rest ih =>
      have later : ∀ row ∈ rest, meets row = true →
          ∃ held, value = some held ∧ row.value column = some held :=
        fun row member => only row (List.mem_cons_of_mem _ member)
      rw [IsKey, List.map_cons] at key
      cases met : meets first with
      | false =>
          have keyRest : IsKey rest column :=
            key.sublist ((List.sublist_cons_self _ _).filterMap id)
          rw [List.filter_cons_of_neg (Bool.eq_false_iff.mp met)]
          exact ih keyRest later
      | true =>
          obtain ⟨held, rfl, isHeld⟩ := only first List.mem_cons_self met
          rw [isHeld, List.reduceOption_cons_of_some, List.nodup_cons] at key
          have none : rest.filter meets = [] := by
            refine List.filter_eq_nil_iff.mpr fun row member also => key.1 ?_
            obtain ⟨_, ⟨⟩, same⟩ := later row member also
            exact List.reduceOption_mem_iff.mpr (same ▸ List.mem_map_of_mem member)
          rw [List.filter_cons_of_pos met, none]
          exact Nat.le_refl 1

end IsKey

section

variable [DecidableEq α] {database : Database α}

/-! ## Joins on keys -/

/-- A join adds the name of its table. -/
theorem Join.map_fst_rows {join : Join (List (Row α))} {names : List (Option String)}
    {rows : List (JoinedRow α)} (named : ∀ row ∈ rows, row.map Prod.fst = names) :
    ∀ row ∈ join.rows database names rows, row.map Prod.fst = names ++ [join.table.name] := by
  have extend : ∀ (row : JoinedRow α) (other : Row α), row.map Prod.fst = names →
      (join.extend row other).map Prod.fst = names ++ [join.table.name] := by
    intro row other same
    rw [Join.extend, List.map_append, same]
    rfl
  have outer : ∀ next ∈ rows.flatMap (join.outer database),
      next.map Prod.fst = names ++ [join.table.name] := by
    intro next member
    obtain ⟨row, among, made⟩ := List.mem_flatMap.mp member
    rw [Join.outer] at made
    split at made
    · rw [List.mem_singleton.mp made]
      exact extend row [] (named row among)
    · obtain ⟨other, _, rfl⟩ := List.mem_map.mp made
      exact extend row other (named row among)
  intro next member
  rw [Join.rows] at member
  split at member
  · obtain ⟨row, among, made⟩ := List.mem_flatMap.mp member
    obtain ⟨other, _, rfl⟩ := List.mem_map.mp made
    exact extend row other (named row among)
  · exact outer next member
  · rcases List.mem_append.mp member with member | member
    · exact outer next member
    · obtain ⟨other, _, rfl⟩ := List.mem_map.mp member
      refine extend _ other ?_
      rw [List.map_map]
      exact List.map_id _

/-- With at most one partner, a row stays one row. -/
theorem Join.exists_outer_eq {join : Join (List (Row α))} {row : JoinedRow α}
    (few : (join.table.source.filter (join.meets database row)).length ≤ 1) :
    ∃ other, join.outer database row = [join.extend row other] ∧
      (other = [] ∨ join.meets database row other = true) := by
  rw [outer]
  match partners : join.table.source.filter (join.meets database row), few with
  | [], _ => exact ⟨[], rfl, .inl rfl⟩
  | [other], _ =>
      refine ⟨other, rfl, .inr ?_⟩
      have member : other ∈ join.table.source.filter (join.meets database row) :=
        partners ▸ List.mem_singleton_self other
      exact (List.mem_filter.mp member).2

/-- Whether a further table is joined to a table of some name, on a key of the further one. -/
inductive Join.IsOnKey (left : String) : Join (List (Row α)) → Prop where
  | intro {source : List (Row α)} {right column key : String} (different : left ≠ right)
      (isKey : IsKey source key) :
      Join.IsOnKey left ⟨.left, ⟨source, some right⟩,
        [.binary .equal (.columnOf left column) (.columnOf right key)]⟩

/-- A join on a key gives one row for each row of the left side. -/
theorem Join.IsOnKey.exists_outer_eq {join : Join (List (Row α))} {left : String}
    {row : JoinedRow α} (onKey : join.IsOnKey left)
    (absent : join.table.name ∉ row.map Prod.fst) :
    ∃ other, join.outer database row = [join.extend row other] := by
  cases onKey with
  | @intro source right column key different isKey =>
      have partner : ∀ other ∈ source, Join.meets database ⟨.left, ⟨source, some right⟩,
          [.binary .equal (.columnOf left column) (.columnOf right key)]⟩ row other = true →
          ∃ held, row.value (some left) column = some held ∧ other.value key = some held := by
        intro other _ met
        rw [Join.meets, List.all_cons, List.all_nil, Bool.and_true, Expr.holds_equal] at met
        obtain ⟨value, onLeft, onRight⟩ := met
        rw [Expr.value_columnOf, Join.extend,
          JoinedRow.value_append_of_ne fun same => different (Option.some.inj same).symm] at onLeft
        rw [Expr.value_columnOf, Join.extend, JoinedRow.value_append_self absent] at onRight
        exact ⟨value, onLeft, onRight⟩
      obtain ⟨other, single, _⟩ := Join.exists_outer_eq (isKey.length_filter_le_one _ partner)
      exact ⟨other, single⟩

/-- Tables that are joined on keys complete each row by one row of each. -/
theorem isPrefix_joinRows {left : String} {joins : List (Join (List (Row α)))}
    {names : List (Option String)} {rows : List (JoinedRow α)}
    (onKeys : ∀ join ∈ joins, join.IsOnKey left)
    (named : ∀ row ∈ rows, row.map Prod.fst = names)
    (distinct : (names ++ joins.map (·.table.name)).Nodup) :
    List.Forall₂ (· <+: ·) rows (joinRows database names rows joins) := by
  induction joins generalizing names rows with
  | nil => exact List.forall₂_same.mpr fun row _ => List.prefix_refl row
  | cons join rest ih =>
      have onKey := onKeys join List.mem_cons_self
      have absent : join.table.name ∉ names := fun member =>
        (List.nodup_append.mp distinct).2.2 _ member _ List.mem_cons_self rfl
      have extended : List.Forall₂ (fun row next => ∃ other, next = join.extend row other) rows
          (join.rows database names rows) := by
        have kind : join.kind = .left := by
          obtain ⟨_, _⟩ := onKey
          rfl
        rw [Join.rows, kind]
        refine forall₂_flatMap_singleton fun row member => ?_
        obtain ⟨other, single⟩ := onKey.exists_outer_eq (named row member ▸ absent)
        exact ⟨_, single, other, rfl⟩
      have later : List.Forall₂ (· <+: ·) (join.rows database names rows) _ :=
        ih (fun other member => onKeys other (List.mem_cons_of_mem _ member))
          (Join.map_fst_rows named) (by rwa [List.append_assoc])
      refine (forall₂_comp extended later).imp ?_
      rintro row final ⟨_, ⟨other, rfl⟩, begins⟩
      exact (List.prefix_append row _).trans begins

end

/-! ## Outputs brought together on keys -/

namespace JoinedRow

variable {row : JoinedRow α} {tables : List String} {right column : String} {other : Row α}

/-- The first value of a column among some tables that is not null. -/
def first (row : JoinedRow α) (tables : List String) (column : String) : Option α :=
  (tables.map fun table => row.value (some table) column).findSome? id

/-- A table joined later has no part in the first value of the ones before. -/
theorem first_before (absent : right ∉ tables) :
    JoinedRow.first (row ++ [(some right, other)]) tables column = row.first tables column := by
  refine congrArg (List.findSome? id) (List.map_congr_left fun table member => ?_)
  exact value_append_of_ne fun same => absent (Option.some.inj same ▸ member)

/-- A table that is not among those joined is not in the row. -/
theorem not_mem_names (absent : right ∉ tables) (named : row.map Prod.fst = tables.map some) :
    some right ∉ row.map Prod.fst := by
  rw [named]
  exact fun member => absent ((List.mem_map_of_injective (Option.some_injective _)).mp member)

/-- One more table is asked for a value after the others. -/
theorem first_append (absent : right ∉ tables) (named : row.map Prod.fst = tables.map some) :
    JoinedRow.first (row ++ [(some right, other)]) (tables ++ [right]) column =
      (row.first tables column).or (other.value column) := by
  have before : JoinedRow.first (row ++ [(some right, other)]) tables column =
      row.first tables column := first_before absent
  rw [first] at before ⊢
  rw [List.map_append, List.findSome?_append, before, List.map_singleton,
    List.findSome?_singleton, value_append_self (not_mem_names absent named)]
  rfl

private theorem first_nulls (names : List (Option String)) :
    JoinedRow.first (names.map fun name => (name, ([] : Row α))) tables column = none := by
  rw [first, List.findSome?_map]
  exact List.findSome?_eq_none_iff.mpr fun _ _ => value_nulls names

end JoinedRow

section

variable [DecidableEq α] {database : Database α} {rows : List (JoinedRow α)}
  {tables : List String} {source : List (Row α)} {right column : String}

/-- An output joined to those before it on a column, which each of them has. -/
def outputJoin (tables : List String) (source : List (Row α)) (right column : String) :
    Join (List (Row α)) :=
  ⟨.fullOuter, ⟨source, some right⟩, [.binary .equal
    (.firstOf (tables.map fun table => .columnOf table column)) (.columnOf right column)]⟩

/-- An output joins where its column has the first value found so far. -/
theorem meets_outputJoin {row : JoinedRow α} {other : Row α} (absent : right ∉ tables)
    (named : row.map Prod.fst = tables.map some) :
    (outputJoin tables source right column).meets database row other = true ↔
      ∃ value, row.first tables column = some value ∧ other.value column = some value := by
  have left : (Expr.firstOf (tables.map fun table => .columnOf table column)).value database []
      (row ++ [(some right, other)]) = row.first tables column := by
    rw [Expr.value_firstOf, List.map_map]
    exact JoinedRow.first_before absent
  have joined : (Expr.columnOf right column).value database [] (row ++ [(some right, other)]) =
      other.value column := JoinedRow.value_append_self (JoinedRow.not_mem_names absent named)
  rw [Join.meets, outputJoin, List.all_cons, List.all_nil, Bool.and_true, Expr.holds_equal,
    Join.extend, left, joined]

/-- A row that finds a partner has its key already. -/
theorem map_first_outer (absent : right ∉ tables)
    (named : ∀ row ∈ rows, row.map Prod.fst = tables.map some) (isKey : IsKey source column) :
    (rows.flatMap ((outputJoin tables source right column).outer database)).map
      (·.first (tables ++ [right]) column) = rows.map (·.first tables column) := by
  refine map_eq_of_forall₂ (forall₂_flatMap_singleton fun row member => ?_)
  have meets : ∀ other, (outputJoin tables source right column).meets database row other = true ↔
      ∃ value, row.first tables column = some value ∧ other.value column = some value :=
    fun other => meets_outputJoin absent (named row member)
  obtain ⟨other, single, partner⟩ := Join.exists_outer_eq (isKey.length_filter_le_one
    (row.first tables column) fun other _ => (meets other).mp)
  refine ⟨_, single, (JoinedRow.first_append absent (named row member)).trans ?_⟩
  rcases partner with rfl | met
  · exact Option.or_none
  · obtain ⟨value, before, _⟩ := (meets other).mp met
    rw [before, Option.some_or]

/-- A row of an output without a partner keeps its key. -/
theorem map_first_unmatched (absent : right ∉ tables) :
    ((outputJoin tables source right column).unmatched database (tables.map some) rows).map
        (·.first (tables ++ [right]) column) =
      (source.filter fun other => !rows.any
        ((outputJoin tables source right column).meets database · other)).map
          (Row.value · column) := by
  rw [Join.unmatched, List.map_map]
  refine List.map_congr_left fun other _ => ?_
  have nulls : JoinedRow.first ((tables.map some).map fun name => (name, ([] : Row α))) tables
      column = none := JoinedRow.first_nulls _
  have names : ((tables.map some).map fun name => (name, ([] : Row α))).map Prod.fst =
      tables.map some := by
    rw [List.map_map]
    exact List.map_id _
  refine (JoinedRow.first_append absent names).trans ?_
  rw [nulls, Option.none_or]

/-- Rows with different keys, joined with an output on its key, have different keys. -/
theorem nodup_first_rows (absent : right ∉ tables)
    (named : ∀ row ∈ rows, row.map Prod.fst = tables.map some)
    (unique : (rows.map (·.first tables column)).reduceOption.Nodup)
    (isKey : IsKey source column) :
    (((outputJoin tables source right column).rows database (tables.map some) rows).map
      (·.first (tables ++ [right]) column)).reduceOption.Nodup := by
  let join := outputJoin tables source right column
  have kind : join.rows database (tables.map some) rows =
      rows.flatMap (join.outer database) ++ join.unmatched database (tables.map some) rows := rfl
  rw [kind, List.map_append, map_first_outer absent named isKey, map_first_unmatched absent,
    List.reduceOption_append]
  refine List.nodup_append.mpr ⟨unique, ?_, fun value before other after same => ?_⟩
  · exact isKey.sublist (((List.filter_sublist).map _).filterMap id)
  · subst same
    obtain ⟨row, member, first⟩ := List.mem_map.mp (List.reduceOption_mem_iff.mp before)
    obtain ⟨other, among, held⟩ := List.mem_map.mp (List.reduceOption_mem_iff.mp after)
    have none := (List.mem_filter.mp among).2
    have met : join.meets database row other = true :=
      (meets_outputJoin absent (named row member)).mpr ⟨value, first, held⟩
    rw [List.any_eq_true.mpr ⟨row, member, met⟩] at none
    exact nomatch none

end

end MetricQuery.Sql

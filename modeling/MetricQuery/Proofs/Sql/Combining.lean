import Mathlib.Data.List.Perm.Basic
import MetricQuery.Proofs.Catalog
import MetricQuery.Proofs.Sql.Keying

/-! # Outputs brought together

Outputs that share what they are grouped by are brought together by full outer joins. A key without
nulls is found in each output that has it, so it gives a single row; a row whose key holds a null
meets no other and stays alone (`combine_rows`).
-/

namespace MetricQuery.Sql

open Selection (ofList kept)

variable {α : Type}

/-! ## Keys -/

/-- What a subquery holds in one of its rows. -/
def Subquery.valueOf (input : Subquery) (row : Row α) (content : ColumnContent) : Option α :=
  (input.columns.get? content).bind fun column => row.value column.name

/-- What a row of a subquery holds of some items. -/
def Subquery.keyOf (input : Subquery) (items : Columns) (row : Row α) : List (Option α) :=
  items.map fun item => input.valueOf row item.content

/-- Whether a key has no nulls. -/
def IsFull (key : List (Option α)) : Bool := key.all Option.isSome

section

variable [DecidableEq α] (database : Database α) (items : Columns)

/-- The first row of a subquery that has a key. -/
def Subquery.rowAt (input : Subquery) (key : List (Option α)) : Option (Row α) :=
  (input.source.rows database).find? (input.keyOf items · == key)

/-- The keys without nulls in some subqueries, each once. -/
def fullKeys (inputs : List Subquery) : List (List (Option α)) :=
  (inputs.flatMap fun input =>
    ((input.source.rows database).map (input.keyOf items)).filter IsFull).eraseDups

/-- The rows of a subquery with a null in their keys. -/
def Subquery.nullRows (input : Subquery) : List (Row α) :=
  (input.source.rows database).filter fun row => !IsFull (input.keyOf items row)

end

/-- A single row of one of several subqueries. -/
def Subquery.only (input : Subquery) (row : Row α) (other : Subquery) : Option (Row α) :=
  if other.name = input.name then some row else none

/-- Rows that are chosen from subqueries, side by side; where there is none, there are nulls. -/
def sideBySide (inputs : List Subquery) (pick : Subquery → Option (Row α)) : JoinedRow α :=
  inputs.map fun input => (some input.name, (pick input).getD [])

/-- The rows that are chosen for some of several subqueries: for each key without nulls all rows
that have it, and each row with a null in its key alone. -/
def mergedAmong [DecidableEq α] (database : Database α) (items : Columns)
    (inputs all : List Subquery) : List (JoinedRow α) :=
  (fullKeys database items inputs).map
      (fun key => sideBySide all fun input => input.rowAt database items key) ++
    inputs.flatMap fun input => (input.nullRows database items).map fun row =>
      sideBySide all (input.only row)

/-- The first value that is there in the rows that are chosen. -/
def firstOf (inputs : List Subquery) (pick : Subquery → Option (Row α)) (content : ColumnContent) :
    Option α :=
  inputs.findSome? fun input => (pick input).bind (input.valueOf · content)

private theorem valueOf_nil (input : Subquery) (content : ColumnContent) :
    input.valueOf ([] : Row α) content = none := by
  rw [Subquery.valueOf]
  cases input.columns.get? content <;> rfl

private theorem valueOf_getD (input : Subquery) (row : Option (Row α)) (content : ColumnContent) :
    input.valueOf (row.getD []) content = row.bind (input.valueOf · content) := by
  cases row with
  | none => exact valueOf_nil input content
  | some row => rfl

private theorem map_fst_sideBySide (inputs : List Subquery) (pick : Subquery → Option (Row α)) :
    (sideBySide inputs pick).map Prod.fst = (inputs.map Subquery.name).map some := by
  rw [sideBySide, List.map_map, List.map_map]
  rfl

private theorem only_of_ne {input other : Subquery} {row : Row α} (ne : other.name ≠ input.name) :
    input.only row other = none := if_neg ne

/-- One more input stands behind the others in a combined row. -/
theorem sideBySide_concat (inputs : List Subquery) (right : Subquery)
    (pick : Subquery → Option (Row α)) :
    sideBySide (inputs ++ [right]) pick =
      sideBySide inputs pick ++ [(some right.name, (pick right).getD [])] := by
  rw [sideBySide, List.map_append]
  rfl

/-- Where no rows are chosen, there are only nulls. -/
theorem sideBySide_of_none {inputs : List Subquery} {pick : Subquery → Option (Row α)}
    (none : ∀ input ∈ inputs, pick input = none) :
    sideBySide inputs pick = ((inputs.map Subquery.name).map some).map (·, []) := by
  rw [List.map_map, List.map_map]
  refine List.map_congr_left fun input among => ?_
  rw [none input among]
  rfl

private theorem lookup_sideBySide {inputs : List Subquery} {pick : Subquery → Option (Row α)}
    (distinct : (inputs.map Subquery.name).Nodup) {input : Subquery} (among : input ∈ inputs) :
    (sideBySide inputs pick).lookup (some input.name) = some ((pick input).getD []) := by
  induction inputs with
  | nil => exact nomatch among
  | cons first rest ih =>
      obtain ⟨fresh, distinct⟩ := List.nodup_cons.mp distinct
      rw [sideBySide, List.map_cons, List.lookup_cons]
      rcases List.mem_cons.mp among with rfl | among
      · rw [beq_self_eq_true]
      · have other : (some input.name == some first.name) = false :=
          beq_false_of_ne fun same =>
            fresh (Option.some.inj same ▸ List.mem_map_of_mem among)
        rw [other]
        exact ih distinct among

/-- If all that is found is the same, then that is the first to be found. -/
theorem findSome?_eq_of_forall {β γ : Type} {members : List β} {compute : β → Option γ}
    {result : Option γ}
    (each : ∀ member ∈ members, compute member = none ∨ compute member = result)
    (some : ∃ member ∈ members, compute member = result) :
    members.findSome? compute = result := by
  cases result with
  | none => exact List.findSome?_eq_none_iff.mpr fun member among => (each member among).elim id id
  | some value =>
      obtain ⟨member, among, found⟩ := some
      have present : (members.findSome? compute).isSome = true :=
        List.findSome?_isSome_iff.mpr ⟨member, among, by rw [found]; rfl⟩
      obtain ⟨first, isFirst⟩ := Option.isSome_iff_exists.mp present
      obtain ⟨other, amongOther, same⟩ := List.exists_of_findSome?_eq_some isFirst
      rw [isFirst, ← same]
      exact (each other amongOther).resolve_left (same ▸ Option.some_ne_none first)

/-! ## Values of joined rows -/

/-- What the rows that are chosen have in common of some items. -/
def sharedKey (items : Columns) (inputs : List Subquery) (pick : Subquery → Option (Row α)) :
    List (Option α) := items.map fun item => firstOf inputs pick item.content

section

variable [DecidableEq α] {database : Database α} {items : Columns} {inputs : List Subquery}
  {key : List (Option α)}

/-- The full keys are those without a null of the rows of some input. -/
theorem mem_fullKeys : key ∈ fullKeys database items inputs ↔ IsFull key = true ∧
    ∃ input ∈ inputs, ∃ row ∈ input.source.rows database, input.keyOf items row = key := by
  simp only [fullKeys, List.mem_eraseDups, List.mem_flatMap, List.mem_filter, List.mem_map]
  constructor
  · intro given
    obtain ⟨input, among, ⟨row, member, same⟩, full⟩ := given
    exact ⟨full, input, among, row, member, same⟩
  · intro given
    obtain ⟨full, input, among, row, member, same⟩ := given
    exact ⟨input, among, ⟨row, member, same⟩, full⟩

/-- Every full key is listed once. -/
theorem nodup_fullKeys : (fullKeys database items inputs).Nodup := nodup_eraseDups _

/-- A row found at a key has that key. -/
theorem keyOf_of_rowAt {input : Subquery} {row : Row α}
    (found : input.rowAt database items key = some row) : input.keyOf items row = key := by
  simpa using List.find?_some found

/-- A row set apart for its nulls has no full key. -/
theorem not_isFull {input : Subquery} {row : Row α} (member : row ∈ input.nullRows database items) :
    IsFull (input.keyOf items row) = false := by
  simpa using (List.mem_filter.mp member).2

private theorem exists_rowAt {input : Subquery} {row : Row α}
    (member : row ∈ input.source.rows database)
    (same : input.keyOf items row = key) : ∃ first, input.rowAt database items key = some first :=
  Option.isSome_iff_exists.mp (List.find?_isSome.mpr ⟨row, member, by simpa using same⟩)

/-- Rows with a key have this key in common. -/
theorem sharedKey_rowAt (member : key ∈ fullKeys database items inputs) :
    sharedKey items inputs (·.rowAt database items key) = key := by
  obtain ⟨full, input, among, row, inside, same⟩ := mem_fullKeys.mp member
  refine Eq.trans (List.map_congr_left fun item isItem => ?_) same
  have value : ∀ other ∈ inputs, ∀ found, other.rowAt database items key = some found →
      other.valueOf found item.content = input.valueOf row item.content := by
    intro other _ found isFound
    have alike : other.keyOf items found = input.keyOf items row :=
      (keyOf_of_rowAt isFound).trans same.symm
    exact List.map_inj_left.mp alike item isItem
  obtain ⟨first, isFirst⟩ := exists_rowAt inside same
  refine findSome?_eq_of_forall (fun other amongOther => ?_) ⟨input, among, ?_⟩
  · beta_reduce
    cases found : other.rowAt database items key with
    | none => exact .inl rfl
    | some row => exact .inr (value other amongOther row found)
  · beta_reduce
    rw [isFirst]
    exact value input among first isFirst

omit [DecidableEq α] in
/-- A single row has its key alone. -/
theorem sharedKey_only (distinct : (inputs.map Subquery.name).Nodup) {input : Subquery}
    (among : input ∈ inputs) (row : Row α) :
    sharedKey items inputs (input.only row) = input.keyOf items row := by
  refine List.map_congr_left fun item _ => ?_
  refine findSome?_eq_of_forall (fun other amongOther => ?_) ⟨input, among, ?_⟩
  · rw [Subquery.only]
    split
    · rename_i same
      rw [List.inj_on_of_nodup_map distinct amongOther among same]
      exact .inr rfl
    · exact .inl rfl
  · rw [Subquery.only, if_pos rfl]
    rfl

variable {expr : Expr} {rows : List (JoinedRow α)} {pick : Subquery → Option (Row α)}
  {later : JoinedRow α} {content : ColumnContent}

/-- A column read from one of the inputs is that input's value in the combined row. -/
theorem value_columnFor {input : Subquery} (distinct : (inputs.map Subquery.name).Nodup)
    (among : input ∈ inputs) (ok : input.columnFor content = .ok expr) :
    expr.value database rows (sideBySide inputs pick ++ later) =
      (pick input).bind (input.valueOf · content) := by
  obtain ⟨column, found, rfl⟩ := Subquery.columnFor_eq_ok.mp ok
  rw [← valueOf_getD, Subquery.valueOf, found, Option.bind_some, Subquery.column,
    Expr.value_columnOf, JoinedRow.value, List.lookup_append, lookup_sideBySide distinct among]
  rfl

/-- The first value of an item is the one of the first input that has one. -/
theorem value_firstValue {item : Column} (distinct : (inputs.map Subquery.name).Nodup)
    (ok : firstValue inputs item = .ok expr) :
    expr.value database rows (sideBySide inputs pick ++ later) =
      firstOf inputs pick item.content := by
  obtain ⟨exprs, computed, ⟨⟩⟩ := bind_eq_ok.mp ok
  have values : exprs.map (fun expr => expr.value database rows (sideBySide inputs pick ++ later)) =
      inputs.map fun input => (pick input).bind (input.valueOf · item.content) := by
    refine map_eq_of_forall₂ (List.forall₂_iff_zip.mpr ⟨(mapM_eq_ok.mp computed).length_eq, ?_⟩)
    intro input expr member
    have found := (List.forall₂_iff_zip.mp (mapM_eq_ok.mp computed)).2 member
    exact value_columnFor distinct (List.of_mem_zip member).1 found
  rw [Expr.value_firstOf, values, List.findSome?_map]
  rfl

/-! ## A single join -/

variable (database) in
/-- Every further input is joined fully, with all its rows. -/
theorem withRows_combineJoin {right : Subquery} {join : Join Relation} (grouped : items ≠ [])
    (ok : combineJoin items inputs right = .ok join) :
    (join.withRows database).kind = .fullOuter ∧
      (join.withRows database).table = ⟨right.source.rows database, some right.name⟩ := by
  rw [combineJoin, if_neg (by simpa using grouped)] at ok
  obtain ⟨on, _, ⟨⟩⟩ := bind_eq_ok.mp ok
  exact ⟨rfl, rfl⟩

variable (database) in
/-- Rows side by side meet those rows whose key they have, if it has no nulls. -/
theorem meets_combineJoin {right : Subquery} {join : Join Relation}
    (distinct : ((inputs ++ [right]).map Subquery.name).Nodup) (grouped : items ≠ [])
    (ok : combineJoin items inputs right = .ok join) (pick : Subquery → Option (Row α))
    (other : Row α) :
    (join.withRows database).meets database (sideBySide inputs pick) other = true ↔
      IsFull (right.keyOf items other) = true ∧
        sharedKey items inputs pick = right.keyOf items other := by
  rw [combineJoin, if_neg (by simpa using grouped)] at ok
  obtain ⟨on, computed, ⟨⟩⟩ := bind_eq_ok.mp ok
  rw [List.map_append, List.nodup_append] at distinct
  obtain ⟨before, _, apart⟩ := distinct
  have absent : some right.name ∉ (sideBySide inputs pick).map Prod.fst := by
    rw [map_fst_sideBySide]
    intro member
    obtain ⟨name, among, same⟩ := List.mem_map.mp member
    exact apart name among right.name List.mem_cons_self (Option.some.inj same)
  have each : List.Forall₂ (fun item (condition : Expr) =>
      condition.holds database (sideBySide inputs pick ++ [(some right.name, other)]) = true ↔
        (right.valueOf other item.content).isSome = true ∧
          firstOf inputs pick item.content = right.valueOf other item.content) items on := by
    refine (mapM_eq_ok.mp computed).imp fun item condition equates => ?_
    obtain ⟨left, isFirst, equates⟩ := bind_eq_ok.mp equates
    obtain ⟨key, found, ⟨⟩⟩ := bind_eq_ok.mp equates
    have leftValue : left.value database [] (sideBySide inputs pick ++ [(some right.name, other)]) =
        firstOf inputs pick item.content := value_firstValue before isFirst
    have rightValue : key.value database [] (sideBySide inputs pick ++ [(some right.name, other)]) =
        right.valueOf other item.content := by
      obtain ⟨column, get, rfl⟩ := Subquery.columnFor_eq_ok.mp found
      rw [Subquery.valueOf, get, Option.bind_some]
      exact JoinedRow.value_append_self absent
    rw [Expr.holds_equal, leftValue, rightValue, Option.isSome_iff_exists]
    constructor
    · rintro ⟨value, first, second⟩
      exact ⟨⟨value, second⟩, first.trans second.symm⟩
    · rintro ⟨⟨value, second⟩, same⟩
      exact ⟨value, same.trans second, second⟩
  have alike : sharedKey items inputs pick = right.keyOf items other ↔
      ∀ item ∈ items, firstOf inputs pick item.content = right.valueOf other item.content :=
    List.map_inj_left
  have full : IsFull (right.keyOf items other) = true ↔
      ∀ item ∈ items, (right.valueOf other item.content).isSome = true := by
    rw [IsFull, Subquery.keyOf, List.all_map, List.all_eq_true]
    rfl
  rw [Join.meets, List.all_eq_true, alike, full, ← forall₂_and]
  constructor
  · intro holds item member
    obtain ⟨condition, among, holds_iff⟩ := exists_right_of_forall₂ each member
    exact holds_iff.mp (holds condition among)
  · intro given condition among
    obtain ⟨item, member, holds_iff⟩ := exists_left_of_forall₂ each among
    exact holds_iff.mpr (given item member)

/-! ## Joined rows -/

/-- A full join takes no account of the order of rows. -/
theorem Join.rows_perm {join : Join (List (Row α))} (kind : join.kind = .fullOuter)
    (names : List (Option String)) {rows others : List (JoinedRow α)} (perm : rows.Perm others) :
    (join.rows database names rows).Perm (join.rows database names others) := by
  have unmatched : join.unmatched database names rows = join.unmatched database names others := by
    rw [Join.unmatched, Join.unmatched]
    simp only [perm.any_eq]
  rw [Join.rows, Join.rows, kind]
  exact unmatched ▸ (perm.flatMap_right _).append_right _

section

variable {right : Subquery} (unique : ((right.source.rows database).map (right.keyOf items)).Nodup)

include unique

/-- A subquery has one row with a key or none. -/
theorem filter_keyOf_eq (key : List (Option α)) :
    (right.source.rows database).filter (right.keyOf items · == key) =
      (right.rowAt database items key).toList := by
  cases found : right.rowAt database items key with
  | none =>
      refine List.filter_eq_nil_iff.mpr fun row member => ?_
      exact List.find?_eq_none.mp found row member
  | some row =>
      have member := List.mem_of_find?_eq_some found
      rw [← keyOf_of_rowAt found, filter_eq_singleton_of_mem unique member]
      rfl

private theorem rowAt_keyOf {row : Row α} (member : row ∈ right.source.rows database) :
    right.rowAt database items (right.keyOf items row) = some row :=
  find?_eq_some_of_mem unique member

/-- The keys of one more subquery that others do not have are new. -/
theorem fullKeys_concat_perm (inputs : List Subquery) :
    (fullKeys database items (inputs ++ [right])).Perm (fullKeys database items inputs ++
      (((right.source.rows database).filter fun row => IsFull (right.keyOf items row) &&
        !(fullKeys database items inputs).contains (right.keyOf items row)).map
          (right.keyOf items))) := by
  refine (List.perm_ext_iff_of_nodup nodup_fullKeys ?_).mpr fun key => ?_
  · refine List.nodup_append.mpr ⟨nodup_fullKeys, ?_, ?_⟩
    · exact unique.sublist (List.filter_sublist.map _)
    · rintro key before _ after rfl
      obtain ⟨row, member, rfl⟩ := List.mem_map.mp after
      have new := (List.mem_filter.mp member).2
      simp [before] at new
  · rw [List.mem_append, List.mem_map]
    constructor
    · intro given
      obtain ⟨full, input, among, row, member, same⟩ := mem_fullKeys.mp given
      by_cases known : key ∈ fullKeys database items inputs
      · exact .inl known
      · rcases List.mem_append.mp among with among | last
        · exact (known (mem_fullKeys.mpr ⟨full, input, among, row, member, same⟩)).elim
        · obtain rfl := List.mem_singleton.mp last
          subst same
          exact .inr ⟨row, List.mem_filter.mpr ⟨member, by simp [full, known]⟩, rfl⟩
    · rintro (known | ⟨row, member, rfl⟩)
      · obtain ⟨full, input, among, rest⟩ := mem_fullKeys.mp known
        exact mem_fullKeys.mpr ⟨full, input, List.mem_append_left _ among, rest⟩
      · obtain ⟨member, new⟩ := List.mem_filter.mp member
        exact mem_fullKeys.mpr ⟨(Bool.and_eq_true _ _ ▸ new).1, right,
          List.mem_append_right _ (List.mem_singleton_self _), row, member, rfl⟩

/-- A row of one more subquery, next to nulls, where no other one has its key. -/
theorem nulls_append_eq {row : Row α} (member : row ∈ right.source.rows database)
    (new : right.keyOf items row ∉ fullKeys database items inputs)
    (full : IsFull (right.keyOf items row) = true) :
    ((inputs.map Subquery.name).map some).map (·, []) ++ [(some right.name, row)] =
      sideBySide (inputs ++ [right]) fun input =>
        input.rowAt database items (right.keyOf items row) := by
  rw [sideBySide_concat, rowAt_keyOf unique member, Option.getD_some, sideBySide_of_none]
  intro input among
  cases found : input.rowAt database items (right.keyOf items row) with
  | none => rfl
  | some other =>
      refine (new (mem_fullKeys.mpr ⟨full, input, among, other, ?_, keyOf_of_rowAt found⟩)).elim
      exact List.mem_of_find?_eq_some found

/-- What has been joined, next to one more subquery, and the rows of this one that are new. -/
theorem mergedAmong_concat_perm (distinct : ((inputs ++ [right]).map Subquery.name).Nodup) :
    (mergedAmong database items inputs (inputs ++ [right]) ++
      ((right.source.rows database).filter fun row =>
          !(fullKeys database items inputs).contains (right.keyOf items row)).map fun row =>
        ((inputs.map Subquery.name).map some).map (·, []) ++ [(some right.name, row)]).Perm
      (mergedAmong database items (inputs ++ [right]) (inputs ++ [right])) := by
  let others := (right.source.rows database).filter fun row =>
    !(fullKeys database items inputs).contains (right.keyOf items row)
  let chosen (key : List (Option α)) : JoinedRow α :=
    sideBySide (inputs ++ [right]) fun input => input.rowAt database items key
  let nulls (row : Row α) : JoinedRow α :=
    ((inputs.map Subquery.name).map some).map (·, []) ++ [(some right.name, row)]
  have keys : ((fullKeys database items (inputs ++ [right])).map chosen).Perm
      ((fullKeys database items inputs).map chosen ++
        (others.filter fun row => IsFull (right.keyOf items row)).map nulls) := by
    have new : (others.filter fun row => IsFull (right.keyOf items row)).map nulls =
        (((right.source.rows database).filter fun row => IsFull (right.keyOf items row) &&
          !(fullKeys database items inputs).contains (right.keyOf items row)).map
            (right.keyOf items)).map chosen := by
      rw [List.filter_filter, List.map_map]
      refine List.map_congr_left fun row member => ?_
      obtain ⟨member, isNew⟩ := List.mem_filter.mp member
      simp only [Bool.and_eq_true, Bool.not_eq_true', List.contains_eq_mem,
        decide_eq_false_iff_not] at isNew
      exact nulls_append_eq unique member isNew.2 isNew.1
    rw [new, ← List.map_append]
    exact (fullKeys_concat_perm unique inputs).map chosen
  have alone : (others.filter fun row => !IsFull (right.keyOf items row)).map nulls =
      (right.nullRows database items).map fun row =>
        sideBySide (inputs ++ [right]) (right.only row) := by
    have same : (others.filter fun row => !IsFull (right.keyOf items row)) =
        right.nullRows database items := by
      rw [List.filter_filter, Subquery.nullRows]
      refine List.filter_congr fun row _ => ?_
      cases full : IsFull (right.keyOf items row) with
      | true => rfl
      | false => simp [mem_fullKeys, full]
    rw [same]
    refine List.map_congr_left fun row _ => ?_
    rw [sideBySide_concat, sideBySide_of_none fun input among => ?_, Subquery.only, if_pos rfl]
    · rfl
    · rw [List.map_append, List.nodup_append] at distinct
      exact if_neg (distinct.2.2 _ (List.mem_map_of_mem among) _ List.mem_cons_self)
  have split : (others.map nulls).Perm
      ((others.filter fun row => IsFull (right.keyOf items row)).map nulls ++
        (others.filter fun row => !IsFull (right.keyOf items row)).map nulls) := by
    rw [← List.map_append]
    exact (List.filter_append_perm _ others).symm.map nulls
  rw [mergedAmong, mergedAmong, List.flatMap_append, List.flatMap_singleton, ← alone]
  refine (split.append_left _).trans (List.Perm.trans ?_ (keys.symm.append_right _))
  rw [List.append_assoc, List.append_assoc]
  exact .append_left _ (List.perm_append_comm_assoc ..)

end

variable {right : Subquery} {join : Join Relation}

/-- Rows side by side that meet just the row that is chosen of one more subquery are completed by
it. -/
theorem outer_sideBySide
    (table : (join.withRows database).table = ⟨right.source.rows database, some right.name⟩)
    (partners : (right.source.rows database).filter
      ((join.withRows database).meets database (sideBySide inputs pick)) = (pick right).toList) :
    (join.withRows database).outer database (sideBySide inputs pick) =
      [sideBySide (inputs ++ [right]) pick] := by
  have name : (join.withRows database).table.name = some right.name := congrArg TableRef.name table
  have source : (join.withRows database).table.source = right.source.rows database :=
    congrArg TableRef.source table
  rw [Join.outer, source, partners, sideBySide_concat, ← name]
  cases pick right <;> rfl

section

variable (distinct : ((inputs ++ [right]).map Subquery.name).Nodup) (grouped : items ≠ [])
  (ok : combineJoin items inputs right = .ok join)

include distinct grouped ok

/-- What has been merged meets just the rows whose key it has. -/
theorem any_mergedAmong (other : Row α) :
    (mergedAmong database items inputs inputs).any
      ((join.withRows database).meets database · other) =
      (fullKeys database items inputs).contains (right.keyOf items other) := by
  have meets := fun pick => meets_combineJoin database distinct grouped ok pick other
  have before : (inputs.map Subquery.name).Nodup :=
    distinct.sublist ((List.sublist_append_left ..).map _)
  rw [Bool.eq_iff_iff, List.any_eq_true, List.contains_iff_mem]
  constructor
  · rintro ⟨row, member, isMet⟩
    rcases List.mem_append.mp member with member | member
    · obtain ⟨key, known, rfl⟩ := List.mem_map.mp member
      obtain ⟨_, same⟩ := (meets _).mp isMet
      exact same ▸ (sharedKey_rowAt known).symm ▸ known
    · obtain ⟨input, among, member⟩ := List.mem_flatMap.mp member
      obtain ⟨alone, hasNull, rfl⟩ := List.mem_map.mp member
      obtain ⟨full, same⟩ := (meets _).mp isMet
      rw [← same, sharedKey_only before among] at full
      exact (Bool.eq_false_iff.mp (not_isFull hasNull) full).elim
  · intro known
    refine ⟨_, List.mem_append_left _ (List.mem_map_of_mem known), (meets _).mpr ⟨?_, ?_⟩⟩
    · exact (mem_fullKeys.mp known).1
    · exact sharedKey_rowAt known

/-- What has been merged, with the rows of one more subquery next to it. -/
theorem flatMap_outer_mergedAmong
    (unique : ((right.source.rows database).map (right.keyOf items)).Nodup) :
    (mergedAmong database items inputs inputs).flatMap ((join.withRows database).outer database) =
      mergedAmong database items inputs (inputs ++ [right]) := by
  have before : (inputs.map Subquery.name).Nodup :=
    distinct.sublist ((List.sublist_append_left ..).map _)
  have table := (withRows_combineJoin database grouped ok).2
  have meets := meets_combineJoin database distinct grouped ok
  rw [mergedAmong, mergedAmong, List.flatMap_append, List.flatMap_assoc, List.flatMap_map,
    List.map_eq_flatMap]
  congr 1
  · refine List.flatMap_congr fun key known => outer_sideBySide table ?_
    rw [← filter_keyOf_eq unique]
    refine List.filter_congr fun other _ => Bool.eq_iff_iff.mpr ?_
    rw [meets, sharedKey_rowAt known, beq_iff_eq]
    constructor
    · exact fun given => given.2.symm
    · exact fun same => ⟨same ▸ (mem_fullKeys.mp known).1, same.symm⟩
  · refine List.flatMap_congr fun input among => ?_
    rw [List.flatMap_map, List.map_eq_flatMap]
    refine List.flatMap_congr fun row member => outer_sideBySide table ?_
    rw [List.map_append, List.nodup_append] at distinct
    rw [only_of_ne fun same => distinct.2.2 _ (List.mem_map_of_mem among) _ List.mem_cons_self
      same.symm]
    refine List.filter_eq_nil_iff.mpr fun other _ isMet => ?_
    obtain ⟨full, same⟩ := (meets _ other).mp isMet
    rw [← same, sharedKey_only before among, not_isFull member] at full
    exact nomatch full

/-- Joining one more subquery merges its rows into what has been merged. -/
theorem rows_combineJoin_perm
    (unique : ((right.source.rows database).map (right.keyOf items)).Nodup)
    (perm : rows.Perm (mergedAmong database items inputs inputs)) :
    ((join.withRows database).rows database ((inputs.map Subquery.name).map some) rows).Perm
      (mergedAmong database items (inputs ++ [right]) (inputs ++ [right])) := by
  obtain ⟨kind, table⟩ := withRows_combineJoin database grouped ok
  refine (Join.rows_perm kind _ perm).trans (.trans ?_ (mergedAmong_concat_perm unique distinct))
  have name : (join.withRows database).table.name = some right.name := congrArg TableRef.name table
  have source : (join.withRows database).table.source = right.source.rows database :=
    congrArg TableRef.source table
  rw [Join.rows, kind]
  simp only [flatMap_outer_mergedAmong distinct grouped ok unique, Join.unmatched, source,
    any_mergedAmong distinct grouped ok]
  refine .append_left _ (.of_eq (List.map_congr_left fun row _ => ?_))
  rw [Join.extend, name]

end

/-! ## All joins -/

private theorem joinRows_combineJoins_perm {rest : List Subquery} {joins : List (Join Relation)}
    (distinct : ((inputs ++ rest).map Subquery.name).Nodup) (grouped : items ≠ [])
    (ok : combineJoins items inputs rest = .ok joins)
    (unique : ∀ right ∈ rest, ((right.source.rows database).map (right.keyOf items)).Nodup)
    (perm : rows.Perm (mergedAmong database items inputs inputs)) :
    (joinRows database ((inputs.map Subquery.name).map some) rows
      (joins.map (Join.withRows database))).Perm
        (mergedAmong database items (inputs ++ rest) (inputs ++ rest)) := by
  induction rest generalizing inputs rows joins with
  | nil =>
      obtain rfl := Except.ok.inj ok
      rwa [List.append_nil]
  | cons right rest ih =>
      obtain ⟨join, isJoin, ok⟩ := bind_eq_ok.mp ok
      obtain ⟨joins, areJoins, ⟨⟩⟩ := bind_eq_ok.mp ok
      rw [List.append_cons] at distinct ⊢
      have first : ((inputs ++ [right]).map Subquery.name).Nodup :=
        distinct.sublist ((List.sublist_append_left ..).map _)
      obtain ⟨_, table⟩ := withRows_combineJoin database grouped isJoin
      have name : (join.withRows database).table.name = some right.name :=
        congrArg TableRef.name table
      rw [List.map_cons, joinRows, name]
      have merged := ih distinct areJoins (fun other among => unique other (.tail _ among))
        (rows_combineJoin_perm first grouped isJoin (unique right List.mem_cons_self) perm)
      rwa [List.map_append, List.map_append] at merged

/-- Outputs that are joined one after the other are merged. -/
theorem joined_combineJoins_perm {first : Subquery} {rest : List Subquery}
    {joins : List (Join Relation)} (distinct : ((first :: rest).map Subquery.name).Nodup)
    (grouped : items ≠ []) (ok : combineJoins items [first] rest = .ok joins)
    (unique : ∀ input ∈ first :: rest,
      ((input.source.rows database).map (input.keyOf items)).Nodup) :
    (first.tableRef.joined database joins).Perm
      (mergedAmong database items (first :: rest) (first :: rest)) := by
  refine joinRows_combineJoins_perm distinct grouped ok
    (fun other among => unique other (.tail _ among)) ?_
  have distinct : (([] ++ [first]).map Subquery.name).Nodup := List.nodup_singleton _
  have start := mergedAmong_concat_perm (unique first List.mem_cons_self) distinct
  have new : ((first.source.rows database).filter fun row =>
      !(fullKeys database items []).contains (first.keyOf items row)) =
        first.source.rows database := List.filter_eq_self.mpr fun _ _ => rfl
  rw [new] at start
  exact start

end

end MetricQuery.Sql

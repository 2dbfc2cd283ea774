import MetricQuery.Sql.Printing

/-! # Names in quotes

A name that is declared becomes a single identifier, and the name of a table that is read becomes
one identifier for each part between points. The two agree only on equal names without a point
(`tableName_eq_identifier_iff`).
-/

namespace MetricQuery.Sql

/-- Characters as they stand inside double quotes. -/
def doubled (chars : List Char) : List Char :=
  chars.flatMap fun c => if c = '"' then [c, c] else [c]

/-- A quote is written twice, any other character once. -/
theorem doubled_cons (c : Char) (chars : List Char) :
    doubled (c :: chars) = c :: ((if c = '"' then [c] else []) ++ doubled chars) := by
  rw [doubled, List.flatMap_cons]
  split <;> rfl

/-- An identifier is its name with quotes doubled, between two of them. -/
theorem toList_identifier (name : String) :
    (identifier name).toList = '"' :: (doubled name.toList ++ ['"']) := by
  rw [identifier, enclose, String.toList_ofList]
  rfl

/-- No part of doubled characters ends within a doubled quote. -/
theorem exists_of_doubled_eq_append {chars part rest : List Char}
    (same : doubled chars = doubled part ++ rest) :
    ∃ others, chars = part ++ others ∧ rest = doubled others := by
  induction part generalizing chars with
  | nil => exact ⟨chars, rfl, same.symm⟩
  | cons c part ih =>
      cases chars with
      | nil =>
          rw [doubled_cons] at same
          exact nomatch same
      | cons first chars =>
          rw [doubled_cons, doubled_cons, List.cons_append, List.append_assoc] at same
          obtain ⟨rfl, same⟩ := List.cons.inj same
          obtain ⟨others, rfl, rest⟩ := ih (List.append_cancel_left same)
          exact ⟨others, rfl, rest⟩

private theorem identifier_inj {left right : String} (same : identifier left = identifier right) :
    left = right := by
  have inside := congrArg String.toList same
  rw [toList_identifier, toList_identifier] at inside
  have inside := List.append_cancel_right (List.cons.inj inside).2
  obtain ⟨others, chars, none⟩ := exists_of_doubled_eq_append
    (inside.trans (List.append_nil (doubled right.toList)).symm)
  cases others with
  | nil => exact String.toList_inj.mp (chars.trans (List.append_nil _))
  | cons c others =>
      rw [doubled_cons] at none
      exact nomatch none

private theorem tableName_eq_identifier {name : String} (plain : '.' ∉ name.toList) :
    tableName name = identifier name := by
  have single : name.toList.splitOn '.' = [name.toList] := by
    refine List.splitOnP_eq_singleton fun c member => beq_eq_false_iff_ne.mpr ?_
    rintro rfl
    exact plain member
  rw [tableName, single, List.map_singleton, List.map_singleton, String.intercalate_singleton,
    String.ofList_toList]

private theorem exists_concat_intercalate {parts : List String} (some : parts ≠ []) :
    ∃ inside, (String.intercalate "." (parts.map identifier)).toList = inside ++ ['"'] := by
  induction parts with
  | nil => exact (some rfl).elim
  | cons part rest ih =>
      cases rest with
      | nil =>
          rw [List.map_singleton, String.intercalate_singleton, toList_identifier]
          exact ⟨'"' :: doubled part.toList, rfl⟩
      | cons next rest =>
          obtain ⟨inside, ends⟩ := ih (List.cons_ne_nil _ _)
          rw [List.map_cons, List.map_cons, String.intercalate_cons_cons, String.toList_append,
            ← List.map_cons, ends, ← List.append_assoc]
          exact ⟨_, rfl⟩

/-- A name with several parts is read under no single identifier: its first part ends in a quote
that is followed by a point. -/
theorem tableName_ne_identifier {table : String} (parts : '.' ∈ table.toList) (name : String) :
    tableName table ≠ identifier name := by
  intro same
  obtain ⟨first, rest, split, plain⟩ := List.eq_append_cons_of_mem parts
  have cut : table.toList.splitOn '.' = first :: rest.splitOn '.' := by
    rw [split]
    refine List.splitOnP_append_cons_of_forall_mem (fun c member => ?_) '.' rfl rest
    refine beq_eq_false_iff_ne.mpr ?_
    rintro rfl
    exact plain member
  have others : (rest.splitOn '.').map String.ofList ≠ [] :=
    mt List.map_eq_nil_iff.mp (List.splitOnP_ne_nil _ _)
  obtain ⟨inside, ends⟩ := exists_concat_intercalate others
  obtain ⟨next, more, several⟩ := List.exists_cons_of_ne_nil others
  have chars := congrArg String.toList same
  rw [tableName, cut, List.map_cons, several, List.map_cons, List.map_cons,
    String.intercalate_cons_cons, ← List.map_cons, ← several, String.toList_append, ends,
    String.toList_append, toList_identifier, toList_identifier, String.toList_ofList] at chars
  have body : doubled name.toList = doubled first ++ '"' :: '.' :: inside := by
    refine @List.append_cancel_right _ _ ['"'] _ ?_
    simpa using (List.cons.inj chars).2.symm
  obtain ⟨tail, _, doubledTail⟩ := exists_of_doubled_eq_append body
  cases tail with
  | nil => exact nomatch doubledTail
  | cons c tail =>
      rw [doubled_cons] at doubledTail
      obtain ⟨rfl, doubledTail⟩ := List.cons.inj doubledTail
      exact absurd (List.cons.inj doubledTail).1 (by decide)

/-- A table is read under an identifier exactly if this is its name and has no parts. -/
theorem tableName_eq_identifier_iff {table name : String} :
    tableName table = identifier name ↔ table = name ∧ '.' ∉ name.toList := by
  by_cases plain : '.' ∈ table.toList
  · refine iff_of_false (tableName_ne_identifier plain name) ?_
    rintro ⟨rfl, absent⟩
    exact absent plain
  · rw [tableName_eq_identifier plain]
    constructor
    · intro same
      obtain rfl := identifier_inj same
      exact ⟨rfl, plain⟩
    · rintro ⟨rfl, _⟩
      rfl

end MetricQuery.Sql

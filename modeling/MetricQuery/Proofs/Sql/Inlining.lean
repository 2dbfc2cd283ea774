import Mathlib.Data.List.Nodup
import MetricQuery.Proofs.Sql.Reading
import MetricQuery.Proofs.Sql.Renaming

/-! # Inlining through steps

When a relation over common table expressions says the same as a plain one (`Inlines`), and that
every step keeps this: from inputs that say the same as plain data sets it makes what it makes of
the plain data sets, whatever different names the inputs have (`assemble_inlines`).
-/

namespace MetricQuery.Sql

/-! ## Replacing common table expressions -/

namespace Relation

private theorem replaceCtes_table_of_not_mem {ctes : List Cte} {name : String}
    (other : name ∉ ctes.map (·.name)) : (table name).replaceCtes ctes = table name := by
  have absent : ctes.find? (·.name == name) = none := by
    refine List.find?_eq_none.mpr fun cte member same => other ?_
    exact List.mem_map.mpr ⟨cte, member, beq_iff_eq.mp same⟩
  rw [replaceCtes_table, absent]
  rfl

private theorem replaceCtes_table_append {ctes later : List Cte} (cte : Cte)
    (first : cte.name ∉ ctes.map (·.name)) :
    (table cte.name).replaceCtes (ctes ++ cte :: later) = cte.body := by
  have absent : ctes.find? (·.name == cte.name) = none := by
    refine List.find?_eq_none.mpr fun other member same => first ?_
    exact List.mem_map.mpr ⟨other, member, beq_iff_eq.mp same⟩
  have found : (cte :: later).find? (·.name == cte.name) = some cte :=
    List.find?_cons_of_pos (beq_self_eq_true cte.name)
  rw [replaceCtes_table, List.find?_append, absent, Option.none_or, found]
  rfl

/-- A relation that reads no common table expression stays. -/
theorem replaceCtes_of_unread {ctes : List Cte} {relation : Relation}
    (unread : ∀ cte ∈ ctes, cte.name ∉ relation.tables) :
    relation.replaceCtes ctes = relation := by
  induction relation using inductionOn with
  | table name =>
      apply replaceCtes_table_of_not_mem
      intro member
      obtain ⟨cte, present, same⟩ := List.mem_map.mp member
      exact unread cte present (by rw [tables_table, same, List.mem_singleton])
  | select statement ih =>
      have sources : ∀ source ∈ statement.sources, source.replaceCtes ctes = id source := by
        refine fun source member => ih source member fun cte present read => ?_
        apply unread cte present
        rw [tables_select]
        exact List.mem_flatMap.mpr ⟨source, member, read⟩
      rw [replaceCtes_select, Select.mapSources_congr sources, Select.mapSources_id]

/-- Replacing common table expressions that are not read changes nothing, however often. -/
theorem iterate_replaceCtes_of_unread {ctes : List Cte} {relation : Relation}
    (unread : ∀ cte ∈ ctes, cte.name ∉ relation.tables) (rounds : Nat) :
    (replaceCtes ctes)^[rounds] relation = relation :=
  Function.iterate_fixed (replaceCtes_of_unread unread) rounds

end Relation

/-! ## Saying the same as a plain relation -/

/-- No model is stored in a table that is named like one of some common table expressions. -/
def AreFresh (catalog : Catalog) (ctes : List Cte) : Prop :=
  ∀ model ∈ catalog.manifest.models, ∀ cte ∈ ctes, model.table ≠ cte.name

/-- With its common table expressions in place of their names a relation says the same as a plain
one, whatever expressions are added later, as long as none of them hides a model. -/
def Inlines (catalog : Catalog) (ctes : List Cte) (relation plain : Relation) : Prop :=
  ∀ later rounds, AreFresh catalog (ctes ++ later) → ctes.length ≤ rounds →
    ((Relation.replaceCtes (ctes ++ later))^[rounds] relation).positional = plain.positional

namespace Inlines

variable {catalog : Catalog} {ctes : List Cte} {relation plain : Relation}

/-- Common table expressions listed later are not needed to inline. -/
theorem append (inlines : Inlines catalog ctes relation plain) (later : List Cte) :
    Inlines catalog (ctes ++ later) relation plain := by
  intro further rounds fresh enough
  rw [List.append_assoc] at fresh ⊢
  rw [List.length_append] at enough
  exact inlines (later ++ further) rounds fresh (Nat.le_of_add_right_le enough)

/-- The name of a new common table expression stands for the expression. -/
theorem named (inlines : Inlines catalog ctes relation plain) {name : String}
    (new : name ∉ ctes.map (·.name)) :
    Inlines catalog (ctes ++ [⟨name, relation⟩]) (.table name) plain := by
  intro further rounds fresh enough
  rw [List.length_append, List.length_singleton] at enough
  obtain ⟨rounds, rfl⟩ : ∃ fewer, rounds = fewer + 1 := ⟨rounds - 1, by omega⟩
  rw [List.append_assoc, List.singleton_append] at fresh ⊢
  rw [Function.iterate_succ_apply,
    Relation.replaceCtes_table_append ⟨name, relation⟩ new]
  exact inlines (⟨name, relation⟩ :: further) rounds fresh (Nat.le_of_succ_le_succ enough)

/-- A relation over models alone says the same as before. -/
theorem of_models (same : relation.positional = plain.positional)
    (models : ∀ name ∈ relation.tables, ∃ model ∈ catalog.manifest.models, model.table = name) :
    Inlines catalog ctes relation plain := by
  intro later rounds fresh _
  rw [Relation.iterate_replaceCtes_of_unread, same]
  intro cte member read
  obtain ⟨model, present, stored⟩ := models cte.name read
  exact fresh model present cte member stored

end Inlines

/-! ## Subqueries by their places -/

/-- A select over subqueries, apart from the names of the subqueries and of what is in them. -/
theorem positional_eq_transport {dataSet : DataSet} {inputs : List Subquery}
    (reads : dataSet.ReadsFrom inputs) (ctes : List Cte) (rounds : Nat) :
    ((Relation.replaceCtes ctes)^[rounds] dataSet.source).positional =
      (dataSet.transport (Select.placeName (inputs.map (·.name)))
        (Relation.positional ∘ (Relation.replaceCtes ctes)^[rounds])).source := by
  obtain ⟨columns, source⟩ := dataSet
  obtain ⟨statement, rfl, tables⟩ := reads
  rw [Relation.iterate_replaceCtes_select, Relation.positional_select, Select.mapSources_mapSources,
    Select.positional, Select.tableNames_mapSources, DataSet.ReadsFrom.tableNames_eq tables]
  rfl

private theorem placeName_getElem {names : List String} (distinct : names.Nodup) (place : Nat)
    (bound : place < names.length) :
    Select.placeName names names[place] = Text.decimal place := by
  rw [Select.placeName, if_pos (List.getElem_mem bound), distinct.idxOf_getElem]

/-- Subqueries with distinct names, called by their places. -/
theorem map_transport_eq_placed {inputs : List Subquery} {dataSets : List DataSet}
    {change changePlain : Relation → Relation} (distinct : (inputs.map (·.name)).Nodup)
    (alike : List.Forall₂ (fun input dataSet => input.columns = dataSet.columns ∧
      change input.source = changePlain dataSet.source) inputs dataSets) :
    inputs.map (Subquery.transport (Select.placeName (inputs.map (·.name))) change) =
      placed (dataSets.map fun dataSet => ⟨dataSet.columns, changePlain dataSet.source⟩) := by
  refine List.ext_getElem ?_ fun place bound further => ?_
  · rw [List.length_map, placed, List.length_mapIdx, List.length_map, alike.length_eq]
  · rw [List.length_map] at bound
    have named := placeName_getElem distinct place (by rwa [List.length_map])
    rw [List.getElem_map] at named
    obtain ⟨columns, source⟩ := (List.forall₂_iff_get.mp alike).2 place bound
      (alike.length_eq ▸ bound)
    simp only [List.get_eq_getElem] at columns source
    simp only [List.getElem_map, placed, List.getElem_mapIdx, Subquery.transport, named, columns,
      source]

/-- Data sets placed side by side have different names. -/
theorem placed_nodup (dataSets : List DataSet) : ((placed dataSets).map (·.name)).Nodup := by
  have names : (placed dataSets).map (·.name) = (List.range dataSets.length).map Text.decimal := by
    refine List.ext_getElem ?_ fun place _ _ => ?_
    · rw [List.length_map, placed, List.length_mapIdx, List.length_map, List.length_range]
    · simp only [List.getElem_map, placed, List.getElem_mapIdx, List.getElem_range]
  rw [names]
  exact List.nodup_range.map fun _ _ same => Text.decimal_inj same

/-- Data sets are related to the plans they stand for where they are placed. -/
theorem forall₂_placed {related : Dataflow → DataSet → Prop} {plans : List Dataflow}
    {dataSets : List DataSet} (alike : List.Forall₂ related plans dataSets) :
    List.Forall₂ (fun plan (subquery : Subquery) =>
      related plan ⟨subquery.columns, subquery.source⟩) plans (placed dataSets) := by
  rw [List.forall₂_iff_get] at alike ⊢
  refine ⟨by rw [placed, List.length_mapIdx, alike.1], fun place inPlans inPlaced => ?_⟩
  simp only [List.get_eq_getElem, placed, List.getElem_mapIdx]
  exact alike.2 place inPlans (alike.1 ▸ inPlans)

private theorem map_transport_placed (dataSets : List DataSet) (change : Relation → Relation) :
    (placed dataSets).map (Subquery.transport
        (Select.placeName ((placed dataSets).map (·.name))) change) =
      placed (dataSets.map fun dataSet => ⟨dataSet.columns, change dataSet.source⟩) := by
  apply map_transport_eq_placed (placed_nodup dataSets)
  rw [placed, List.forall₂_iff_get]
  refine ⟨List.length_mapIdx, fun place bound further => ?_⟩
  simp only [List.get_eq_getElem, List.getElem_mapIdx, and_self]

/-! ## Steps -/

variable {catalog : Catalog} {ctes : List Cte}

/-- A step makes of subqueries with distinct names what it makes of plain data sets that say the
same. -/
theorem assemble_inlines {step : Step} (reads : ∀ model, step ≠ .read model)
    (results : step ≠ .result) {inputs : List Subquery} {plains : List DataSet}
    (distinct : (inputs.map (·.name)).Nodup)
    (alike : List.Forall₂ (fun input plain => input.columns = plain.columns ∧
      Inlines catalog ctes input.source plain.source) inputs plains) :
    Alike (fun dataSet plain : DataSet => dataSet.columns = plain.columns ∧
        Inlines catalog ctes dataSet.source plain.source)
      (assemble step inputs) (assemble step (placed plains)) := by
  -- Whatever is done to the sources, both sides are carried to the same result.
  have common : ∀ change changePlain : Relation → Relation,
      List.Forall₂ (fun input plain => input.columns = plain.columns ∧
        change input.source = changePlain plain.source) inputs plains →
      Alike (fun dataSet plain : DataSet =>
          dataSet.transport (Select.placeName (inputs.map (·.name))) change =
            plain.transport (Select.placeName ((placed plains).map (·.name))) changePlain)
        (assemble step inputs) (assemble step (placed plains)) := by
    intro change changePlain same
    have left := assemble_transport (Select.placeName (inputs.map (·.name))) change step inputs
      reads results
    have right := assemble_transport (Select.placeName ((placed plains).map (·.name)))
      changePlain step (placed plains) reads results
    rw [map_transport_eq_placed distinct same] at left
    rw [map_transport_placed] at right
    exact .of_carried left right
  have columns := common (fun _ => .table "") (fun _ => .table "")
    (alike.imp fun _ _ both => ⟨both.1, rfl⟩)
  have sources : ∀ later rounds, AreFresh catalog (ctes ++ later) → ctes.length ≤ rounds → _ :=
    fun later rounds fresh enough =>
      common (Relation.positional ∘ (Relation.replaceCtes (ctes ++ later))^[rounds])
        (Relation.positional ∘ (Relation.replaceCtes [])^[0])
        (alike.imp fun _ _ both => ⟨both.1, both.2 later rounds fresh enough⟩)
  generalize first : assemble step inputs = left at columns sources ⊢
  generalize second : assemble step (placed plains) = right at columns sources ⊢
  cases columns with
  | error => exact .error _ _
  | ok same =>
      have columns := congrArg DataSet.columns same
      refine .ok ⟨columns, fun later rounds fresh enough => ?_⟩
      have carried := (sources later rounds fresh enough).related_of_ok
      rw [positional_eq_transport (assemble_reads reads results first), carried]
      exact (positional_eq_transport (assemble_reads reads results second) [] 0).symm

end MetricQuery.Sql

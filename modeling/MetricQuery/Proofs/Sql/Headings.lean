import MetricQuery.Proofs.Dataflow.Supplementing
import MetricQuery.Proofs.Sql.Sharing

/-! # Headings

The names of the columns of each select in a statement (`Relation.headings`). Wherever the columns
of every part of a plan are told by their names, no select in its statement has two columns of one
name, however parts of the plan are shared (`Statement.nodup_headings_of_ofPlan`).
-/

namespace MetricQuery.Sql

/-! ## Names of columns -/

/-- The names of the columns of each select in a relation. -/
def Relation.headings (relation : Relation) : List (List (Option String)) :=
  relation.fold (fun _ => []) fun statement =>
    statement.items.map SelectItem.columnName :: statement.tables.flatMap TableRef.source

/-- A stored table has no select of its own. -/
@[simp]
theorem Relation.headings_table (name : String) : (table name).headings = [] := fold_table ..

/-- A select has its own headings and those of its sources. -/
@[simp]
theorem Relation.headings_select (statement : Select Relation) :
    (select statement).headings = statement.items.map SelectItem.columnName ::
      statement.sources.flatMap Relation.headings := by
  rw [headings, fold_select, Select.tables_mapSources, List.flatMap_map, Select.sources,
    List.flatMap_map]
  rfl

/-- The names of the columns of each select in a statement. -/
def Statement.headings (statement : Statement) : List (List (Option String)) :=
  statement.relations.flatMap Relation.headings

/-- Whether no select in a relation has two columns of one name. -/
def Relation.NamesApart (relation : Relation) : Prop :=
  ∀ heading ∈ relation.headings, heading.Nodup

/-- A stored table keeps its names apart. -/
theorem Relation.namesApart_table (name : String) : (table name).NamesApart := by
  rw [NamesApart, headings_table]
  exact List.forall_mem_nil _

private theorem Relation.namesApart_select {statement : Select Relation}
    (distinct : (statement.items.map SelectItem.columnName).Nodup)
    (sources : ∀ source ∈ statement.sources, source.NamesApart) :
    (select statement).NamesApart := by
  rw [NamesApart, headings_select]
  refine List.forall_mem_cons.mpr ⟨distinct, fun heading member => ?_⟩
  obtain ⟨source, among, inside⟩ := List.mem_flatMap.mp member
  exact sources source among heading inside

/-- A data set that selects its columns under different names has these names apart, if what it
reads has. -/
theorem DataSet.ComputesFrom.namesApart {dataSet : DataSet} {inputs : List Subquery}
    {statement : Select Relation} (computes : dataSet.ComputesFrom inputs)
    (select : dataSet.source = .select statement)
    (distinct : (dataSet.columns.map Column.name).Nodup)
    (sources : ∀ source ∈ statement.sources, source.NamesApart) : dataSet.source.NamesApart := by
  obtain ⟨other, same, items, _⟩ := computes
  obtain rfl := Relation.select.inj (select.symm.trans same)
  rw [select]
  refine Relation.namesApart_select ?_ sources
  rw [items]
  exact distinct.map fun _ _ => Option.some.inj

/-! ## Conversion -/

section

variable {context : Context} {plan : Dataflow} {dataSet : DataSet} {before after : Progress}

/-- Columns that are told by their names have different names. -/
theorem Converts.nodup_names {catalog : Catalog} (apart : catalog.manifest.LabelsApart)
    (legible : Dataflow.IsLegible catalog plan) (converts : Converts catalog plan dataSet) :
    (dataSet.columns.map Column.name).Nodup := by
  have names : dataSet.columns.map Column.name =
      (dataSet.columns.map Column.content).map ColumnContent.columnName := by
    rw [List.map_map]
    exact List.map_congr_left converts.named
  rw [names]
  refine converts.nodup_contents.map_on fun content held other otherHeld same => ?_
  obtain ⟨column, among, rfl⟩ := List.mem_map.mp held
  obtain ⟨another, otherAmong, rfl⟩ := List.mem_map.mp otherHeld
  exact legible.eq_of_columnName_eq apart
    ⟨dataSet, converts, Columns.contains_iff.mpr ⟨column, among, rfl⟩⟩
    ⟨dataSet, converts, Columns.contains_iff.mpr ⟨another, otherAmong, rfl⟩⟩ same

/-- Whether no select in the common table expressions so far has two columns of one name. -/
def Progress.NamesApart (progress : Progress) : Prop :=
  ∀ cte ∈ progress.ctes, cte.body.NamesApart

/-- What has been generated behind a part, and what stands for it, has names apart. -/
def KeepsNames (context : Context) (_ : Dataflow) (before : Progress) (dataSet : DataSet)
    (after : Progress) : Prop :=
  Sound context before → before.NamesApart →
    Sound context after ∧ after.NamesApart ∧ dataSet.source.NamesApart

namespace Lower

/-- Inputs converted in turn keep their names apart, and so do the bodies stored on the way. -/
theorem InTurn.namesApart {inputs : List Dataflow} {subqueries : List Subquery}
    (run : InTurn context (KeepsNames context) inputs before subqueries after)
    (sound : Sound context before) (apart : before.NamesApart) :
    after.NamesApart ∧ ∀ subquery ∈ subqueries, subquery.source.NamesApart := by
  induction run with
  | nil => exact ⟨apart, List.forall_mem_nil _⟩
  | cons first _ ih =>
      obtain ⟨middle, named, source⟩ := first sound apart
      obtain ⟨last, sources⟩ := ih (middle.nextSubquery _) named
      exact ⟨last, List.forall_mem_cons.mpr ⟨source, sources⟩⟩

private theorem namesApart_of_ofInputs {step : Step} {inputs : List Dataflow}
    (each : ∀ input ∈ inputs, ∀ before dataSet after,
      ofPlan context input before = .ok (dataSet, after) →
        KeepsNames context input before dataSet after)
    (ok : ofInputs context step inputs before = .ok (dataSet, after))
    (distinct : (dataSet.columns.map Column.name).Nodup) (sound : Sound context before)
    (apart : before.NamesApart) : after.NamesApart ∧ dataSet.source.NamesApart := by
  let inside : Dataflow → Progress → DataSet → Progress → Prop :=
    fun _ before dataSet after => (dataSet.columns.map Column.name).Nodup →
      Sound context before → before.NamesApart → after.NamesApart ∧ dataSet.source.NamesApart
  refine @inside_of_ofInputs context before after inside (KeepsNames context) ?_ ?_ ?_ step inputs
    dataSet each ok distinct sound apart
  · intro name inputs model before _ distinct _ apart
    refine ⟨apart, ((readModel_computes model _).namesApart rfl distinct ?_)⟩
    exact List.forall_mem_singleton.mpr (Relation.namesApart_table model.table)
  · exact fun input before dataSet after keeps _ sound apart => (keeps sound apart).2
  · intro step inputs before subqueries dataSet after reads results run ok distinct sound apart
    obtain ⟨last, sources⟩ := run.namesApart sound apart
    obtain ⟨statement, select, tables⟩ := assemble_reads reads results ok
    refine ⟨last, (assemble_computes reads results ok).namesApart select distinct ?_⟩
    rw [DataSet.ReadsFrom.sources_eq tables]
    exact List.forall_mem_map.mpr sources

private theorem nodup_names_of_ofInputs {step : Step} {inputs : List Dataflow}
    (apart : context.catalog.manifest.LabelsApart)
    (legible : Dataflow.IsLegible context.catalog (.node step inputs))
    (sound : Sound context before)
    (ok : ofInputs context step inputs before = .ok (dataSet, after)) :
    (dataSet.columns.map Column.name).Nodup := by
  -- Whatever is shared, the columns are those of a conversion that shares nothing.
  have agrees := @ofInputs_agrees context step inputs (fun input _ => ofPlan_agrees input) before
    sound
  rw [ok] at agrees
  generalize plainly : DataSet.ofInputs context.catalog step inputs = plain at agrees
  cases agrees with
  | ok same =>
      rw [same.2.2.1]
      exact (DataSet.converts_of_ofPlan (by rw [DataSet.ofPlan, plainly])).nodup_names apart legible

/-- If the columns of every part of a plan are told by their names, then its conversion keeps the
names of columns apart in every select. -/
theorem keepsNames_of_ofPlan (apart : context.catalog.manifest.LabelsApart)
    (parts : Dataflow.HasLegibleParts context.catalog plan) :
    ∀ before dataSet after, ofPlan context plan before = .ok (dataSet, after) →
      KeepsNames context plan before dataSet after := by
  induction plan using Dataflow.inductionOn with
  | node step inputs ih =>
      intro before dataSet after ok sound named
      obtain ⟨legible, each⟩ := Dataflow.hasLegibleParts_node_iff.mp parts
      have inside : ∀ {converted : DataSet} {middle : Progress},
          ofInputs context step inputs before = .ok (converted, middle) →
          middle.NamesApart ∧ converted.source.NamesApart := fun run =>
        namesApart_of_ofInputs (fun input among => ih input among (each input among)) run
          (nodup_names_of_ofInputs apart legible sound run) sound named
      have agrees := ofPlan_agrees (.node step inputs) before sound
      rw [ok] at agrees
      have after_sound : Sound context after := by
        generalize DataSet.ofPlan context.catalog (.node step inputs) = plain at agrees
        cases agrees with
        | ok same => exact same.2.1
      refine ⟨after_sound, ?_⟩
      rw [run_ofPlan] at ok
      split at ok
      · split at ok
        · -- The part has been met before, and is only read by the name of its expression.
          obtain ⟨⟩ := ok
          exact ⟨named, Relation.namesApart_table _⟩
        · obtain ⟨⟨converted, middle⟩, run, ⟨⟩⟩ := bind_eq_ok.mp ok
          obtain ⟨last, source⟩ := inside run
          exact ⟨List.forall_mem_append.mpr ⟨last, List.forall_mem_singleton.mpr source⟩,
            Relation.namesApart_table _⟩
      · exact inside ok

end Lower

end

/-- If the columns of every part of a plan are told by their names, then no select in a statement of
the plan has two columns of one name. -/
theorem Statement.nodup_headings_of_ofPlan {catalog : Catalog} {settings : SqlSettings}
    {plan : Dataflow} {sharing : Sharing} {statement : Statement}
    (apart : catalog.manifest.LabelsApart) (parts : Dataflow.HasLegibleParts catalog plan)
    (ok : Statement.ofPlan catalog settings plan sharing = .ok statement) :
    ∀ heading ∈ statement.headings, heading.Nodup := by
  obtain ⟨dataSet, progress, converted, rfl⟩ := Statement.ofPlan_eq_ok.mp ok
  obtain ⟨_, ctes, root⟩ := Lower.keepsNames_of_ofPlan apart parts _ _ _ converted .start
    (List.forall_mem_nil _)
  intro heading member
  obtain ⟨relation, among, inside⟩ := List.mem_flatMap.mp member
  rcases List.mem_append.mp among with body | last
  · obtain ⟨cte, isCte, rfl⟩ := List.mem_map.mp body
    exact ctes cte isCte heading inside
  · obtain rfl := List.mem_singleton.mp last
    exact root heading inside

end MetricQuery.Sql

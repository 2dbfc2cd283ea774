import MetricQuery.Proofs.Sql.Computing
import MetricQuery.Proofs.Sql.Runs
import MetricQuery.Proofs.Sql.Sharing

/-! # Statements are well scoped

The statement of a plan introduces every generated name of a subquery exactly once, and every select
in it reads only columns that one of its own tables selects (`Statement.isScoped_of_ofPlan`). On the
way, the names generated so far are those in common table expressions and in what has been converted
but not yet used (`Lower.Introduces`), and what has been converted selects columns of the names that
its columns have, whether it is a select or has been shared (`DataSet.IsScoped`).
-/

namespace MetricQuery.Sql

open Lower

/-! ## Names of subqueries -/

namespace Lower

/-- Whether the names generated so far are those in common table expressions and some others, each
once. -/
def Introduces (context : Context) (progress : Progress) (others : List String) : Prop :=
  (progress.ctes.flatMap (·.body.subqueryNames) ++ others).Perm
    ((List.range progress.nextSubquery).map (generatedName context.settings.subqueryStem))

variable {context : Context} {before after progress : Progress}

namespace Introduces

/-- The order of the other names does not matter. -/
theorem perm {others further : List String} (introduces : Introduces context progress others)
    (same : further.Perm others) : Introduces context progress further :=
  (same.append_left _).trans introduces

/-- A new subquery name is introduced among the others. -/
theorem naming {others : List String} (introduces : Introduces context progress others) :
    Introduces context progress.naming
      (others ++ [generatedName context.settings.subqueryStem progress.nextSubquery]) := by
  have extended := introduces.append_right
    [generatedName context.settings.subqueryStem progress.nextSubquery]
  rw [List.append_assoc] at extended
  refine extended.trans (.of_eq ?_)
  rw [Progress.naming, List.range_succ, List.map_append, List.map_singleton]

/-- A shared part takes the names of its relation with it. -/
theorem sharing {others : List String} (plan : Dataflow) {dataSet : DataSet}
    (introduces : Introduces context progress (others ++ dataSet.source.subqueryNames)) :
    Introduces context (progress.sharing context plan dataSet) others := by
  refine List.Perm.trans ?_ introduces
  rw [Progress.sharing, List.flatMap_append, List.flatMap_singleton, List.append_assoc]
  exact List.perm_append_comm.append_left _

/-- Inputs converted in turn introduce the names of their relations and their own. -/
theorem inTurn {plans : List Dataflow} {subqueries : List Subquery}
    (run : InTurn context (fun _ before dataSet after => ∀ others,
      Introduces context before others →
        Introduces context after (others ++ dataSet.source.subqueryNames))
      plans before subqueries after) :
    ∀ others, Introduces context before others → Introduces context after
      (others ++ subqueries.flatMap fun input => input.name :: input.source.subqueryNames) := by
  induction run with
  | nil progress =>
      intro others introduces
      rwa [List.flatMap_nil, List.append_nil]
  | @cons plan rest before middle after dataSet subqueries first later ih =>
      intro others introduces
      refine (ih _ (first others introduces).naming).perm ?_
      have moved := ((List.perm_append_singleton
        (generatedName context.settings.subqueryStem middle.nextSubquery)
        dataSet.source.subqueryNames).symm.append_left others).append_right
          (subqueries.flatMap fun input => input.name :: input.source.subqueryNames)
      simpa only [List.flatMap_cons, List.append_assoc, List.cons_append] using moved

end Introduces

private theorem subqueryNames_readModel (model : SemanticModel) (name : String) :
    (readModel model name).source.subqueryNames = [name] := by
  rw [readModel, Selection.dataSet, Relation.subqueryNames_select]
  rfl

/-- Conversion introduces the names that it generates. -/
theorem introduces_of_ofPlan {plan : Dataflow} {dataSet : DataSet}
    (ok : ofPlan context plan before = .ok (dataSet, after)) (others : List String)
    (introduces : Introduces context before others) :
    Introduces context after (others ++ dataSet.source.subqueryNames) := by
  let motive : Dataflow → Progress → DataSet → Progress → Prop := fun _ before dataSet after =>
    ∀ others, Introduces context before others →
      Introduces context after (others ++ dataSet.source.subqueryNames)
  refine @ofPlan_induction context motive motive ?_ ?_ ?_ ?_ ?_ ?_ plan before dataSet after ok
    others introduces
  · intro _ _ model before _ others introduces
    rw [subqueryNames_readModel]
    exact introduces.naming
  · exact fun _ _ _ _ whole => whole
  · intro step inputs before subqueries dataSet after reads results run ok others introduces
    obtain ⟨statement, source, tables⟩ := assemble_reads reads results ok
    have names : dataSet.source.subqueryNames =
        subqueries.flatMap fun input => input.name :: input.source.subqueryNames := by
      rw [source, Relation.subqueryNames_select, tables, List.flatMap_map]
      rfl
    rw [names]
    exact Introduces.inTurn run others introduces
  · intro _ before part _ _ others introduces
    rwa [Relation.subqueryNames_table, List.append_nil]
  · intro step inputs before dataSet after _ _ _ inside others introduces
    rw [Relation.subqueryNames_table, List.append_nil]
    exact (inside others introduces).sharing _
  · exact fun _ _ _ _ _ inside => inside

end Lower

/-! ## Scopes -/

/-- Whether a data set is well scoped behind some common table expressions, and selects columns of
the names that its columns have. -/
structure DataSet.IsScoped (ctes : List Cte) (dataSet : DataSet) : Prop where
  inScope : dataSet.source.IsScoped ctes
  selects : dataSet.source.Selects ctes (dataSet.columns.map Column.name)

/-- What is well scoped stays so with more common table expressions behind. -/
theorem DataSet.IsScoped.append {ctes : List Cte} {dataSet : DataSet}
    (isScoped : dataSet.IsScoped ctes) (later : List Cte) : dataSet.IsScoped (ctes ++ later) :=
  ⟨isScoped.inScope.append later, isScoped.selects.append later⟩

/-- A select that is computed from some of its tables is well scoped if its sources are. -/
theorem DataSet.ComputesFrom.isScoped {dataSet : DataSet} {inputs : List Subquery}
    {statement : Select Relation} {ctes : List Cte} (computes : dataSet.ComputesFrom inputs)
    (source : dataSet.source = .select statement)
    (tables : ∀ input ∈ inputs, input.tableRef ∈ statement.tables)
    (sources : ∀ inner ∈ statement.sources, inner.IsScoped ctes)
    (selects : ∀ input ∈ inputs, input.source.Selects ctes (input.columns.map Column.name)) :
    dataSet.IsScoped ctes := by
  obtain ⟨_, same, named, isOver⟩ := computes
  obtain rfl := Relation.select.inj (source.symm.trans same)
  constructor
  · rw [source]
    refine .select sources fun read member => ?_
    obtain ⟨expr, present, member⟩ := List.mem_flatMap.mp member
    obtain ⟨input, among, column, held, rfl⟩ := isOver expr present read member
    exact ⟨input.name, rfl, input.tableRef, tables input among, rfl, _, selects input among,
      List.mem_map_of_mem held⟩
  · rw [source]
    exact .select named

private theorem isScoped_readModel (ctes : List Cte) (model : SemanticModel) (name : String) :
    (readModel model name).IsScoped ctes := by
  refine (readModel_computes model name).isScoped rfl nofun (fun inner member => ?_) nofun
  rw [List.mem_singleton.mp member]
  exact .table _

/-- A step over inputs that are well scoped is well scoped. -/
theorem isScoped_of_assemble {step : Step} {inputs : List Subquery} {dataSet : DataSet}
    {ctes : List Cte} (reads : ∀ model, step ≠ .read model) (results : step ≠ .result)
    (ok : assemble step inputs = .ok dataSet)
    (each : ∀ input ∈ inputs, DataSet.IsScoped ctes ⟨input.columns, input.source⟩) :
    dataSet.IsScoped ctes := by
  obtain ⟨statement, source, tables⟩ := assemble_reads reads results ok
  refine (assemble_computes reads results ok).isScoped source (fun input among => ?_)
    (fun inner member => ?_) fun input among => (each input among).selects
  · rw [tables]
    exact List.mem_map_of_mem among
  · rw [DataSet.ReadsFrom.sources_eq tables] at member
    obtain ⟨input, among, rfl⟩ := List.mem_map.mp member
    exact (each input among).inScope

namespace Lower

/-- Whether common table expressions are well scoped, and parts that are shared select the columns
that they have. -/
structure InScope (context : Context) (progress : Progress) : Prop where
  numbered : Numbered context progress
  ctes : EachAfter (fun earlier cte => cte.body.IsScoped earlier) progress.ctes
  shared : ∀ part ∈ progress.shared,
    DataSet.IsScoped progress.ctes ⟨part.columns, .table part.name⟩

variable {context : Context} {before after progress : Progress}

namespace InScope

/-- A new subquery name changes nothing about the scopes. -/
theorem naming (inScope : InScope context progress) : InScope context progress.naming :=
  ⟨inScope.numbered.naming, inScope.ctes, inScope.shared⟩

/-- At the start everything is well scoped. -/
theorem start : InScope context ⟨[], [], 0, 0⟩ := ⟨.start, .nil, nofun⟩

/-- A part that has been shared selects the columns that it has. -/
theorem isScoped_nextCteName (inScope : InScope context progress) (plan : Dataflow)
    {dataSet : DataSet} (isScoped : dataSet.IsScoped progress.ctes) :
    DataSet.IsScoped (progress.sharing context plan dataSet).ctes
      ⟨dataSet.columns, .table (progress.nextCteName context)⟩ := by
  let cte : Cte := ⟨progress.nextCteName context, dataSet.source⟩
  refine ⟨.table _, @Relation.Selects.cte _ cte _ _ ?_ (isScoped.selects.append _)⟩
  have absent : progress.ctes.find? (·.name == progress.nextCteName context) = none := by
    refine List.find?_eq_none.mpr fun cte member same => ?_
    exact inScope.numbered.nextCteName_not_mem
      (List.mem_map.mpr ⟨cte, member, beq_iff_eq.mp same⟩)
  rw [Progress.sharing, List.find?_append, absent, Option.none_or]
  exact List.find?_cons_of_pos (beq_self_eq_true _)

/-- A well-scoped part may be shared. -/
theorem sharing (inScope : InScope context progress) (plan : Dataflow) {dataSet : DataSet}
    (isScoped : dataSet.IsScoped progress.ctes) :
    InScope context (progress.sharing context plan dataSet) := by
  refine ⟨inScope.numbered.sharing plan dataSet, inScope.ctes.concat isScoped.inScope,
    fun part member => ?_⟩
  rcases List.mem_append.mp member with member | member
  · exact (inScope.shared part member).append _
  · rw [List.mem_singleton.mp member]
    exact inScope.isScoped_nextCteName plan isScoped

end InScope

/-- What a conversion does to scopes: it keeps what is well scoped and adds to it. -/
def KeepsScopes (context : Context) (before : Progress) (dataSet : DataSet) (after : Progress) :
    Prop :=
  InScope context before → InScope context after ∧
    (∃ later, after.ctes = before.ctes ++ later) ∧ dataSet.IsScoped after.ctes

private theorem inScope_of_inTurn {plans : List Dataflow} {subqueries : List Subquery}
    (run : InTurn context (fun _ => KeepsScopes context) plans before subqueries after)
    (inScope : InScope context before) :
    InScope context after ∧ (∃ later, after.ctes = before.ctes ++ later) ∧
      ∀ input ∈ subqueries, DataSet.IsScoped after.ctes ⟨input.columns, input.source⟩ := by
  induction run with
  | nil progress => exact ⟨inScope, ⟨[], (List.append_nil _).symm⟩, nofun⟩
  | cons first _ ih =>
      obtain ⟨between, ⟨added, middle⟩, isScoped⟩ := first inScope
      obtain ⟨final, ⟨later, last⟩, others⟩ := ih between.naming
      refine ⟨final, ⟨added ++ later, ?_⟩, fun input member => ?_⟩
      · rw [last, Progress.naming, middle, List.append_assoc]
      · rcases List.mem_cons.mp member with rfl | member
        · rw [last]
          exact isScoped.append later
        · exact others input member

/-- Conversion gives data sets that are well scoped. -/
theorem keepsScopes_of_ofPlan {plan : Dataflow} {dataSet : DataSet}
    (ok : ofPlan context plan before = .ok (dataSet, after)) :
    KeepsScopes context before dataSet after := by
  let motive : Dataflow → Progress → DataSet → Progress → Prop := fun _ => KeepsScopes context
  refine @ofPlan_induction context motive motive ?_ ?_ ?_ ?_ ?_ ?_ plan before dataSet after ok
  · intro _ _ model before _ inScope
    exact ⟨inScope.naming, ⟨[], (List.append_nil _).symm⟩, isScoped_readModel _ model _⟩
  · exact fun _ _ _ _ whole => whole
  · intro step inputs before subqueries dataSet after reads results run ok inScope
    obtain ⟨final, extended, each⟩ := inScope_of_inTurn run inScope
    exact ⟨final, extended, isScoped_of_assemble reads results ok each⟩
  · intro plan before part _ found inScope
    exact ⟨inScope, ⟨[], (List.append_nil _).symm⟩,
      inScope.shared part (List.mem_of_find?_eq_some found)⟩
  · intro step inputs before dataSet after _ _ _ inside inScope
    obtain ⟨final, ⟨later, extended⟩, isScoped⟩ := inside inScope
    refine ⟨final.sharing _ isScoped, ⟨later ++ [⟨after.nextCteName context, dataSet.source⟩], ?_⟩,
      final.isScoped_nextCteName _ isScoped⟩
    rw [← List.append_assoc, ← extended]
    rfl
  · exact fun _ _ _ _ _ inside => inside

end Lower

/-! ## Statements -/

namespace Statement

/-- However the parts of a plan to share are chosen, its statement is well scoped, and the names of
its subqueries are the numbered ones up to some number, each introduced once. -/
theorem isScoped_of_ofPlan {catalog : Catalog} {settings : SqlSettings} {plan : Dataflow}
    {sharing : Sharing} {statement : Statement}
    (ok : Statement.ofPlan catalog settings plan sharing = .ok statement) :
    statement.subqueryNames.Nodup ∧
      (∃ count, ∀ name, name ∈ statement.subqueryNames ↔
        ∃ number < count, Lower.generatedName settings.subqueryStem number = name) ∧
      statement.IsScoped := by
  obtain ⟨dataSet, progress, run, rfl⟩ := ofPlan_eq_ok.mp ok
  have introduced := introduces_of_ofPlan run [] (.refl _)
  obtain ⟨inScope, _, isScoped⟩ := keepsScopes_of_ofPlan run .start
  have names : (Statement.mk progress.ctes dataSet.source).subqueryNames.Perm
      ((List.range progress.nextSubquery).map (generatedName settings.subqueryStem)) := by
    rw [subqueryNames, relations, List.flatMap_append, List.flatMap_map, List.flatMap_singleton]
    exact introduced
  refine ⟨?_, ⟨progress.nextSubquery, fun name => ?_⟩, inScope.ctes, isScoped.inScope⟩
  · exact names.nodup_iff.mpr (List.nodup_range.map fun _ _ same => generatedName_inj same)
  · simp only [names.mem_iff, List.mem_map, List.mem_range]

/-- The result of a statement selects columns of the names that the plain data set has. -/
theorem selects_of_ofPlan {catalog : Catalog} {settings : SqlSettings} {plan : Dataflow}
    {sharing : Sharing} {statement : Statement}
    (ok : Statement.ofPlan catalog settings plan sharing = .ok statement) :
    ∃ plain, DataSet.ofPlan catalog plan = .ok plain ∧
      statement.root.Selects statement.ctes (plain.columns.map Column.name) := by
  obtain ⟨dataSet, progress, run, rfl⟩ := ofPlan_eq_ok.mp ok
  obtain ⟨_, _, isScoped⟩ := keepsScopes_of_ofPlan run .start
  let context : Context := ⟨catalog, settings, plan, sharing.chosen plan⟩
  have sound : Sound context ⟨[], [], 0, 0⟩ := .start
  have agrees := Lower.ofPlan_agrees plan _ sound
  obtain ⟨plain, plainly⟩ := agrees.isOk_iff.mp ⟨_, run⟩
  rw [run, plainly] at agrees
  obtain ⟨_, _, columns, _⟩ := agrees.related_of_ok
  exact ⟨plain, plainly, columns ▸ isScoped.selects⟩

/-- Two common table expressions, one read inside the other, and columns of three subqueries side
by side. -/
theorem isScoped_of_ofPlan_orders : ∃ statement,
    Statement.ofPlan ordersCatalog Settings.standard.sql ordersPlan
      (.parts [largeOrders, .leaf (.read "orders")]) = .ok statement ∧
    statement.subqueryNames.Nodup ∧ statement.IsScoped := by
  obtain ⟨statement, ok⟩ : ∃ statement, Statement.ofPlan ordersCatalog Settings.standard.sql
      ordersPlan (.parts [largeOrders, .leaf (.read "orders")]) = .ok statement := ⟨_, rfl⟩
  obtain ⟨distinct, _, inScope⟩ := isScoped_of_ofPlan ok
  exact ⟨statement, ok, distinct, inScope⟩

end Statement

end MetricQuery.Sql

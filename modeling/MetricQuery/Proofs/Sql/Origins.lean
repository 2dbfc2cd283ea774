import MetricQuery.Proofs.Dataflow.Places
import MetricQuery.Proofs.Sql.Quoting
import MetricQuery.Proofs.Sql.Runs
import MetricQuery.Proofs.Sql.Sharing
import MetricQuery.Proofs.Sql.Spelling

/-! # Where tables come from

Every table that a statement reads stands for a shared part of the plan or for a model, in the order
of the plan (`originsOf`). While a plan is converted, further parts become shared; what has been
read so far comes from the same parts and models, whichever further ones follow (`Lower.Traces`).
The text of a statement therefore reads a shared part under the identifier that declares it exactly
if the names of common table expressions have no points, and a model under such an identifier
exactly if its table has the same name besides (`Statement.ofPlan_spelled`).
-/

namespace MetricQuery.Sql

/-! ## Origins -/

/-- What a table that is read stands for. -/
inductive Origin where
  /-- A part of the plan that is shared. -/
  | shared (part : SharedPart)
  /-- A model. -/
  | stored (model : SemanticModel)

/-- The name under which it is read. -/
def Origin.table : Origin → String
  | .shared part => part.name
  | .stored model => model.table

mutual

/-- What the tables stand for that a plan is read from if some parts are shared. -/
def originsOf (catalog : Catalog) (shared : List SharedPart) : Dataflow → List Origin
  | .node step inputs =>
    match shared.find? fun part : SharedPart => part.plan == Dataflow.node step inputs with
    | some part => [.shared part]
    | none => originsBelow catalog shared step inputs

/-- What they stand for if the last step is not shared itself. -/
def originsBelow (catalog : Catalog) (shared : List SharedPart) :
    Step → List Dataflow → List Origin
  | .read name, _ => (catalog.model? name).toList.map .stored
  | _, inputs => originsOfAll catalog shared inputs

/-- The same of several plans, one after the other. -/
def originsOfAll (catalog : Catalog) (shared : List SharedPart) : List Dataflow → List Origin
  | [] => []
  | plan :: rest => originsOf catalog shared plan ++ originsOfAll catalog shared rest

end

/-- A shared part is read from its own common table expression. -/
theorem originsOf_shared {catalog : Catalog} {shared : List SharedPart} {plan : Dataflow}
    {part : SharedPart} (found : shared.find? (·.plan == plan) = some part) :
    originsOf catalog shared plan = [.shared part] := by
  obtain ⟨step, inputs⟩ := plan
  rw [originsOf, found]

/-- A part that is not shared is read from what its inputs are read from. -/
theorem originsOf_unshared {catalog : Catalog} {shared : List SharedPart} {plan : Dataflow}
    (absent : ∀ part ∈ shared, part.plan ≠ plan) :
    originsOf catalog shared plan = originsBelow catalog shared plan.step plan.inputs := by
  obtain ⟨step, inputs⟩ := plan
  have none : shared.find? (fun part : SharedPart => part.plan == .node step inputs) = none :=
    List.find?_eq_none.mpr fun part member same => absent part member (beq_iff_eq.mp same)
  rw [originsOf, none]
  rfl

private theorem originsOfAll_eq_flatMap (catalog : Catalog) (shared : List SharedPart)
    (plans : List Dataflow) :
    originsOfAll catalog shared plans = plans.flatMap (originsOf catalog shared) := by
  induction plans with
  | nil => rw [originsOfAll, List.flatMap_nil]
  | cons plan rest ih => rw [originsOfAll, ih, List.flatMap_cons]

/-- A step that reads no model is read from what its inputs are read from. -/
theorem originsBelow_eq {catalog : Catalog} {shared : List SharedPart} {step : Step}
    (reads : ∀ name, step ≠ .read name) (inputs : List Dataflow) :
    originsBelow catalog shared step inputs = inputs.flatMap (originsOf catalog shared) := by
  rw [← originsOfAll_eq_flatMap, originsBelow]
  exact reads

/-- Whether what is read is one of the shared parts or a model of the manifest. -/
def Origin.IsAmong (catalog : Catalog) (shared : List SharedPart) : Origin → Prop
  | .shared part => part ∈ shared
  | .stored model => model ∈ catalog.manifest.models

/-- What lies below a step is a model of the catalog or a shared part if it is for each input. -/
theorem isAmong_of_mem_originsBelow {catalog : Catalog} {shared : List SharedPart} {step : Step}
    {inputs : List Dataflow}
    (each : ∀ input ∈ inputs, ∀ origin ∈ originsOf catalog shared input,
      origin.IsAmong catalog shared) :
    ∀ origin ∈ originsBelow catalog shared step inputs, origin.IsAmong catalog shared := by
  intro origin member
  by_cases reads : ∃ name, step = .read name
  · obtain ⟨name, rfl⟩ := reads
    rw [originsBelow] at member
    obtain ⟨model, found, rfl⟩ := List.mem_map.mp member
    exact Catalog.mem_of_model? (Option.mem_toList.mp found)
  · rw [originsBelow_eq fun name same => reads ⟨name, same⟩] at member
    obtain ⟨input, among, member⟩ := List.mem_flatMap.mp member
    exact each input among origin member

/-- A plan is read from models of the catalog and shared parts alone. -/
theorem isAmong_of_mem_originsOf {catalog : Catalog} {shared : List SharedPart} (plan : Dataflow) :
    ∀ origin ∈ originsOf catalog shared plan, origin.IsAmong catalog shared := by
  induction plan using Dataflow.inductionOn with
  | node step inputs each =>
      intro origin member
      rw [originsOf] at member
      split at member
      case h_1 part found =>
        rw [List.mem_singleton.mp member]
        exact List.mem_of_find?_eq_some found
      case h_2 => exact isAmong_of_mem_originsBelow each origin member

namespace Lower

/-! ## Conversion -/

/-- Whether shared parts are those of a progress and further ones that are to be shared. -/
structure Completes (context : Context) (progress : Progress) (shared : List SharedPart) :
    Prop where
  kept : progress.shared <+: shared
  chosen : ∀ part ∈ shared, isShared context part.plan = true

/-- Whether common table expressions are numbered and read what the inputs of their parts are read
from. -/
structure Traced (context : Context) (progress : Progress) : Prop where
  numbered : Numbered context progress
  chosen : ∀ part ∈ progress.shared, isShared context part.plan = true
  bodies : ∀ shared, Completes context progress shared → List.Forall₂ (fun part cte =>
    cte.name = part.name ∧ cte.body.tables =
      (originsBelow context.catalog shared part.plan.step part.plan.inputs).map Origin.table)
    progress.shared progress.ctes

/-- Whether a conversion shares further parts that meet a condition, and gives a relation whose
tables stand for the given origins. -/
structure Traces (context : Context) (meets : Dataflow → Prop)
    (origins : List SharedPart → List Origin) (before : Progress) (tables : List String)
    (after : Progress) : Prop where
  kept : before.shared <+: after.shared
  added : ∀ part ∈ after.shared, part ∈ before.shared ∨ meets part.plan
  traced : Traced context before → Traced context after
  tables : ∀ shared, Completes context after shared → tables = (origins shared).map Origin.table

variable {context : Context} {before middle after progress : Progress}

namespace Traced

/-- At the start there is nothing to trace. -/
theorem start : Traced context ⟨[], [], 0, 0⟩ := ⟨.start, nofun, fun _ _ => .nil⟩

/-- A new subquery name changes nothing about what is traced. -/
theorem naming (traced : Traced context progress) : Traced context progress.naming :=
  ⟨traced.numbered.naming, traced.chosen, fun shared completes =>
    traced.bodies shared ⟨completes.kept, completes.chosen⟩⟩

/-- A new part may be shared whose body reads what its inputs are read from. -/
theorem sharing {plan : Dataflow} {dataSet : DataSet} (traced : Traced context progress)
    (isShared : Lower.isShared context plan = true)
    (tables : ∀ shared, Completes context progress shared → dataSet.source.tables =
      (originsBelow context.catalog shared plan.step plan.inputs).map Origin.table) :
    Traced context (progress.sharing context plan dataSet) := by
  refine ⟨traced.numbered.sharing plan dataSet, fun part member => ?_, fun shared completes => ?_⟩
  · rcases List.mem_append.mp member with member | member
    · exact traced.chosen part member
    · rw [List.mem_singleton.mp member]
      exact isShared
  · have earlier : Completes context progress shared :=
      ⟨(List.prefix_append _ _).trans completes.kept, completes.chosen⟩
    exact List.rel_append (traced.bodies shared earlier) (.cons ⟨rfl, tables shared earlier⟩ .nil)

end Traced

namespace Traces

variable {meets others : Dataflow → Prop} {origins further : List SharedPart → List Origin}
  {tables later : List String}

/-- A trace depends on which parts meet the condition and which origins they have alone. -/
theorem congr (traces : Traces context meets origins before tables after)
    (sameParts : ∀ part, meets part → others part)
    (sameOrigins : ∀ shared, Completes context after shared → origins shared = further shared) :
    Traces context others further before tables after :=
  ⟨traces.kept, fun part member => (traces.added part member).imp_right (sameParts part.plan),
    traces.traced,
    fun shared completes => sameOrigins shared completes ▸ traces.tables shared completes⟩

/-- What is read without sharing anything. -/
theorem refl (same : ∀ shared, Completes context progress shared →
      tables = (origins shared).map Origin.table) :
    Traces context meets origins progress tables progress :=
  ⟨List.prefix_rfl, fun _ => .inl, id, same⟩

/-- Conversions one after the other read what each of them reads. -/
theorem trans (first : Traces context meets origins before tables middle)
    (second : Traces context others further middle.naming later after) :
    Traces context (fun part => meets part ∨ others part)
      (fun shared => origins shared ++ further shared) before (tables ++ later) after := by
  refine ⟨first.kept.trans second.kept, fun part member => ?_,
    fun traced => second.traced (first.traced traced).naming, fun shared completes => ?_⟩
  · rcases second.added part member with member | met
    · exact (first.added part member).imp_right .inl
    · exact .inr (.inr met)
  · rw [first.tables shared ⟨second.kept.trans completes.kept, completes.chosen⟩,
      second.tables shared completes, List.map_append]

/-- Inputs converted in turn read what each of them is read from. -/
theorem inTurn {plans : List Dataflow} {subqueries : List Subquery}
    (run : InTurn context (fun plan before dataSet after =>
      Traces context (fun part => part = plan ∨ plan.Contains part)
        (originsOf context.catalog · plan) before dataSet.source.tables after)
      plans before subqueries after) :
    Traces context (fun part => ∃ plan ∈ plans, part = plan ∨ plan.Contains part)
      (fun shared => plans.flatMap (originsOf context.catalog shared)) before
      (subqueries.flatMap (·.source.tables)) after := by
  induction run with
  | nil progress => exact .refl fun _ _ => rfl
  | cons first _ ih =>
      refine (first.trans ih).congr (fun part met => ?_) fun shared _ => List.flatMap_cons.symm
      rcases met with met | ⟨plan, member, met⟩
      · exact ⟨_, List.mem_cons_self, met⟩
      · exact ⟨plan, List.mem_cons_of_mem _ member, met⟩

/-- What becomes shared is read under its name. -/
theorem sharing {step : Step} {inputs : List Dataflow} {dataSet : DataSet}
    (traces : Traces context (Dataflow.node step inputs).Contains
      (originsBelow context.catalog · step inputs) before dataSet.source.tables after)
    (isShared : Lower.isShared context (.node step inputs) = true)
    (new : ∀ part ∈ before.shared, part.plan ≠ .node step inputs) :
    Traces context
      (fun part => part = .node step inputs ∨ (Dataflow.node step inputs).Contains part)
      (originsOf context.catalog · (.node step inputs)) before [after.nextCteName context]
      (after.sharing context (.node step inputs) dataSet) := by
  refine ⟨traces.kept.trans (List.prefix_append _ _), fun part member => ?_,
    fun traced => (traces.traced traced).sharing isShared traces.tables,
    fun shared completes => ?_⟩
  · rcases List.mem_append.mp member with member | member
    · exact (traces.added part member).imp_right .inr
    · rw [List.mem_singleton.mp member]
      exact .inr (.inl rfl)
  · have absent : after.shared.find? (fun part : SharedPart =>
        part.plan == Dataflow.node step inputs) = none := by
      refine List.find?_eq_none.mpr fun part member same => ?_
      have same := beq_iff_eq.mp same
      rcases traces.added part member with member | contains
      · exact new part member same
      · exact Dataflow.not_contains_self _ (same ▸ contains)
    obtain ⟨rest, rfl⟩ := completes.kept
    have found : ((after.sharing context (.node step inputs) dataSet).shared ++ rest).find?
        (fun part : SharedPart => part.plan == Dataflow.node step inputs) =
          some ⟨.node step inputs, after.nextCteName context, dataSet.columns⟩ := by
      rw [Progress.sharing, List.append_assoc, List.find?_append, absent]
      simp
    rw [originsOf_shared found]
    rfl

end Traces

/-- Conversion reads what the plan says, and shares parts of the plan. -/
theorem traces_of_ofPlan {plan : Dataflow} {dataSet : DataSet}
    (ok : ofPlan context plan before = .ok (dataSet, after)) :
    Traces context (fun part => part = plan ∨ plan.Contains part)
      (originsOf context.catalog · plan) before dataSet.source.tables after := by
  let inside : Dataflow → Progress → DataSet → Progress → Prop := fun plan before dataSet after =>
    Traces context plan.Contains
      (originsBelow context.catalog · plan.step plan.inputs) before dataSet.source.tables after
  let whole : Dataflow → Progress → DataSet → Progress → Prop := fun plan before dataSet after =>
    Traces context (fun part => part = plan ∨ plan.Contains part)
      (originsOf context.catalog · plan) before dataSet.source.tables after
  refine @ofPlan_induction context inside whole ?_ ?_ ?_ ?_ ?_ ?_ plan before dataSet after ok
  · intro name inputs model before found
    refine ⟨List.prefix_rfl, fun _ => .inl, Traced.naming, fun shared _ => ?_⟩
    change _ = (originsBelow context.catalog shared (.read name) inputs).map Origin.table
    rw [tables_readModel, originsBelow, found]
    rfl
  · intro input before dataSet after whole
    refine whole.congr (fun part met => ?_) fun shared _ => ?_
    · rw [Dataflow.contains_node_iff]
      exact ⟨input, List.mem_cons_self, met⟩
    · change _ = originsBelow context.catalog shared .result [input]
      rw [originsBelow_eq (by simp), List.flatMap_singleton]
  · intro step inputs before subqueries dataSet after reads results run ok
    have traces := Traces.inTurn run
    rw [← (assemble_reads reads results ok).tables_eq] at traces
    refine traces.congr (fun part met => Dataflow.contains_node_iff.mpr met) fun shared _ => ?_
    exact (originsBelow_eq reads inputs).symm
  · intro plan before part _ found
    refine .refl fun shared completes => ?_
    obtain ⟨rest, rfl⟩ := completes.kept
    have found : (before.shared ++ rest).find? (fun part : SharedPart => part.plan == plan) =
        some part := by
      rw [List.find?_append, found]
      rfl
    rw [originsOf_shared found]
    rfl
  · intro step inputs before dataSet after shared none _ inside
    refine inside.sharing shared fun part member same => ?_
    exact List.find?_eq_none.mp none part member (beq_iff_eq.mpr same)
  · intro plan before dataSet after unshared inside
    refine inside.congr (fun part => .inr) fun shared completes => ?_
    refine (originsOf_unshared fun part member same => ?_).symm
    rw [← same, completes.chosen part member] at unshared
    exact nomatch unshared

/-! ## Names -/

/-- Numbers have no points. -/
theorem point_mem_generatedName {stem : String} {number : Nat} :
    '.' ∈ (generatedName stem number).toList ↔ '.' ∈ stem.toList := by
  have digits : '.' ∉ (Text.Record.text number).toList := by
    change '.' ∉ (String.ofList (Nat.toDigits 10 number)).toList
    rw [String.toList_ofList]
    intro member
    exact absurd (Nat.isDigit_of_mem_toDigits (by decide) (by decide) member) (by decide)
  simp [generatedName, digits]

/-- A common table expression's name holds a point exactly when the stem does. -/
theorem Numbered.point_mem (numbered : Numbered context progress) {part : SharedPart}
    (member : part ∈ progress.shared) :
    '.' ∈ part.name.toList ↔ '.' ∈ context.settings.cteStem.toList := by
  have named : part.name ∈ progress.shared.map (·.name) := List.mem_map_of_mem member
  rw [numbered.shared, numbered.names] at named
  obtain ⟨number, _, same⟩ := List.mem_map.mp named
  rw [← same, point_mem_generatedName]

end Lower

/-- The table as a name in the text of a statement. -/
def Origin.piece (origin : Origin) : Piece := .read origin.table

/-- What all tables stand for that the statement of a plan reads. -/
def originsOfStatement (catalog : Catalog) (shared : List SharedPart) (plan : Dataflow) :
    List Origin :=
  shared.flatMap (fun part => originsBelow catalog shared part.plan.step part.plan.inputs) ++
    originsBelow catalog shared plan.step plan.inputs

/-- A statement is read from models of the catalog and shared parts alone. -/
theorem isAmong_of_mem_originsOfStatement {catalog : Catalog} {shared : List SharedPart}
    (plan : Dataflow) :
    ∀ origin ∈ originsOfStatement catalog shared plan, origin.IsAmong catalog shared := by
  intro origin member
  rcases List.mem_append.mp member with member | member
  · obtain ⟨part, _, member⟩ := List.mem_flatMap.mp member
    exact isAmong_of_mem_originsBelow (fun input _ => isAmong_of_mem_originsOf input) origin member
  · exact isAmong_of_mem_originsBelow (fun input _ => isAmong_of_mem_originsOf input) origin member

namespace Statement

/-- Whether the text of a statement declares some parts of a plan, and reads in its order what the
plan is read from. A part is read under the identifier that declares it exactly if the names of
common table expressions have no points, and a model under such an identifier exactly if its table
also has that name. -/
structure IsSpelled (catalog : Catalog) (settings : SqlSettings) (plan : Dataflow)
    (statement : Statement) (shared : List SharedPart) : Prop where
  declared : shared.map (·.name) = statement.ctes.map (·.name)
  distinct : (shared.map (·.name)).Nodup
  text : spelled statement.pieces = statement.text
  names : Sql.names statement.pieces =
    shared.flatMap (fun part => .declared part.name ::
      (originsBelow catalog shared part.plan.step part.plan.inputs).map Origin.piece) ++
        (originsBelow catalog shared plan.step plan.inputs).map Origin.piece
  parts : ∀ part, .shared part ∈ originsOfStatement catalog shared plan → part ∈ shared ∧
    (tableName part.name = identifier part.name ↔ '.' ∉ settings.cteStem.toList)
  models : ∀ model, .stored model ∈ originsOfStatement catalog shared plan →
    model ∈ catalog.manifest.models ∧ ∀ part ∈ shared,
      (tableName model.table = identifier part.name ↔
        model.table = part.name ∧ '.' ∉ settings.cteStem.toList)

open Lower

/-- The names in the text of a statement are those that follow from its plan. -/
theorem ofPlan_spelled {catalog : Catalog} {settings : SqlSettings} {plan : Dataflow}
    {sharing : Sharing} {statement : Statement}
    (ok : Statement.ofPlan catalog settings plan sharing = .ok statement) :
    ∃ shared : List SharedPart,
      (∀ part ∈ shared, part.plan ∈ sharing.chosen plan ∧ plan.Contains part.plan) ∧
      statement.IsSpelled catalog settings plan shared := by
  obtain ⟨dataSet, progress, run, rfl⟩ := ofPlan_eq_ok.mp ok
  have traces := traces_of_ofPlan run
  have traced := traces.traced .start
  have chosen : ∀ part ∈ progress.shared, part.plan ≠ plan ∧ part.plan ∈ sharing.chosen plan := by
    intro part member
    have shared := traced.chosen part member
    rwa [isShared, Bool.and_eq_true, bne_iff_ne, List.contains_iff_mem] at shared
  have completes : Completes _ progress progress.shared := ⟨List.prefix_rfl, traced.chosen⟩
  have whole : originsOf catalog progress.shared plan =
      originsBelow catalog progress.shared plan.step plan.inputs :=
    originsOf_unshared fun part member => (chosen part member).1
  have root := traces.tables _ completes
  rw [whole] at root
  have bodies : progress.shared.map (fun part => Piece.declared part.name ::
      (originsBelow catalog progress.shared part.plan.step part.plan.inputs).map Origin.piece) =
        progress.ctes.map fun cte => .declared cte.name :: cte.body.tables.map .read := by
    rw [← List.forall₂_eq_eq_eq, List.forall₂_map_left_iff, List.forall₂_map_right_iff]
    refine (traced.bodies _ completes).imp fun part cte reads => ?_
    rw [reads.1, reads.2, List.map_map]
    rfl
  refine ⟨progress.shared, fun part member => ⟨(chosen part member).2, ?_⟩, ?_⟩
  · rcases traces.added part member with absent | met
    · exact (List.not_mem_nil absent).elim
    · exact met.resolve_left (chosen part member).1
  refine ⟨traced.numbered.shared, traced.numbered.shared ▸ traced.numbered.nodup,
    spelled_pieces _, ?_, fun part member => ?_, fun model member => ?_⟩
  · rw [names_pieces, List.flatMap_def, List.flatMap_def, bodies, root, List.map_map]
    rfl
  · have member := isAmong_of_mem_originsOfStatement plan _ member
    refine ⟨member, ?_⟩
    rw [tableName_eq_identifier_iff, and_iff_right rfl, traced.numbered.point_mem member]
  · refine ⟨isAmong_of_mem_originsOfStatement plan _ member, fun part among => ?_⟩
    rw [tableName_eq_identifier_iff, traced.numbered.point_mem among]

/-- Two shared parts, both read under the identifiers that declare them. -/
theorem ofPlan_spelled_orders : ∃ statement,
    Statement.ofPlan ordersCatalog Settings.standard.sql ordersPlan
      (.parts [largeOrders, .leaf (.read "orders")]) = .ok statement ∧
    ∃ shared, statement.IsSpelled ordersCatalog Settings.standard.sql ordersPlan shared ∧
      shared.map (·.name) = ["cte_0", "cte_1"] ∧
      ∀ name ∈ ["cte_0", "cte_1"], .read name ∈ Sql.names statement.pieces ∧
        tableName name = identifier name := by
  obtain ⟨statement, ok, names, read⟩ : ∃ statement, Statement.ofPlan ordersCatalog
      Settings.standard.sql ordersPlan (.parts [largeOrders, .leaf (.read "orders")]) =
        .ok statement ∧ statement.ctes.map (·.name) = ["cte_0", "cte_1"] ∧
      Sql.names statement.pieces = [.declared "cte_0", .read "shop.orders", .declared "cte_1",
        .read "cte_0", .read "cte_1", .read "cte_1", .read "cte_0"] := ⟨_, rfl, rfl, rfl⟩
  obtain ⟨shared, _, isSpelled⟩ := ofPlan_spelled ok
  refine ⟨statement, ok, shared, isSpelled, isSpelled.declared.trans names, ?_⟩
  rw [read]
  decide

/-- With a point in their names, common table expressions are declared under one identifier and read
under another one, and without one, a model that is stored in a table of such a name is read under
the identifier that declares a common table expression. -/
theorem ofPlan_not_spelled :
    (∃ statement, Statement.ofPlan ordersCatalog ⟨true, "my.cte", "subq"⟩
        ((Dataflow.leaf (.read "orders")).andThen .result) (.parts [.leaf (.read "orders")]) =
          .ok statement ∧
      Sql.names statement.pieces =
        [.declared "my.cte_0", .read "shop.orders", .read "my.cte_0"] ∧
      (Piece.read "my.cte_0").written ≠ (Piece.declared "my.cte_0").written) ∧
    ∃ statement, Statement.ofPlan
        ⟨⟨[⟨"orders", "cte_0", none, [⟨"order", .primary, none⟩], [], [], none⟩], []⟩, 2⟩
        Settings.standard.sql ((Dataflow.leaf (.read "orders")).andThen .result)
        (.parts [.leaf (.read "orders")]) = .ok statement ∧
      Sql.names statement.pieces = [.declared "cte_0", .read "cte_0", .read "cte_0"] ∧
      (Piece.read "cte_0").written = (Piece.declared "cte_0").written :=
  ⟨⟨_, rfl, rfl, by decide⟩, _, rfl, rfl, by decide⟩

end Statement

end MetricQuery.Sql

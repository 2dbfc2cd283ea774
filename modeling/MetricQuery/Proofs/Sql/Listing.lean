import MetricQuery.Proofs.Dataflow.Places
import MetricQuery.Proofs.Sql.Runs
import MetricQuery.Proofs.Sql.Sharing
import MetricQuery.Sql.Scoping

/-! # Lists of common table expressions

A statement has one common table expression for each chosen part below the last step of its plan.
It lists them so that each reads only earlier ones, and each is read (`Statement.ofPlan_lists`).
While a plan is converted, the expressions stand for the parts that are shared so far, together with
all chosen parts below these (`Lower.Stands`), and whatever is not read by a later one is read by
what has been converted but not yet used (`Lower.Lists`).
-/

namespace MetricQuery

namespace Sql

open Lower

/-! ## What is read -/

/-- Whether a table is one of some common table expressions or the table of a model. -/
def IsKnown (catalog : Catalog) (ctes : List Cte) (name : String) : Prop :=
  name ∈ ctes.map (·.name) ∨ ∃ model ∈ catalog.manifest.models, model.table = name

/-- What is known stays known with more common table expressions behind. -/
theorem IsKnown.append {catalog : Catalog} {ctes : List Cte} {name : String}
    (known : IsKnown catalog ctes name) (later : List Cte) :
    IsKnown catalog (ctes ++ later) name := by
  refine known.imp_left fun member => ?_
  rw [List.map_append]
  exact List.mem_append_left _ member

namespace Lower

/-- Whether each common table expression reads earlier ones and models alone, and is itself read by
a later one or among some other tables; these are all known. -/
structure Lists (context : Context) (progress : Progress) (others : List String) : Prop where
  numbered : Numbered context progress
  bodies : EachAfter (fun earlier cte => ∀ name ∈ cte.body.tables,
    IsKnown context.catalog earlier name) progress.ctes
  known : ∀ name ∈ others, IsKnown context.catalog progress.ctes name
  read : ∀ earlier cte later, progress.ctes = earlier ++ cte :: later →
    cte.name ∈ later.flatMap (·.body.tables) ++ others

variable {context : Context} {before after progress : Progress} {others : List String}

namespace Lists

/-- At the start there is nothing to list. -/
theorem start : Lists context ⟨[], [], 0, 0⟩ [] := by
  refine ⟨.start, .nil, nofun, fun earlier cte later split => ?_⟩
  exact absurd split.symm (List.append_ne_nil_of_right_ne_nil _ (List.cons_ne_nil _ _))

/-- A new subquery name changes nothing about what is listed. -/
theorem naming (lists : Lists context progress others) : Lists context progress.naming others :=
  ⟨lists.numbered.naming, lists.bodies, lists.known, lists.read⟩

/-- Further tables are read. -/
theorem reading (lists : Lists context progress others) {further : List String}
    (known : ∀ name ∈ further, IsKnown context.catalog progress.ctes name) :
    Lists context progress (others ++ further) := by
  refine ⟨lists.numbered, lists.bodies, fun name member => ?_, fun earlier cte later split => ?_⟩
  · exact (List.mem_append.mp member).elim (lists.known name) (known name)
  · rw [← List.append_assoc]
    exact List.mem_append_left _ (lists.read earlier cte later split)

/-- What is shared is read under its name from then on. -/
theorem sharing (plan : Dataflow) {dataSet : DataSet}
    (lists : Lists context progress (others ++ dataSet.source.tables)) :
    Lists context (progress.sharing context plan dataSet)
      (others ++ [progress.nextCteName context]) := by
  refine ⟨lists.numbered.sharing plan dataSet, lists.bodies.concat fun name member => ?_,
    fun name member => ?_, fun earlier cte later split => ?_⟩
  · exact lists.known name (List.mem_append_right _ member)
  · rcases List.mem_append.mp member with member | member
    · exact (lists.known name (List.mem_append_left _ member)).append _
    · refine .inl ?_
      rw [List.mem_singleton.mp member, Progress.sharing, List.map_append]
      exact List.mem_append_right _ List.mem_cons_self
  · rcases eq_or_exists_of_concat_eq split with ⟨rfl, _, rfl⟩ | ⟨between, rfl, rest⟩
    · exact List.mem_append_right _ (List.mem_append_right _ List.mem_cons_self)
    · have read := lists.read earlier cte between rest
      rw [List.flatMap_append, List.flatMap_singleton]
      simp only [List.mem_append] at read ⊢
      rcases read with read | read | read
      · exact .inl (.inl read)
      · exact .inr (.inl read)
      · exact .inl (.inr read)

/-- Inputs converted in turn keep what is listed, with the tables they read. -/
theorem inTurn {plans : List Dataflow} {subqueries : List Subquery}
    (run : InTurn context (fun _ before dataSet after => ∀ others,
      Lists context before others → Lists context after (others ++ dataSet.source.tables))
      plans before subqueries after) :
    ∀ others, Lists context before others →
      Lists context after (others ++ subqueries.flatMap (·.source.tables)) := by
  induction run with
  | nil progress =>
      intro others lists
      rwa [List.flatMap_nil, List.append_nil]
  | cons first _ ih =>
      intro others lists
      rw [List.flatMap_cons, ← List.append_assoc]
      exact ih _ (first others lists).naming

end Lists

/-- Conversion reads what it has listed. -/
theorem lists_of_ofPlan {plan : Dataflow} {dataSet : DataSet}
    (ok : ofPlan context plan before = .ok (dataSet, after)) (lists : Lists context before others) :
    Lists context after (others ++ dataSet.source.tables) := by
  let motive : Dataflow → Progress → DataSet → Progress → Prop := fun _ before dataSet after =>
    ∀ others, Lists context before others → Lists context after (others ++ dataSet.source.tables)
  refine @ofPlan_induction context motive motive ?_ ?_ ?_ ?_ ?_ ?_ plan before dataSet after ok
    others lists
  · intro _ _ model before found others lists
    rw [tables_readModel]
    refine lists.naming.reading fun name member => .inr ⟨model, Catalog.mem_of_model? found, ?_⟩
    exact (List.mem_singleton.mp member).symm
  · exact fun _ _ _ _ whole => whole
  · intro step inputs before subqueries dataSet after reads results run ok others lists
    rw [(assemble_reads reads results ok).tables_eq]
    exact Lists.inTurn run others lists
  · intro _ before part _ found others lists
    refine lists.reading fun name member => .inl ?_
    rw [Relation.tables_table, List.mem_singleton] at member
    rw [member, ← lists.numbered.shared]
    exact List.mem_map_of_mem (List.mem_of_find?_eq_some found)
  · intro step inputs before dataSet after _ _ _ inside others lists
    rw [Relation.tables_table]
    exact (inside others lists).sharing _
  · exact fun _ _ _ _ _ inside => inside

/-! ## What is shared -/

/-- Whether a plan is converted to a relation, with its inputs but apart from being shared. -/
def Becomes (context : Context) (plan : Dataflow) (relation : Relation) : Prop :=
  ∃ before dataSet after, ofInputs context plan.step plan.inputs before = .ok (dataSet, after) ∧
    dataSet.source = relation

/-- Whether common table expressions stand for different parts to share, and for all parts to share
below these. -/
structure Stands (context : Context) (progress : Progress) : Prop where
  bodies : List.Forall₂ (fun part cte => Becomes context part cte.body)
    (progress.shared.map (·.plan)) progress.ctes
  distinct : (progress.shared.map (·.plan)).Nodup
  chosen : ∀ part ∈ progress.shared.map (·.plan), isShared context part = true
  closed : ∀ part ∈ progress.shared.map (·.plan), ∀ below, part.Contains below →
    isShared context below = true → below ∈ progress.shared.map (·.plan)

namespace Stands

/-- At the start nothing is shared. -/
theorem start : Stands context ⟨[], [], 0, 0⟩ := ⟨.nil, List.nodup_nil, nofun, nofun⟩

/-- A new subquery name changes nothing about what is shared. -/
theorem naming (stands : Stands context progress) : Stands context progress.naming :=
  ⟨stands.bodies, stands.distinct, stands.chosen, stands.closed⟩

/-- A new part may be shared once all parts to share below it are. -/
theorem sharing (stands : Stands context progress) {plan : Dataflow} {dataSet : DataSet}
    (becomes : Becomes context plan dataSet.source) (new : plan ∉ progress.shared.map (·.plan))
    (isShared : Lower.isShared context plan = true)
    (below : ∀ part, plan.Contains part → Lower.isShared context part = true →
      part ∈ progress.shared.map (·.plan)) :
    Stands context (progress.sharing context plan dataSet) := by
  have plans : (progress.sharing context plan dataSet).shared.map (·.plan) =
      progress.shared.map (·.plan) ++ [plan] := List.map_append
  constructor
  · rw [plans]
    exact List.rel_append stands.bodies (.cons becomes .nil)
  · rw [plans]
    exact List.concat_eq_append ▸ stands.distinct.concat new
  · rw [plans]
    intro part member
    rcases List.mem_append.mp member with member | member
    · exact stands.chosen part member
    · exact List.mem_singleton.mp member ▸ isShared
  · rw [plans]
    intro part member inner contains shared
    apply List.mem_append_left
    rcases List.mem_append.mp member with member | member
    · exact stands.closed part member inner contains shared
    · obtain rfl := List.mem_singleton.mp member
      exact below inner contains shared

end Stands

/-- Whether a conversion shares all parts to share among those that meet a condition, and none
besides. -/
structure Shares (context : Context) (meets : Dataflow → Prop) (before after : Progress) :
    Prop where
  stands : Stands context after
  kept : before.shared.map (·.plan) ⊆ after.shared.map (·.plan)
  added : ∀ part ∈ after.shared.map (·.plan), part ∈ before.shared.map (·.plan) ∨ meets part
  all : ∀ part, meets part → isShared context part = true → part ∈ after.shared.map (·.plan)

namespace Shares

variable {meets : Dataflow → Prop}

/-- What is shared depends on which parts meet the condition alone. -/
theorem congr {others : Dataflow → Prop} (shares : Shares context meets before after)
    (same : ∀ part, meets part ↔ others part) : Shares context others before after :=
  ⟨shares.stands, shares.kept,
    fun part member => (shares.added part member).imp_right (same part).mp,
    fun part met => shares.all part ((same part).mpr met)⟩

/-- If nothing to be shared is missing, nothing needs to be done. -/
theorem refl (stands : Stands context progress)
    (all : ∀ part, meets part → isShared context part = true →
      part ∈ progress.shared.map (·.plan)) : Shares context meets progress progress :=
  ⟨stands, List.Subset.refl _, fun _ => .inl, all⟩

/-- Conversions one after the other share what either shares. -/
theorem trans {others : Dataflow → Prop} (first : Shares context meets before progress)
    (second : Shares context others progress after) :
    Shares context (fun part => meets part ∨ others part) before after := by
  refine ⟨second.stands, List.Subset.trans first.kept second.kept, fun part member => ?_,
    fun part met shared => ?_⟩
  · rcases second.added part member with member | met
    · exact (first.added part member).imp_right .inl
    · exact .inr (.inr met)
  · rcases met with met | met
    · exact second.kept (first.all part met shared)
    · exact second.all part met shared

/-- Inputs converted in turn share the parts to share of all of them. -/
theorem inTurn {plans : List Dataflow} {subqueries : List Subquery}
    (run : InTurn context (fun plan before _ after => plan.HasPlainReads →
      Stands context before → Shares context (fun part => part = plan ∨ plan.Contains part)
        before after) plans before subqueries after)
    (plain : ∀ plan ∈ plans, plan.HasPlainReads) (stands : Stands context before) :
    Shares context (fun part => ∃ plan ∈ plans, part = plan ∨ plan.Contains part) before after := by
  induction run with
  | nil progress => exact .refl stands fun part absent => by simp at absent
  | @cons plan rest before middle after dataSet subqueries first _ ih =>
      have head := first (plain plan List.mem_cons_self) stands
      have tail := ih (fun other member => plain other (List.mem_cons_of_mem _ member))
        head.stands.naming
      have tail : Shares context _ middle after := ⟨tail.stands, tail.kept, tail.added, tail.all⟩
      refine (head.trans tail).congr fun part => ?_
      rw [List.exists_mem_cons_iff]

/-- A part that is shared itself, after all that is to be shared below it. -/
theorem sharing {plan : Dataflow} {dataSet : DataSet}
    (shares : Shares context plan.Contains before after)
    (becomes : Becomes context plan dataSet.source) (new : plan ∉ before.shared.map (·.plan))
    (isShared : Lower.isShared context plan = true) :
    Shares context (fun part => part = plan ∨ plan.Contains part) before
      (after.sharing context plan dataSet) := by
  have plans : (after.sharing context plan dataSet).shared.map (·.plan) =
      after.shared.map (·.plan) ++ [plan] := List.map_append
  have absent : plan ∉ after.shared.map (·.plan) := fun member =>
    (shares.added plan member).elim new plan.not_contains_self
  refine ⟨shares.stands.sharing becomes absent isShared shares.all, ?_, ?_, ?_⟩
  · rw [plans]
    exact List.subset_append_of_subset_left _ shares.kept
  · rw [plans]
    intro part member
    rcases List.mem_append.mp member with member | member
    · exact (shares.added part member).imp_right .inr
    · exact .inr (.inl (List.mem_singleton.mp member))
  · rw [plans]
    rintro part (rfl | below) shared
    · exact List.mem_append_right _ List.mem_cons_self
    · exact List.mem_append_left _ (shares.all part below shared)

end Shares

/-- Conversion shares the parts of a plan that are to be shared. -/
theorem shares_of_ofPlan {plan : Dataflow} {dataSet : DataSet}
    (ok : ofPlan context plan before = .ok (dataSet, after)) (plain : plan.HasPlainReads)
    (stands : Stands context before) :
    Shares context (fun part => part = plan ∨ plan.Contains part) before after := by
  let inside : Dataflow → Progress → DataSet → Progress → Prop := fun plan before _ after =>
    plan.HasPlainReads → Stands context before → Shares context plan.Contains before after
  let whole : Dataflow → Progress → DataSet → Progress → Prop := fun plan before _ after =>
    plan.HasPlainReads → Stands context before →
      Shares context (fun part => part = plan ∨ plan.Contains part) before after
  refine @ofPlan_induction context inside whole ?_ ?_ ?_ ?_ ?_ ?_ plan before dataSet after ok plain
    stands
  · intro name inputs model before _ plain stands
    have nothing : ∀ part, ¬ (Dataflow.node (.read name) inputs).Contains part := by
      intro part contains
      rw [plain.eq_nil, Dataflow.contains_node_iff] at contains
      obtain ⟨_, absent, _⟩ := contains
      exact nomatch absent
    exact ⟨stands.naming, List.Subset.refl _, fun _ => .inl,
      fun part below => (nothing part below).elim⟩
  · intro input before dataSet after whole plain stands
    refine (whole (plain.of_mem List.mem_cons_self) stands).congr fun part => ?_
    rw [Dataflow.contains_node_iff]
    simp only [List.mem_singleton, exists_eq_left]
  · intro step inputs before subqueries dataSet after _ _ run _ plain stands
    refine (Shares.inTurn run (fun input => plain.of_mem) stands).congr fun part => ?_
    rw [Dataflow.contains_node_iff]
  · intro plan before part _ found _ stands
    have same : part.plan = plan := by
      have found := List.find?_some found
      exact beq_iff_eq.mp found
    have member : plan ∈ before.shared.map (·.plan) :=
      same ▸ List.mem_map_of_mem (List.mem_of_find?_eq_some found)
    refine .refl stands fun other met shared => ?_
    rcases met with rfl | below
    · exact member
    · exact stands.closed plan member other below shared
  · intro step inputs before dataSet after shared none ok inside plain stands
    have new : Dataflow.node step inputs ∉ before.shared.map (·.plan) := by
      intro member
      obtain ⟨part, among, same⟩ := List.mem_map.mp member
      exact List.find?_eq_none.mp none part among (beq_iff_eq.mpr same)
    exact (inside plain stands).sharing ⟨before, dataSet, after, ok, rfl⟩ new shared
  · intro plan before dataSet after unshared inside plain stands
    have shares := inside plain stands
    refine ⟨shares.stands, shares.kept,
      fun part member => (shares.added part member).imp_right .inr, fun part met shared => ?_⟩
    rcases met with rfl | below
    · exact nomatch unshared.symm.trans shared
    · exact shares.all part below shared

end Lower

/-! ## Statements -/

namespace Statement

open Dataflow

/-- Whether the common table expressions of a statement have different names, each reads earlier
ones and models alone, the result reads them and models alone, and each of them is read. -/
structure IsListed (catalog : Catalog) (statement : Statement) : Prop where
  distinct : (statement.ctes.map (·.name)).Nodup
  bodies : EachAfter (fun earlier cte => ∀ name ∈ cte.body.tables, IsKnown catalog earlier name)
    statement.ctes
  root : ∀ name ∈ statement.root.tables, IsKnown catalog statement.ctes name
  read : ∀ earlier cte later, statement.ctes = earlier ++ cte :: later →
    cte.name ∈ later.flatMap (·.body.tables) ++ statement.root.tables

/-- Where no model is stored in a table that is named like a common table expression, the common
table expressions that one reads are earlier ones. -/
theorem IsListed.earlier {catalog : Catalog} {statement : Statement}
    (listed : statement.IsListed catalog) (fresh : AreFresh catalog statement.ctes) :
    EachAfter (fun earlier cte => ∀ other ∈ statement.ctes, other.name ∈ cte.body.tables →
      other ∈ earlier) statement.ctes := by
  intro earlier cte later split other among read
  rcases listed.bodies earlier cte later split other.name read with known | ⟨model, present, same⟩
  · obtain ⟨source, member, same⟩ := List.mem_map.mp known
    have inside : source ∈ statement.ctes := by
      rw [split]
      exact List.mem_append_left _ member
    rwa [← List.inj_on_of_nodup_map listed.distinct inside among same]
  · exact (fresh model present other among same).elim

/-- If nothing flows into the reading of models, the common table expressions of a statement stand
for the chosen parts below the last step of the plan, each for one and in an order in which each
reads only earlier ones. -/
theorem ofPlan_lists {catalog : Catalog} {settings : SqlSettings} {plan : Dataflow}
    {sharing : Sharing} {statement : Statement} (plain : plan.HasPlainReads)
    (ok : Statement.ofPlan catalog settings plan sharing = .ok statement) :
    (∃ parts : List Dataflow, parts.Nodup ∧
      (∀ part, part ∈ parts ↔ part ∈ sharing.chosen plan ∧ plan.Contains part) ∧
      List.Forall₂ (fun part cte =>
        Becomes ⟨catalog, settings, plan, sharing.chosen plan⟩ part cte.body)
        parts statement.ctes) ∧
    statement.IsListed catalog ∧
    (AreFresh catalog statement.ctes → EachAfter (fun earlier cte =>
      ∀ other ∈ statement.ctes, other.name ∈ cte.body.tables → other ∈ earlier)
      statement.ctes) := by
  obtain ⟨dataSet, progress, run, rfl⟩ := ofPlan_eq_ok.mp ok
  have shares := shares_of_ofPlan run plain .start
  have lists := lists_of_ofPlan run .start
  have listed : IsListed catalog ⟨progress.ctes, dataSet.source⟩ :=
    ⟨lists.numbered.nodup, lists.bodies, lists.known, lists.read⟩
  refine ⟨⟨progress.shared.map (·.plan), shares.stands.distinct, fun part => ?_,
    shares.stands.bodies⟩, listed, listed.earlier⟩
  constructor
  · intro member
    have chosen := shares.stands.chosen part member
    rw [isShared, Bool.and_eq_true, bne_iff_ne, List.contains_iff_mem] at chosen
    have inside := (shares.added part member).resolve_left List.not_mem_nil
    exact ⟨chosen.2, inside.resolve_left chosen.1⟩
  · rintro ⟨chosen, below⟩
    apply shares.all part (.inr below)
    rw [isShared, Bool.and_eq_true, bne_iff_ne, List.contains_iff_mem]
    exact ⟨fun same : part = plan => plan.not_contains_self (same ▸ below), chosen⟩

/-- The plan over the orders reads models without inputs. -/
theorem hasPlainReads_ordersPlan : ordersPlan.HasPlainReads := by
  have read := hasPlainReads_leaf (.read "orders")
  have large : largeOrders.HasPlainReads := read.andThen nofun
  have sorted : (largeOrders.andThen (.sort [] none)).HasPlainReads := large.andThen nofun
  refine HasPlainReads.andThen (hasPlainReads_node nofun fun input member => ?_) nofun
  simp only [List.mem_cons, List.not_mem_nil, or_false] at member
  rcases member with rfl | rfl | rfl
  exacts [large, sorted, read]

/-- Two common table expressions, listed inside out. -/
theorem ofPlan_lists_orders : ∃ statement,
    Statement.ofPlan ordersCatalog Settings.standard.sql ordersPlan
      (.parts [largeOrders, .leaf (.read "orders")]) = .ok statement ∧
    statement.ctes.map (·.name) = ["cte_0", "cte_1"] ∧ statement.IsListed ordersCatalog := by
  obtain ⟨statement, ok, names⟩ : ∃ statement, Statement.ofPlan ordersCatalog
      Settings.standard.sql ordersPlan (.parts [largeOrders, .leaf (.read "orders")]) =
        .ok statement ∧ statement.ctes.map (·.name) = ["cte_0", "cte_1"] := ⟨_, rfl, rfl⟩
  obtain ⟨_, listed, _⟩ := ofPlan_lists hasPlainReads_ordersPlan ok
  exact ⟨statement, ok, names, listed⟩

/-- A manifest of one model, stored in a table that is named like a common table expression. -/
def clashingCatalog : Catalog :=
  ⟨⟨[⟨"orders", "cte_0", none, [⟨"order", .primary, none⟩], [], [], none⟩], []⟩, 2⟩

/-- The common table expression of a model that is stored in a table of its own name seems to read
itself. -/
theorem ofPlan_clashing : ∃ statement,
    ((leaf (.read "orders")).andThen .result).HasPlainReads ∧
    Statement.ofPlan clashingCatalog Settings.standard.sql ((leaf (.read "orders")).andThen .result)
      (.parts [leaf (.read "orders")]) = .ok statement ∧
    ¬ EachAfter (fun earlier cte => ∀ other ∈ statement.ctes, other.name ∈ cte.body.tables →
      other ∈ earlier) statement.ctes := by
  obtain ⟨statement, ok, cte, single, name, tables⟩ : ∃ statement,
      Statement.ofPlan clashingCatalog Settings.standard.sql
        ((leaf (.read "orders")).andThen .result) (.parts [leaf (.read "orders")]) =
          .ok statement ∧
      ∃ cte, statement.ctes = [cte] ∧ cte.name = "cte_0" ∧ cte.body.tables = ["cte_0"] :=
    ⟨_, rfl, _, rfl, rfl, rfl⟩
  refine ⟨statement, (hasPlainReads_leaf _).andThen nofun, ok, fun each => ?_⟩
  have member : cte ∈ statement.ctes := single ▸ List.mem_singleton_self cte
  have read : cte.name ∈ cte.body.tables := by rw [name, tables]; exact List.mem_singleton_self _
  exact List.not_mem_nil (each [] cte [] single cte member read)

end Statement

end Sql

end MetricQuery

import Mathlib.Order.WellFounded
import MetricQuery.Proofs.Dataflow.Repeats
import MetricQuery.Proofs.Sql.Listing
import MetricQuery.Proofs.Sql.Origins

/-! # Sharing repeated parts

If the repeated parts of a plan are shared, each becomes one common table expression, and each of
them is read in two places (`Statement.ofPlan_repeats`). The search for repeated parts and the
conversion stop at different parts: the inside of a shared part is converted once, however often the
part occurs. A shared part that no other one contains is still read wherever it occurs; any other
one is read in the smallest shared part that contains it, and in the place for which it was chosen.
-/

namespace MetricQuery.Sql

open Dataflow

/-- The part that a table stands for, if it is not a model. -/
def Origin.part? : Origin → Option Dataflow
  | .shared part => some part.plan
  | .stored _ => none

variable {catalog : Catalog} {shared : List SharedPart} {plan part : Dataflow} {step : Step}
  {inputs : List Dataflow}

/-! ## How often shared parts are read -/

/-- A shared part is read from itself. -/
theorem map_part?_originsOf (member : plan ∈ shared.map (·.plan)) :
    (originsOf catalog shared plan).map Origin.part? = [some plan] := by
  obtain ⟨known, among, same⟩ := List.mem_map.mp member
  cases found : shared.find? fun other : SharedPart => other.plan == plan with
  | none => exact absurd (beq_iff_eq.mpr same) (List.find?_eq_none.mp found known among)
  | some other =>
      have same : other.plan = plan := beq_iff_eq.mp (List.find?_some found :)
      rw [originsOf_shared found, List.map_singleton, Origin.part?, same]

/-- A part that is not shared is read from what lies below it. -/
theorem originsOf_of_not_mem (absent : node step inputs ∉ shared.map (·.plan)) :
    originsOf catalog shared (node step inputs) = originsBelow catalog shared step inputs :=
  originsOf_unshared fun _ among same => absent (List.mem_map.mpr ⟨_, among, same⟩)

/-- If the inputs of a step are read as often as a part occurs in them, so is the step. -/
theorem count_le_originsBelow (plain : (node step inputs).HasPlainReads)
    (each : ∀ input ∈ inputs, input.parts.count part ≤
      ((originsOf catalog shared input).map Origin.part?).count (some part)) :
    (inputs.flatMap parts).count part ≤
      ((originsBelow catalog shared step inputs).map Origin.part?).count (some part) := by
  by_cases reads : ∃ name, step = .read name
  · obtain ⟨name, rfl⟩ := reads
    rw [plain.eq_nil]
    exact Nat.zero_le _
  · rw [originsBelow_eq fun name same => reads ⟨name, same⟩, List.map_flatMap]
    exact count_flatMap_mono each

/-- A shared part is read as often as it occurs, where no shared part contains it. -/
theorem count_le_originsOf (catalog : Catalog) (plain : plan.HasPlainReads)
    (member : part ∈ shared.map (·.plan))
    (free : ∀ outer ∈ shared.map (·.plan), outer ∈ plan.parts → ¬ outer.Contains part) :
    plan.parts.count part ≤
      ((originsOf catalog shared plan).map Origin.part?).count (some part) := by
  induction plan using inductionOn with
  | node step inputs ih =>
      by_cases known : node step inputs ∈ shared.map (·.plan)
      · rw [map_part?_originsOf known]
        by_cases same : part = node step inputs
        · rw [same, count_parts_self, List.count_singleton_self]
        · have outside : part ∉ (node step inputs).parts := fun inside =>
            free _ known (self_mem_parts _) ((mem_parts.mp inside).resolve_left same)
          rw [List.count_eq_zero_of_not_mem outside]
          exact Nat.zero_le _
      · have other : node step inputs ≠ part := fun same => known (same ▸ member)
        rw [originsOf_of_not_mem known, parts_node, List.count_cons_of_ne other]
        refine count_le_originsBelow plain fun input among => ih input among (plain.of_mem among) ?_
        intro outer overShared inside
        refine free outer overShared ?_
        rw [parts_node]
        exact List.mem_cons_of_mem _ (List.mem_flatMap.mpr ⟨input, among, inside⟩)

/-- Of the parts at which a walk stops, the shared ones are read if all shared ones stop it. -/
theorem mem_originsOf_of_outermost (catalog : Catalog) {again : List Dataflow}
    (plain : plan.HasPlainReads)
    (all : shared.map (·.plan) ⊆ again) (member : part ∈ shared.map (·.plan))
    (outermost : part ∈ outermost again plan) :
    some part ∈ (originsOf catalog shared plan).map Origin.part? := by
  induction plan using inductionOn with
  | node step inputs ih =>
      rw [Dataflow.outermost] at outermost
      by_cases stops : node step inputs ∈ again
      · rw [if_pos (List.contains_iff_mem.mpr stops), List.mem_singleton] at outermost
        rw [← outermost, map_part?_originsOf member]
        exact List.mem_singleton_self _
      · rw [if_neg (mt List.contains_iff_mem.mp stops), outermostOf_eq_flatMap] at outermost
        obtain ⟨input, among, outermost⟩ := List.mem_flatMap.mp outermost
        have reads : ∀ name, step ≠ .read name := by
          rintro name rfl
          rw [plain.eq_nil] at among
          exact List.not_mem_nil among
        rw [originsOf_of_not_mem (mt (@all _) stops), originsBelow_eq reads, List.map_flatMap]
        exact List.mem_flatMap.mpr ⟨input, among, ih input among (plain.of_mem among) outermost⟩

/-- A shared part that a shared part contains is read in one of them. -/
theorem exists_mem_originsBelow (catalog : Catalog)
    (plain : ∀ outer ∈ shared, outer.plan.HasPlainReads)
    (member : part ∈ shared.map (·.plan))
    (covered : ∃ outer ∈ shared, outer.plan.Contains part) :
    ∃ outer ∈ shared, some part ∈
      (originsBelow catalog shared outer.plan.step outer.plan.inputs).map Origin.part? := by
  -- In the smallest one that contains it, it stands in no further shared part.
  obtain ⟨outer, ⟨among, contains⟩, smallest⟩ := (measure fun outer : SharedPart =>
    outer.plan.size).wf.has_min {outer | outer ∈ shared ∧ outer.plan.Contains part} covered
  obtain ⟨⟨step, inputs⟩, name, columns⟩ := outer
  have plain : (node step inputs).HasPlainReads := plain _ among
  obtain ⟨input, inside, found⟩ := contains_node_iff.mp contains
  have counted : 1 ≤ (inputs.flatMap parts).count part :=
    List.one_le_count_iff.mpr (List.mem_flatMap.mpr ⟨input, inside, mem_parts.mpr found⟩)
  refine ⟨_, among, List.one_le_count_iff.mp (counted.trans ?_)⟩
  refine count_le_originsBelow plain fun input inside => ?_
  refine count_le_originsOf catalog (plain.of_mem inside) member
    fun inner innerShared within contains => ?_
  obtain ⟨other, otherAmong, rfl⟩ := List.mem_map.mp innerShared
  have below : (node step inputs).Contains other.plan :=
    contains_node_iff.mpr ⟨input, inside, mem_parts.mp within⟩
  exact smallest other ⟨otherAmong, contains⟩ below.size_lt

/-- If the repeated parts of a plan are shared, each is read twice in its statement. -/
theorem two_le_count_originsOfStatement (plain : plan.HasPlainReads)
    (same : ∀ outer, outer ∈ shared.map (·.plan) ↔ outer ∈ plan.repeatedParts)
    (repeated : part ∈ plan.repeatedParts) :
    2 ≤ ((originsOfStatement catalog shared plan).map Origin.part?).count (some part) := by
  obtain ⟨step, inputs⟩ := plan
  have member := (same part).mpr repeated
  have unshared : node step inputs ∉ shared.map (·.plan) := fun among =>
    not_isRepeated_self _ (isRepeated_of_mem_repeatedParts ((same _).mp among))
  have root : originsBelow catalog shared step inputs =
      originsOf catalog shared (node step inputs) := (originsOf_of_not_mem unshared).symm
  rw [originsOfStatement, List.map_append, List.count_append, Dataflow.step, Dataflow.inputs, root]
  by_cases covered : ∃ outer ∈ shared, outer.plan.Contains part
  · have plains : ∀ outer ∈ shared, outer.plan.HasPlainReads := fun outer among =>
      plain.of_mem_parts (mem_parts_of_isRepeated (isRepeated_of_mem_repeatedParts
        ((same _).mp (List.mem_map_of_mem among))))
    obtain ⟨outer, among, read⟩ := exists_mem_originsBelow catalog plains member covered
    have inside : some part ∈ (shared.flatMap fun outer =>
        originsBelow catalog shared outer.plan.step outer.plan.inputs).map Origin.part? := by
      rw [List.map_flatMap]
      exact List.mem_flatMap.mpr ⟨outer, among, read⟩
    simp only [repeatedParts, List.mem_eraseDups] at same repeated
    have outside := mem_originsOf_of_outermost catalog plain
      (fun outer among => mem_of_mem_outermost ((same outer).mp among)) member repeated
    have once := List.one_le_count_iff.mpr inside
    have again := List.one_le_count_iff.mpr outside
    omega
  · have free : ∀ outer ∈ shared.map (·.plan), outer ∈ (node step inputs).parts →
        ¬ outer.Contains part := by
      intro outer member _ contains
      obtain ⟨other, among, rfl⟩ := List.mem_map.mp member
      exact covered ⟨other, among, contains⟩
    have twice : 2 ≤ (node step inputs).parts.count part :=
      isRepeated_of_mem_repeatedParts repeated
    have read := count_le_originsOf catalog plain member free
    omega

/-- What is read for a shared part is read under its name. -/
theorem count_part?_le {origins : List Origin} {known : SharedPart}
    (distinct : (shared.map (·.plan)).Nodup)
    (within : ∀ origin ∈ origins, origin.IsAmong catalog shared) (among : known ∈ shared) :
    (origins.map Origin.part?).count (some known.plan) ≤
      (origins.map Origin.table).count known.name := by
  rw [List.count, List.count, List.countP_map, List.countP_map]
  refine List.countP_mono_left fun origin member same => ?_
  have same : origin.part? = some known.plan := beq_iff_eq.mp same
  have found := within origin member
  cases origin with
  | stored model => exact nomatch same
  | shared other =>
      have same := List.inj_on_of_nodup_map distinct found among (Option.some.inj same)
      exact beq_iff_eq.mpr (congrArg SharedPart.name same)

namespace Statement

open Lower

/-- Whether some shared parts are the repeated parts of a plan, and each is one common table
expression of a statement, which is read in two places or more. -/
structure SharesRepeats (catalog : Catalog) (settings : SqlSettings) (plan : Dataflow)
    (statement : Statement) (shared : List SharedPart) : Prop where
  parts : (shared.map (·.plan)).Perm plan.repeatedParts
  bodies : List.Forall₂ (fun part cte =>
    Becomes ⟨catalog, settings, plan, plan.repeatedParts⟩ part.plan cte.body) shared statement.ctes
  declared : shared.map (·.name) = statement.ctes.map (·.name)
  distinct : (shared.map (·.name)).Nodup
  tables : statement.ctes.flatMap (·.body.tables) ++ statement.root.tables =
    (originsOfStatement catalog shared plan).map Origin.table
  twice : ∀ part ∈ shared,
    2 ≤ ((originsOfStatement catalog shared plan).map Origin.part?).count (some part.plan)

/-- With the repeated parts chosen exactly these are shared. -/
theorem isShared_repeats {settings : SqlSettings} :
    isShared ⟨catalog, settings, plan, plan.repeatedParts⟩ part = true ↔
      part ∈ plan.repeatedParts := by
  rw [isShared, Bool.and_eq_true, bne_iff_ne, List.contains_iff_mem, and_iff_right_iff_imp]
  rintro member rfl
  exact not_isRepeated_self _ (isRepeated_of_mem_repeatedParts member)

/-- If nothing flows into the reading of models, sharing what is repeated makes each repeated part
one common table expression, and each of them is read in two places or more. -/
theorem ofPlan_repeats {settings : SqlSettings} {statement : Statement}
    (plain : plan.HasPlainReads)
    (ok : Statement.ofPlan catalog settings plan .repeats = .ok statement) :
    (∃ shared, statement.SharesRepeats catalog settings plan shared) ∧
    ∀ cte ∈ statement.ctes, 2 ≤
      (statement.ctes.flatMap (·.body.tables) ++ statement.root.tables).count cte.name := by
  obtain ⟨dataSet, progress, run, rfl⟩ := ofPlan_eq_ok.mp ok
  have shares := shares_of_ofPlan run plain .start
  have traces := traces_of_ofPlan run
  have traced := traces.traced .start
  have completes : Completes _ progress progress.shared := ⟨List.prefix_rfl, traced.chosen⟩
  have same : ∀ part, part ∈ progress.shared.map (·.plan) ↔ part ∈ plan.repeatedParts := by
    refine fun part => ⟨fun member => isShared_repeats.mp (shares.stands.chosen part member),
      fun repeated => shares.all part ?_ (isShared_repeats.mpr repeated)⟩
    exact mem_parts.mp (mem_parts_of_isRepeated (isRepeated_of_mem_repeatedParts repeated))
  have root := traces.tables _ completes
  rw [originsOf_unshared fun part among equal => not_isRepeated_self plan
    (isRepeated_of_mem_repeatedParts ((same plan).mp (List.mem_map.mpr ⟨part, among, equal⟩)))]
    at root
  have bodies : progress.ctes.map (·.body.tables) = progress.shared.map fun part =>
      (originsBelow catalog progress.shared part.plan.step part.plan.inputs).map Origin.table := by
    rw [eq_comm, ← List.forall₂_eq_eq_eq, List.forall₂_map_left_iff, List.forall₂_map_right_iff]
    exact (traced.bodies _ completes).imp fun part cte reads => reads.2.symm
  have shared : SharesRepeats catalog settings plan ⟨progress.ctes, dataSet.source⟩
      progress.shared := by
    constructor
    · exact (List.perm_ext_iff_of_nodup shares.stands.distinct (nodup_eraseDups _)).mpr same
    · exact List.forall₂_map_left_iff.mp shares.stands.bodies
    · exact traced.numbered.shared
    · exact traced.numbered.shared ▸ traced.numbered.nodup
    · rw [List.flatMap_def, bodies, root, originsOfStatement, List.map_append, List.map_flatMap,
        List.flatMap_def]
    · exact fun part among => two_le_count_originsOfStatement plain same
        ((same part.plan).mp (List.mem_map_of_mem among))
  refine ⟨⟨_, shared⟩, fun cte member => ?_⟩
  have named : cte.name ∈ progress.shared.map (·.name) :=
    shared.declared ▸ List.mem_map_of_mem member
  obtain ⟨part, among, name⟩ := List.mem_map.mp named
  rw [shared.tables, ← name]
  exact (shared.twice part among).trans (count_part?_le shares.stands.distinct
    (isAmong_of_mem_originsOfStatement plan) among)

/-- Large orders, and all orders, which they are part of, are each read in two places. -/
theorem ofPlan_repeats_orders : ∃ statement,
    Statement.ofPlan ordersCatalog Settings.standard.sql ordersPlan .repeats = .ok statement ∧
    (∃ shared, statement.SharesRepeats ordersCatalog Settings.standard.sql ordersPlan shared ∧
      (shared.map (·.plan)).Perm [largeOrders, leaf (.read "orders")]) ∧
    ∀ name ∈ ["cte_0", "cte_1"], 2 ≤
      (statement.ctes.flatMap (·.body.tables) ++ statement.root.tables).count name := by
  obtain ⟨statement, ok, names⟩ : ∃ statement, Statement.ofPlan ordersCatalog
      Settings.standard.sql ordersPlan .repeats = .ok statement ∧
        statement.ctes.map (·.name) = ["cte_0", "cte_1"] := ⟨_, rfl, rfl⟩
  obtain ⟨⟨shared, shares⟩, twice⟩ := ofPlan_repeats hasPlainReads_ordersPlan ok
  refine ⟨statement, ok, ⟨shared, shares, shares.parts⟩, fun name member => ?_⟩
  rw [← names] at member
  obtain ⟨cte, among, rfl⟩ := List.mem_map.mp member
  exact twice cte among

end Statement

end MetricQuery.Sql

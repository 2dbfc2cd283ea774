import MetricQuery.Dataflow.Planning
import MetricQuery.Proofs.Sql.Contents
import MetricQuery.Proofs.Sql.Sharing

/-! # What a plan holds

A plan yields some contents if it converts to a data set that holds exactly these and if every
condition in it finds the items that it reads (`Yields`). For each step there is a lemma that says
what the plan before it has to yield and what the plan with it yields then.
-/

namespace MetricQuery.Sql

/-- Whether the plain data set of a plan holds something. -/
def Holds (catalog : Catalog) (plan : Dataflow) (content : ColumnContent) : Prop :=
  ∃ dataSet, DataSet.ofPlan catalog plan = .ok dataSet ∧ dataSet.columns.contains content = true

/-- Whether each condition in a plan filters a single input that holds all items which the
condition reads. -/
def ConditionsHeld (catalog : Catalog) (plan : Dataflow) : Prop :=
  ∀ way condition inputs, plan.partAt? way = some (.node (.constrain condition) inputs) →
    ∃ input, inputs = [input] ∧ ∀ item ∈ condition.items, Holds catalog input (.item item)

/-- Whether a plan converts to a data set that holds exactly some contents, and each condition in
it finds what it reads. -/
structure Yields (catalog : Catalog) (plan : Dataflow) (contents : ColumnContent → Prop) :
    Prop where
  makes : Makes (DataSet.ofPlan catalog plan) contents
  conditions : ConditionsHeld catalog plan

variable {catalog : Catalog} {plan : Dataflow} {contents : ColumnContent → Prop}

/-- Making contents depends on which contents they are alone. -/
theorem Makes.congr {result : Except QueryError DataSet} {others : ColumnContent → Prop}
    (makes : Makes result contents) (same : ∀ content, contents content ↔ others content) :
    Makes result others := by
  obtain ⟨dataSet, ok, named, held⟩ := makes
  exact ⟨dataSet, ok, named, fun content => (held content).trans (same content)⟩

/-- The conditions of a plan are held when those of its inputs and its own step's are. -/
theorem ConditionsHeld.node {step : Step} {inputs : List Dataflow}
    (each : ∀ input ∈ inputs, ConditionsHeld catalog input)
    (here : ∀ condition, step = .constrain condition →
      ∃ input, inputs = [input] ∧ ∀ item ∈ condition.items, Holds catalog input (.item item)) :
    ConditionsHeld catalog (.node step inputs) := by
  intro way condition filtered found
  cases way with
  | nil =>
      obtain ⟨⟩ := found
      exact here condition rfl
  | cons place way =>
      obtain ⟨input, at_place, found⟩ := Option.bind_eq_some_iff.mp found
      exact each input (List.mem_of_getElem? at_place) way condition filtered found

/-- A step makes of the data sets of its inputs what it makes of any subqueries. -/
theorem Makes.node {step : Step} {inputs : List Dataflow} {dataSets : List DataSet}
    (reads : ∀ model, step ≠ .read model) (results : step ≠ .result)
    (converted : List.Forall₂ (fun input dataSet => DataSet.ofPlan catalog input = .ok dataSet)
      inputs dataSets) (makes : Makes (assemble step (placed dataSets)) contents) :
    Makes (DataSet.ofPlan catalog (.node step inputs)) contents := by
  rw [DataSet.ofPlan, DataSet.ofInputs_eq reads fun same => (results same).elim,
    DataSet.ofPlans_eq_mapM, mapM_eq_ok.mpr converted]
  exact makes

namespace Yields

/-- A plan holds exactly the contents it yields. -/
theorem holds_iff (yields : Yields catalog plan contents) (content : ColumnContent) :
    Holds catalog plan content ↔ contents content := by
  obtain ⟨dataSet, ok, _, held⟩ := yields.makes
  rw [← held]
  constructor
  · intro holds
    obtain ⟨other, same, holds⟩ := holds
    rw [ok] at same
    obtain ⟨⟩ := same
    exact holds
  · exact fun holds => ⟨dataSet, ok, holds⟩

/-- Yielding contents depends on which contents they are alone. -/
theorem congr {others : ColumnContent → Prop} (yields : Yields catalog plan contents)
    (same : ∀ content, contents content ↔ others content) : Yields catalog plan others :=
  ⟨yields.makes.congr same, yields.conditions⟩

/-- Sharing parts of a plan that converts makes no difference to this. -/
theorem exists_statement (yields : Yields catalog plan contents) (settings : SqlSettings)
    (sharing : Sharing) :
    ∃ statement, Statement.ofPlan catalog settings plan sharing = .ok statement := by
  obtain ⟨dataSet, ok, _⟩ := yields.makes
  exact (Statement.ofPlan_agrees catalog settings plan sharing).isOk_iff.mpr ⟨dataSet, ok⟩

/-- A plan yields what it holds. -/
theorem held (yields : Yields catalog plan contents) :
    Yields catalog plan (Holds catalog plan) :=
  yields.congr fun content => (yields.holds_iff content).symm

/-- Reading a model yields its contents. -/
theorem leaf {name : String} {model : SemanticModel} (found : catalog.model? name = some model) :
    Yields catalog (.leaf (.read name)) (modelContents model) := by
  constructor
  · rw [Dataflow.leaf, DataSet.ofPlan, DataSet.ofInputs, found]
    exact readModel_makes model _
  · exact .node (fun _ absent => (List.not_mem_nil absent).elim) (by rintro _ ⟨⟩)

/-- One more step at the end of a plan. -/
theorem andThen {step : Step} {next : ColumnContent → Prop}
    (yields : Yields catalog plan contents) (reads : ∀ model, step ≠ .read model)
    (joins : ∀ entities, step ≠ .join entities) (combines : step ≠ .combine)
    (results : step ≠ .result)
    (makes : ∀ input : Subquery, input.columns.AreNamed →
      (∀ content, input.columns.contains content = true ↔ contents content) →
      Makes (Lower.ofStep input step) next)
    (conditions : ∀ condition, step = .constrain condition →
      ∀ item ∈ condition.items, contents (.item item)) :
    Yields catalog (plan.andThen step) next := by
  obtain ⟨dataSet, ok, named, held⟩ := yields.makes
  constructor
  · apply Makes.node reads results (.cons ok .nil)
    exact assemble_singleton joins combines _ ▸ makes _ named held
  · refine .node ?_ fun condition same => ?_
    · exact List.forall_mem_singleton.mpr yields.conditions
    · exact ⟨plan, rfl, fun item member =>
        (yields.holds_iff _).mpr (conditions condition same item member)⟩

/-- The result yields what it is the result of. -/
theorem result (yields : Yields catalog plan contents) :
    Yields catalog (plan.andThen .result) contents := by
  constructor
  · rw [Dataflow.andThen, DataSet.ofPlan, DataSet.ofInputs]
    exact yields.makes
  · exact .node (List.forall_mem_singleton.mpr yields.conditions) (by rintro _ ⟨⟩)

/-- Metric time is yielded at the grains its dimension is stored for. -/
theorem addMetricTime {dimension : String} {stored : Grain} {offset : Option OffsetWindow}
    (yields : Yields catalog plan contents)
    (held : ∀ grain part, stored.Offers grain part →
      contents (.item (.timeDimension dimension [] grain part))) :
    Yields catalog (plan.andThen (.addMetricTime dimension stored offset)) fun content =>
      contents content ∨ ∃ grain part, stored.Offers grain part ∧
        content = .item (.timeDimension metricTimeName [] grain part) := by
  refine yields.andThen nofun nofun nofun nofun (fun input named same => ?_) nofun
  refine (addMetricTime_makes named fun grain part offered => ?_).congr fun content => ?_
  · exact (same _).mpr (held grain part offered)
  · rw [same]

/-- A condition on what is yielded yields the same. -/
theorem constrain {condition : Condition} (yields : Yields catalog plan contents)
    (held : ∀ item ∈ condition.items, contents (.item item)) :
    Yields catalog (plan.andThen (.constrain condition)) contents := by
  refine yields.andThen nofun nofun nofun nofun (fun input named same => ?_) ?_
  · exact (constrain_makes condition named).congr same
  · rintro _ ⟨⟩
    exact held

/-- What is yielded can be passed on by name. -/
theorem pass {wanted : List ColumnContent} (yields : Yields catalog plan contents)
    (held : ∀ content ∈ wanted, contents content) :
    Yields catalog (plan.andThen (.pass wanted)) (· ∈ wanted) := by
  refine yields.andThen nofun nofun nofun nofun (fun input named same => ?_) nofun
  exact pass_makes named fun content member => (same content).mpr (held content member)

/-- An aggregation yields the items and its measures. -/
theorem aggregate {measures : List AggregatedMeasure} (yields : Yields catalog plan contents)
    (held : ∀ measure ∈ measures, contents (.measure measure.measure)) :
    Yields catalog (plan.andThen (.aggregate measures)) fun content =>
      (contents content ∧ content.item?.isSome = true) ∨
        content ∈ measures.map fun measure => .measure measure.measure := by
  refine yields.andThen nofun nofun nofun nofun (fun input named same => ?_) nofun
  refine (aggregate_makes named fun measure member => ?_).congr fun content => ?_
  · exact (same _).mpr (held measure member)
  · rw [same]

/-- A computed metric is yielded with the items. -/
theorem compute {output : MetricOutput} {formula : MetricFormula}
    (yields : Yields catalog plan contents)
    (held : ∀ content ∈ formulaReads formula, contents content) :
    Yields catalog (plan.andThen (.compute output formula)) fun content =>
      (contents content ∧ content.item?.isSome = true) ∨ content = .metric output := by
  refine yields.andThen nofun nofun nofun nofun (fun input named same => ?_) nofun
  refine (compute_makes named fun content member => ?_).congr fun content => ?_
  · exact (same _).mpr (held content member)
  · rw [same]

/-- Accumulating yields the same. -/
theorem accumulate {order : GroupByItem} {parts : List GroupByItem}
    {measures : List AggregatedMeasure} (yields : Yields catalog plan contents)
    (ordered : contents (.item order)) (parted : ∀ part ∈ parts, contents (.item part)) :
    Yields catalog (plan.andThen (.accumulate order parts measures)) contents := by
  refine yields.andThen nofun nofun nofun nofun (fun input named same => ?_) nofun
  refine (accumulate_makes named ?_ fun part member => ?_).congr same
  · exact (same _).mpr ordered
  · exact (same _).mpr (parted part member)

/-- Sorting by what is yielded yields the same. -/
theorem sort {order : List OrderItem} {limit : Option Nat}
    (yields : Yields catalog plan contents) (held : ∀ item ∈ order, contents item.content) :
    Yields catalog (plan.andThen (.sort order limit)) contents := by
  refine yields.andThen nofun nofun nofun nofun (fun input named same => ?_) nofun
  exact (sort_makes named fun item member => (same _).mpr (held item member)).congr same

/-- The data sets of plans that yield what they hold, under their places. -/
theorem exists_placed {plans : List Dataflow}
    (yields : ∀ plan ∈ plans, Yields catalog plan (Holds catalog plan)) :
    ∃ dataSets, List.Forall₂ (fun plan dataSet => DataSet.ofPlan catalog plan = .ok dataSet)
        plans dataSets ∧
      List.Forall₂ (fun plan (subquery : Subquery) => subquery.columns.AreNamed ∧
        ∀ content, subquery.columns.contains content = true ↔ Holds catalog plan content)
        plans (placed dataSets) := by
  obtain ⟨dataSets, computed, alike⟩ := exists_mapM_eq_ok fun plan member =>
    (yields plan member).makes
  exact ⟨dataSets, mapM_eq_ok.mp computed, forall₂_placed alike⟩

/-- Inputs can be joined on entities that they and the plan hold. -/
theorem joinTo {inputs : List Dataflow.JoinedInput} (yields : Yields catalog plan contents)
    (rights : ∀ input ∈ inputs, Yields catalog input.plan (Holds catalog input.plan))
    (keys : ∀ input ∈ inputs, contents (.ownEntity input.entity) ∧
      Holds catalog input.plan (.ownEntity input.entity)) :
    Yields catalog (Dataflow.joinTo plan inputs) fun content => contents content ∨
      ∃ input ∈ inputs, ∃ inner, Holds catalog input.plan inner ∧
        seenThrough input.entity inner = some content := by
  unfold Dataflow.joinTo
  split
  · rename_i none
    rw [List.isEmpty_iff.mp none]
    exact yields.congr fun content => (or_iff_left (by simp)).symm
  · have each : ∀ part ∈ plan :: inputs.map Dataflow.JoinedInput.plan,
        Yields catalog part (Holds catalog part) := by
      intro part member
      rcases List.mem_cons.mp member with rfl | member
      · exact yields.held
      · obtain ⟨input, among, rfl⟩ := List.mem_map.mp member
        exact rights input among
    obtain ⟨dataSets, converted, held⟩ := exists_placed each
    constructor
    · refine Makes.node nofun nofun converted ?_
      generalize placed dataSets = subqueries at held ⊢
      cases held with
      | cons left rest =>
          rename_i first others
          rw [List.forall₂_map_left_iff] at rest
          have pairs := forall₂_zip_map Dataflow.JoinedInput.entity rest
          have even : others.length = (inputs.map Dataflow.JoinedInput.entity).length := by
            rw [List.length_map, rest.length_eq]
          refine (join_makes even left.1 fun pair among => ?_).congr fun content => ?_
          · obtain ⟨input, member, entity, _, same⟩ := exists_left_of_forall₂ pairs among
            rw [entity, same, left.2, yields.holds_iff]
            exact keys input member
          · rw [left.2, yields.holds_iff]
            refine or_congr_right ⟨?_, ?_⟩
            · intro holds
              obtain ⟨pair, among, inner, held, seen⟩ := holds
              obtain ⟨input, member, entity, _, same⟩ := exists_left_of_forall₂ pairs among
              exact ⟨input, member, inner, (same inner).mp held, entity ▸ seen⟩
            · intro holds
              obtain ⟨input, member, inner, held, seen⟩ := holds
              obtain ⟨pair, among, entity, _, same⟩ := exists_right_of_forall₂ pairs member
              exact ⟨pair, among, inner, (same inner).mpr held, entity ▸ seen⟩
    · exact .node (fun part member => (each part member).conditions) nofun

/-- Outputs with the same items can be combined; a single one stays as it is. -/
theorem combined {outputs : List Dataflow} {items : GroupByItem → Prop} (some : outputs ≠ [])
    (yields : ∀ output ∈ outputs, Yields catalog output (Holds catalog output))
    (shared : ∀ output ∈ outputs, ∀ item, Holds catalog output (.item item) ↔ items item)
    (others : ∀ output ∈ outputs, ∀ content, Holds catalog output content →
      content.item?.isSome = true ∨ ∃ metric, content = .metric metric) :
    Yields catalog (Dataflow.combined outputs) fun content =>
      ∃ output ∈ outputs, Holds catalog output content := by
  unfold Dataflow.combined
  split
  · rename_i output
    exact (yields output List.mem_cons_self).congr fun content => by simp
  · obtain ⟨dataSets, converted, held⟩ := exists_placed yields
    constructor
    · refine Makes.node nofun nofun converted ?_
      generalize placed dataSets = subqueries at held ⊢
      have alike := held
      cases held with
      | nil => exact (some rfl).elim
      | @cons output first outputs rest left right =>
          refine (combine_makes (fun input among => ?_) fun input among item present => ?_).congr
            fun content => ?_
          · obtain ⟨_, _, named, _⟩ := exists_left_of_forall₂ alike among
            exact named
          · obtain ⟨other, member, _, same⟩ := exists_left_of_forall₂ right among
            rw [left.2, shared output List.mem_cons_self] at present
            rw [same, shared other (List.mem_cons_of_mem _ member)]
            exact present
          · constructor
            · intro present
              rcases present with ⟨present, _⟩ | ⟨input, among, present, _⟩
              · exact ⟨output, List.mem_cons_self, (left.2 content).mp present⟩
              · obtain ⟨other, member, _, same⟩ := exists_left_of_forall₂ alike among
                exact ⟨other, member, (same content).mp present⟩
            · intro present
              obtain ⟨other, member, present⟩ := present
              rcases others other member content present with isItem | metric
              · cases content with
                | item item =>
                    refine .inl ⟨?_, rfl⟩
                    rw [left.2, shared output List.mem_cons_self]
                    exact (shared other member item).mp present
                | _ => exact nomatch isItem
              · obtain ⟨input, among, _, same⟩ := exists_right_of_forall₂ alike member
                exact .inr ⟨input, among, (same content).mpr present, metric⟩
    · exact .node (fun output member => (yields output member).conditions) nofun

end Yields

end MetricQuery.Sql

import MetricQuery.Proofs.Dataflow.Measures
import MetricQuery.Proofs.Filter.Rendering

/-! # Parts of a plan

The parts of a plan apart from the metrics that are joined as items, and the measures aggregated
there. What completes a model below a measure neither constrains nor aggregates anything
(`Dataflow.prepares_of_provide`), so that a measure is aggregated from a single chain of steps above
it (`Dataflow.of_ofMeasure`).
-/

namespace MetricQuery

namespace Step

/-- Whether a step only reads, joins and chooses columns. -/
def isPreparing : Step → Bool
  | read _ => true
  | addMetricTime _ _ _ => true
  | join _ => true
  | pass _ => true
  | _ => false

/-- Whether a step joins its inputs on entities. -/
def isJoin : Step → Bool
  | join _ => true
  | _ => false

/-- Whether a step passes on what is aggregated below it. -/
def isPassing : Step → Bool
  | join _ => false
  | aggregate _ => false
  | _ => true

end Step

namespace Dataflow

/-- Whether a plan computes a metric. -/
def computes : Dataflow → Bool
  | node (.compute _ _) _ => true
  | _ => false

mutual

/-- The parts of a plan, each behind what flows into it, without the metrics that are joined as
items. -/
def ownParts : Dataflow → List Dataflow
  | node step inputs => ownPartsOf step.isJoin inputs ++ [node step inputs]

/-- The parts of several plans, without those of joined metrics if the plans are the inputs of a
join. -/
def ownPartsOf (joined : Bool) : List Dataflow → List Dataflow
  | [] => []
  | plan :: rest =>
    (if joined && plan.computes then [] else ownParts plan) ++ ownPartsOf joined rest

end

/-- The measures that are aggregated by the last step of a plan, each with the plan. -/
def aggregatedLast : Dataflow → List (AggregatedMeasure × Dataflow)
  | node (.aggregate measures) inputs => measures.map (·, node (.aggregate measures) inputs)
  | _ => []

/-- The measures that are aggregated in a plan, apart from the metrics that are joined as items. -/
def aggregations (plan : Dataflow) : List (AggregatedMeasure × Dataflow) :=
  plan.ownParts.flatMap aggregatedLast

/-- What aggregates a measure is a part of the plan. -/
theorem mem_ownParts_of_mem_aggregations {plan : Dataflow}
    {aggregated : AggregatedMeasure × Dataflow} (listed : aggregated ∈ plan.aggregations) :
    aggregated.2 ∈ plan.ownParts := by
  obtain ⟨part, member, last⟩ := List.mem_flatMap.mp listed
  match part with
  | node (.aggregate measures) inputs =>
      obtain ⟨_, _, rfl⟩ := List.mem_map.mp last
      exact member

/-- Where nothing is joined the parts are those of all inputs. -/
theorem ownPartsOf_false (inputs : List Dataflow) :
    ownPartsOf false inputs = inputs.flatMap ownParts := by
  induction inputs with
  | nil => rfl
  | cons plan rest ih =>
      rw [ownPartsOf, ih, List.flatMap_cons]
      rfl

/-- Where plans are joined the parts of those that compute a metric do not count. -/
theorem mem_ownPartsOf_true {inputs : List Dataflow} {part : Dataflow} :
    part ∈ ownPartsOf true inputs ↔
      ∃ input ∈ inputs, input.computes = false ∧ part ∈ input.ownParts := by
  induction inputs with
  | nil => simp [ownPartsOf]
  | cons plan rest ih =>
      rw [ownPartsOf, List.mem_append, ih]
      cases computes : plan.computes <;> simp [computes]

/-- A further step adds itself to the parts. -/
theorem ownParts_andThen {step : Step} (other : step.isJoin = false) (plan : Dataflow) :
    (plan.andThen step).ownParts = plan.ownParts ++ [plan.andThen step] := by
  rw [andThen, ownParts, other, ownPartsOf_false, List.flatMap_singleton]

/-- A step that does not aggregate changes nothing about what is aggregated. -/
theorem aggregations_andThen {step : Step} (passing : step.isPassing = true) (plan : Dataflow) :
    (plan.andThen step).aggregations = plan.aggregations := by
  have other : step.isJoin = false := by
    cases step <;> first | rfl | exact nomatch passing
  have none : aggregatedLast (plan.andThen step) = [] := by
    cases step <;> first | rfl | exact nomatch passing
  rw [aggregations, ownParts_andThen other, List.flatMap_append, List.flatMap_singleton, none,
    List.append_nil, aggregations]

/-- Plans brought together aggregate what each of them does, in their order. -/
theorem aggregations_combined (plans : List Dataflow) :
    (combined plans).aggregations = plans.flatMap aggregations := by
  have several : (node .combine plans).aggregations = plans.flatMap aggregations := by
    have other : Step.combine.isJoin = false := rfl
    rw [aggregations, ownParts, other, ownPartsOf_false, List.flatMap_append, List.flatMap_assoc]
    exact List.append_nil _
  match plans with
  | [plan] => rw [combined, List.flatMap_singleton]
  | [] => exact several
  | _ :: _ :: _ => exact several

/-! ## Completed models -/

/-- Whether a plan only reads, joins and chooses columns, apart from the metrics joined as items. -/
def Prepares (plan : Dataflow) : Prop := ∀ part ∈ plan.ownParts, part.step.isPreparing = true

/-- A plan is among its own parts. -/
theorem mem_ownParts_self (plan : Dataflow) : plan ∈ plan.ownParts := by
  cases plan
  exact List.mem_append_right _ List.mem_cons_self

namespace Prepares

/-- What only prepares does not compute a metric. -/
theorem computes_eq_false {plan : Dataflow} (prepares : plan.Prepares) :
    plan.computes = false := by
  have last := prepares plan plan.mem_ownParts_self
  match plan with
  | node step inputs => cases step <;> first | rfl | exact nomatch last

/-- What only prepares aggregates nothing. -/
theorem aggregations_eq_nil {plan : Dataflow} (prepares : plan.Prepares) :
    plan.aggregations = [] := by
  refine List.flatMap_eq_nil_iff.mpr fun part member => ?_
  have preparing := prepares part member
  match part with
  | node step inputs => cases step <;> first | rfl | exact nomatch preparing

/-- A plan that only prepares still does after a further step that only prepares. -/
theorem andThen {plan : Dataflow} (prepares : plan.Prepares) {step : Step}
    (other : step.isJoin = false) (preparing : step.isPreparing = true) :
    (plan.andThen step).Prepares := by
  intro part member
  rw [ownParts_andThen other] at member
  rcases List.mem_append.mp member with below | last
  · exact prepares part below
  · rw [List.mem_singleton.mp last]
    exact preparing

/-- A join only prepares if its first input does and each of the others does or computes a metric.
-/
theorem joinTo {plan : Dataflow} (prepares : plan.Prepares) {inputs : List JoinedInput}
    (each : ∀ input ∈ inputs, input.plan.computes = true ∨ input.plan.Prepares) :
    (joinTo plan inputs).Prepares := by
  unfold Dataflow.joinTo
  split
  · exact prepares
  · intro part member
    rw [ownParts, Step.isJoin] at member
    rcases List.mem_append.mp member with below | last
    · obtain ⟨input, among, other, inside⟩ := mem_ownPartsOf_true.mp below
      rcases List.mem_cons.mp among with rfl | among
      · exact prepares part inside
      · obtain ⟨joined, present, rfl⟩ := List.mem_map.mp among
        rcases each joined present with computes | prepares
        · exact nomatch computes.symm.trans other
        · exact prepares part inside
    · rw [List.mem_singleton.mp last]
      rfl

end Prepares

/-- Whether a plan is what comes of a source under some conditions: the source itself if there are
none, and otherwise the source with a single step that constrains it by their conjunction. -/
inductive IsConstrained (source : Dataflow) : List Condition → Dataflow → Prop where
  | unconditional : IsConstrained source [] source
  | under {conditions : List Condition} {conjunction : Condition}
      (together : Condition.IsConjunction conditions conjunction) :
      IsConstrained source conditions (node (.constrain conjunction) [source])

/-- Applying conditions constrains a plan by just these. -/
theorem isConstrained_constrained (source : Dataflow) (conditions : List Condition) :
    IsConstrained source conditions (constrained source conditions) := by
  unfold constrained
  split
  · rename_i none
    cases conditions with
    | nil => exact .unconditional
    | cons => exact nomatch none
  · rename_i together
    exact .under (Condition.isConjunction_of_all together)

/-- Conditions change nothing about what is aggregated. -/
theorem aggregations_constrained (plan : Dataflow) (conditions : List Condition) :
    (constrained plan conditions).aggregations = plan.aggregations := by
  unfold constrained
  split
  · rfl
  · exact aggregations_andThen rfl plan

/-- An aggregation adds its own measures to those aggregated before it. -/
theorem aggregations_aggregate (plan : Dataflow) (measures : List AggregatedMeasure) :
    (plan.andThen (.aggregate measures)).aggregations =
      plan.aggregations ++ measures.map (·, plan.andThen (.aggregate measures)) := by
  unfold aggregations
  rw [ownParts_andThen rfl, List.flatMap_append, List.flatMap_singleton]
  rfl

/-- Reading a model only prepares. -/
theorem prepares_readModel (model : SemanticModel) : (readModel model).Prepares :=
  List.forall_mem_singleton.mpr rfl

/-- Reading a model with the time of a measure only prepares. -/
theorem prepares_readMeasure (model : SemanticModel) (measure : Measure)
    (offset : Option OffsetWindow) : (readMeasure model measure offset).Prepares := by
  unfold readMeasure
  split
  · exact prepares_readModel model
  · exact (prepares_readModel model).andThen rfl rfl

section

variable {catalog : Catalog} {subquery : SubqueryPlanner}

/-- What is joined for an item that is a metric is the subquery for this metric. -/
theorem of_subqueriesFor {items : List GroupByItem} {subqueries : List JoinedInput}
    (ok : subqueriesFor subquery items = .ok subqueries) :
    List.Forall₂ (fun item input => ∃ rest,
      item.subqueryLinks.getD [] = input.entity :: rest ∧
        subquery item.name input.entity = .ok input.plan)
      (items.filter (·.kind == .metric)) subqueries := by
  refine (mapM_eq_ok.mp ok).imp fun item input found => ?_
  unfold subqueryFor at found
  split at found
  · exact nomatch found
  · rename_i entity rest links
    obtain ⟨plan, planned, rfl⟩ := map_eq_ok.mp found
    exact ⟨rest, links, planned⟩

variable (computes : ∀ name entity plan, subquery name entity = .ok plan → plan.computes = true)

include computes in
/-- To complete a model nothing is constrained or aggregated but within metrics. -/
theorem prepares_of_provide {hops : Nat} {plan result : Dataflow} {model : SemanticModel}
    {items : List GroupByItem} {visited : List String} (within : IsWithin hops model items)
    (prepares : plan.Prepares)
    (ok : provide catalog subquery hops plan model items visited = .ok result) :
    result.Prepares := by
  induction hops using Nat.strong_induction_on generalizing plan result model items visited with
  | _ hops ih =>
      obtain ⟨subqueries, joined, planned, served, rfl⟩ := (provide_eq_ok within).mp ok
      refine prepares.joinTo fun input member => ?_
      rcases List.mem_append.mp member with isMetric | isModel
      · obtain ⟨item, _, _, _, ok⟩ := exists_left_of_forall₂ (of_subqueriesFor planned) isMetric
        exact .inl (computes _ _ _ ok)
      · obtain ⟨group, among, target, right, _, ok, rfl⟩ := exists_left_of_forall₂ served isModel
        have fewer : hops - 1 < hops := by
          rcases Nat.eq_zero_or_pos hops with rfl | some
          · exact (List.not_mem_nil (within.linkGroups_eq_nil ▸ among)).elim
          · omega
        have behind := ih _ fewer (within.behind among) (prepares_readModel target) ok
        exact .inr (behind.andThen rfl rfl)

include computes in
/-- A measure is aggregated from columns that are chosen right above the conditions, and these stand
right above all joins. -/
theorem of_ofMeasure {name : String} {groupBy : List GroupByItem} {conditions : List Condition}
    {offset : Option OffsetWindow} {plan : Dataflow}
    (ok : ofMeasure catalog subquery name groupBy conditions offset = .ok plan) :
    ∃ model measure source, catalog.measure? name = some (model, measure) ∧
      provideAll catalog subquery (readMeasure model measure offset) model
        (neededItems groupBy conditions) = .ok source ∧ source.Prepares ∧
      plan = ((constrained source conditions).andThen
        (.pass (.measure measure.name :: groupBy.map .item))).andThen
          (.aggregate [⟨measure.name, measure.aggregation⟩]) := by
  unfold ofMeasure at ok
  split at ok
  · exact nomatch ok
  · rename_i model measure found
    obtain ⟨source, provided, ⟨⟩⟩ := bind_eq_ok.mp ok
    refine ⟨model, measure, source, found, provided, ?_, rfl⟩
    exact prepares_of_provide computes (isWithin_mostLinks model _)
      (prepares_readMeasure model measure offset) provided

end

end Dataflow

end MetricQuery

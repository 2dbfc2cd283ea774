import MetricQuery.Proofs.Dataflow.Measures
import MetricQuery.Proofs.Dataflow.Remembering
import MetricQuery.Proofs.Following

/-! # The calls of the planner

Planning a metric, aggregating a measure and completing a model call one another. What one call does
itself is said with its calls left open (`PlanCall.step`), and which calls these are is said apart
from it (`PlanCall.Makes`). The planner with bounds on depth and hops takes such steps
(`PlanCall.answer`), and so does the planner without bounds, cut off at some number of levels
(`PlanCall.run`). A step ends if the calls that it makes end (`Ends.step`).
-/

namespace MetricQuery.Dataflow

open ReferenceMemo (Ensures)

/-- A call of the planner: to plan a metric, to aggregate a measure, or to complete the plan of a
model by what is needed. -/
inductive PlanCall where
  | metric (task : MetricTask)
  | measure (name : String) (groupBy : List GroupByItem) (conditions : List Condition)
      (offset : Option OffsetWindow)
  | complete (plan : Dataflow) (model : SemanticModel) (needed : List GroupByItem)
      (visited : List String)

/-- The metric of a subquery, for each value of an entity. -/
def subqueryTask (metric entity : String) : MetricTask :=
  ⟨⟨metric, none⟩, [.entity entity []], [], none⟩

namespace PlanCall

section

variable {m : Type → Type} [Monad m] [MonadExcept QueryError m] (catalog : Catalog)
  (render : FilterLocation → Option (List String) → m (List Condition))
  (next : PlanCall → m Dataflow)

/-! What a call does, with `next` in place of the calls that it makes. -/

/-- What planning a metric calls for: its measure, or its inputs. -/
def stepMetric (task : MetricTask) : m Dataflow :=
  match catalog.metric? task.output.metric with
  | none => throw (.unknownMetric task.output.metric)
  | some found => do
    let location := FilterLocation.metric found.name
    let own ← render location found.filter
    let conditions := task.conditions ++ own
    let output := MetricOutput.mk found.name task.output.newName
    match found.kind with
    | .simple | .cumulative =>
      match found.inputMeasures with
      | [] => throw (.noInputMeasure found.name)
      | input :: _ =>
        let ofInput ← render location input.filter
        let aggregated ← next (.measure input.name task.groupBy (conditions ++ ofInput) task.offset)
        let plan ←
          if found.kind = .cumulative then
            accumulated catalog aggregated input.name task.groupBy
          else pure aggregated
        return plan.andThen (.compute output (.measure input.name))
    | .ratio | .derived =>
      let outputs := inputOutputs found
      let inputs ← (found.inputMetrics.zip outputs).mapM fun (input, inputOutput) => do
        let ofConsumer ← render (.inputMetric input.name) input.filter
        next <| .metric {
          output := inputOutput
          groupBy := task.groupBy
          conditions := conditions ++ ofConsumer
          offset := input.offset.or task.offset }
      let formula ← formulaOf found outputs
      if inputs.isEmpty then throw (.noInputMetrics found.name)
      return (combined inputs).andThen (.compute output formula)

/-- What planning a measure calls for: its model, completed by what is needed. -/
def stepMeasure (name : String) (groupBy : List GroupByItem) (conditions : List Condition)
    (offset : Option OffsetWindow) : m Dataflow :=
  match catalog.measure? name with
  | none => throw (.unknownMeasure name)
  | some (model, own) => do
    let completed ← next <| .complete (readMeasure model own offset) model
      (neededItems groupBy conditions) [model.name]
    let contents := ColumnContent.measure own.name :: groupBy.map ColumnContent.item
    return (constrained completed conditions).andThen (.pass contents)
      |>.andThen (.aggregate [⟨own.name, own.aggregation⟩])

/-- What completing a model calls for: subqueries, and the models behind its entities. -/
def stepComplete (plan : Dataflow) (model : SemanticModel) (needed : List GroupByItem)
    (visited : List String) : m Dataflow := do
  let lacking := missing model needed
  let subqueries ← subqueriesFor (fun name entity => next (.metric (subqueryTask name entity)))
    lacking
  let joined ← (linkGroups lacking).mapM fun group =>
    match joinTarget? catalog model group.entity group.items visited with
    | none =>
      throw (.noJoinTarget group.entity model.name (group.items.map GroupByItem.qualifiedName))
    | some target => do
      let right ← next <| .complete (readModel target) target group.items (visited ++ [target.name])
      return JoinedInput.mk group.entity (right.andThen (.pass (passedThrough group)))
  return joinTo plan (subqueries ++ joined)

/-- What a call of the planner does, with the calls that it makes in turn left open. -/
def step : PlanCall → m Dataflow
  | .metric task => stepMetric catalog render next task
  | .measure name groupBy conditions offset =>
    stepMeasure catalog next name groupBy conditions offset
  | .complete plan model needed visited => stepComplete catalog next plan model needed visited

/-- What planning a query before sorting does, with `next` in place of the calls that it makes. -/
def stepSelection (query : ResolvedQuery) : m Dataflow :=
  let conditions := query.condition.toList
  if query.metrics.isEmpty then ofItems catalog query.groupBy conditions
  else do
    let outputs ← query.metrics.mapM fun output =>
      next (.metric ⟨output, query.groupBy, conditions, none⟩)
    return combined outputs

/-- What planning a query does, with `next` in place of the calls that it makes. -/
def stepQuery (query : ResolvedQuery) : m Dataflow := do
  let output ← stepSelection catalog next query
  let sorted :=
    if query.orderBy.isEmpty && query.limit.isNone then output
    else output.andThen (.sort query.orderBy query.limit)
  return sorted.andThen .result

/-- What comes of a call with a bound on the depth of metrics. -/
def answer (depth : Nat) : PlanCall → m Dataflow
  | .metric task => planMetric catalog render depth task
  | .measure name groupBy conditions offset =>
    ofMeasure catalog
      (fun name entity => planMetric catalog render depth (subqueryTask name entity))
      name groupBy conditions offset
  | .complete plan model needed visited =>
    provide catalog (fun name entity => planMetric catalog render depth (subqueryTask name entity))
      (mostLinks needed) plan model needed visited

end

/-- Whether one call makes another one: a metric calls for its measure, or for its inputs, under its
filters; a measure calls for its model; and a model for the subqueries of the metrics that it lacks,
and for the models to join with it. -/
inductive Makes (catalog : Catalog) (lookup : FilterLookup) : (outer inner : PlanCall) → Prop where
  | measure {task : MetricTask} {found : Metric} {own ofInput : List Condition}
      {input : InputMeasure} (isMetric : catalog.metric? task.output.metric = some found)
      (ownRead : conditionsAt lookup (.metric found.name) found.filter = .ok own)
      (among : input ∈ found.inputMeasures)
      (inputRead : conditionsAt lookup (.metric found.name) input.filter = .ok ofInput) :
      Makes catalog lookup (.metric task)
        (.measure input.name task.groupBy (task.conditions ++ own ++ ofInput) task.offset)
  | input {task : MetricTask} {found : Metric} {own ofConsumer : List Condition}
      {input : InputMetric} {output : MetricOutput}
      (isMetric : catalog.metric? task.output.metric = some found)
      (ownRead : conditionsAt lookup (.metric found.name) found.filter = .ok own)
      (among : (input, output) ∈ found.inputMetrics.zip (inputOutputs found))
      (inputRead : conditionsAt lookup (.inputMetric input.name) input.filter = .ok ofConsumer) :
      Makes catalog lookup (.metric task)
        (.metric ⟨output, task.groupBy, task.conditions ++ own ++ ofConsumer,
          input.offset.or task.offset⟩)
  | model {name : String} {groupBy : List GroupByItem} {conditions : List Condition}
      {offset : Option OffsetWindow} {model : SemanticModel} {measure : Measure}
      (isMeasure : catalog.measure? name = some (model, measure)) :
      Makes catalog lookup (.measure name groupBy conditions offset)
        (.complete (readMeasure model measure offset) model (neededItems groupBy conditions)
          [model.name])
  | subquery {plan : Dataflow} {model : SemanticModel} {needed : List GroupByItem}
      {visited : List String} {item : GroupByItem} {entity : String}
      (lacking : item ∈ missing model needed) (kind : item.kind = .metric) :
      Makes catalog lookup (.complete plan model needed visited)
        (.metric (subqueryTask item.name entity))
  | target {plan : Dataflow} {model : SemanticModel} {needed : List GroupByItem}
      {visited : List String} {group : LinkGroup} {target : SemanticModel}
      (member : group ∈ linkGroups (missing model needed))
      (chosen : joinTarget? catalog model group.entity group.items visited = some target) :
      Makes catalog lookup (.complete plan model needed visited)
        (.complete (readModel target) target group.items (visited ++ [target.name]))

end PlanCall

/-! ## Steps of the planner with bounds -/

section

variable {m : Type → Type} [Monad m] [MonadExcept QueryError m] {catalog : Catalog}
  {render : FilterLocation → Option (List String) → m (List Condition)} {depth : Nat}

/-- A call for a metric is answered by one step, at one level less. -/
theorem answer_metric (task : MetricTask) :
    PlanCall.answer catalog render (depth + 1) (.metric task) =
      PlanCall.step catalog render (PlanCall.answer catalog render depth) (.metric task) := rfl

/-- A call for a measure is answered by one step, at the same level. -/
theorem answer_measure (name : String) (groupBy : List GroupByItem) (conditions : List Condition)
    (offset : Option OffsetWindow) :
    PlanCall.answer catalog render depth (.measure name groupBy conditions offset) =
      PlanCall.step catalog render (PlanCall.answer catalog render depth)
        (.measure name groupBy conditions offset) := rfl

/-- A query is planned by one step that calls for its metrics. -/
theorem planQuery_eq_stepQuery (query : ResolvedQuery) :
    planQuery catalog query render =
      PlanCall.stepQuery catalog (PlanCall.answer catalog render catalog.metricDepth) query := rfl

variable [LawfulMonad m] {subquery : (metric entity : String) → m Dataflow}

/-- Where nothing is a join away the bound on joins does not matter. -/
theorem provide_eq_provide_zero {model : SemanticModel} {needed : List GroupByItem}
    (within : IsWithin 0 model needed) (hops : Nat) (plan : Dataflow) (visited : List String) :
    provide catalog subquery hops plan model needed visited =
      provide catalog subquery 0 plan model needed visited := by
  cases hops with
  | zero => rfl
  | succ hops =>
      rw [provide, provide, ← missing, within.linkGroups_eq_nil]
      simp only [List.mapM_nil, pure_bind, List.append_nil]

/-- How many hops are allowed makes no difference as long as they are enough. -/
theorem provide_eq_of_isWithin {hops more : Nat} {plan : Dataflow} {model : SemanticModel}
    {needed : List GroupByItem} {visited : List String} (within : IsWithin hops model needed)
    (also : IsWithin more model needed) :
    provide catalog subquery hops plan model needed visited =
      provide catalog subquery more plan model needed visited := by
  induction hops generalizing more plan model needed visited with
  | zero => exact (provide_eq_provide_zero within _ _ _).symm
  | succ hops ih =>
      cases more with
      | zero => exact provide_eq_provide_zero also _ _ _
      | succ more =>
          rw [provide, provide, ← missing]
          refine bind_congr fun subqueries => congrArg (· >>= _) (mapM_congr fun group member => ?_)
          cases joinTarget? catalog model group.entity group.items visited with
          | none => rfl
          | some target =>
              exact congrArg (· >>= _) (ih (within.behind member) (also.behind member))

/-- A call to complete a model is answered by one step, at the same level. -/
theorem answer_complete (plan : Dataflow) (model : SemanticModel) (needed : List GroupByItem)
    (visited : List String) :
    PlanCall.answer catalog render depth (.complete plan model needed visited) =
      PlanCall.step catalog render (PlanCall.answer catalog render depth)
        (.complete plan model needed visited) := by
  have within := isWithin_mostLinks model needed
  have also : IsWithin (mostLinks needed + 1) model needed :=
    fun item lacking kind => Nat.le_succ_of_le (within item lacking kind)
  rw [PlanCall.answer, provide_eq_of_isWithin within also, provide, PlanCall.step,
    PlanCall.stepComplete, ← missing]
  refine bind_congr fun subqueries => congrArg (· >>= _) (mapM_congr fun group member => ?_)
  cases joinTarget? catalog model group.entity group.items visited with
  | none => rfl
  | some target =>
      exact congrArg (· >>= _)
        (provide_eq_of_isWithin (also.behind member) (isWithin_mostLinks target group.items))

end

/-! ## Steps that end -/

/-- Planning with the memo of a request, without a result if it has not ended. -/
abbrev Unended (α : Type) : Type := ExceptT QueryError (StateT ReferenceMemo Option) α

/-- A computation as one that ends. -/
def Unended.of {α : Type} (whole : Remembering α) : Unended α :=
  ExceptT.mk fun memo => some (whole.run.run memo)

namespace PlanCall

/-- The planner without bounds, cut off after a number of calls within one another. -/
def run (catalog : Catalog) (lookup : FilterLookup) : (levels : Nat) → PlanCall → Unended Dataflow
  | 0, _ => ExceptT.mk fun _ => none
  | levels + 1, call =>
    step catalog (fun location filter => .of (rememberedConditionsAt lookup location filter))
      (run catalog lookup levels) call

/-- Planning a query without bounds, cut off after a number of calls within one another. -/
def runQuery (catalog : Catalog) (query : ResolvedQuery) (levels : Nat) : Unended Dataflow :=
  stepQuery catalog (run catalog query.lookup levels) query

end PlanCall

section

variable {α β : Type}

/-- Whether attempts with more and more levels come to give what a computation gives with any memo,
of which it is known what it gives without one. -/
def Ends (attempts : Nat → Unended α) (whole : Remembering α) (alone : Except QueryError α) :
    Prop :=
  ∃ enough, ∀ levels, enough ≤ levels → ∀ memo : ReferenceMemo, memo.Filled →
    ∃ after : ReferenceMemo, after.Filled ∧ whole.run.run memo = (alone, after) ∧
      (attempts levels).run.run memo = some (alone, after)

namespace Ends

variable {attempts : Nat → Unended α} {whole : Remembering α} {alone : Except QueryError α}

/-- What does not call the planner ends at once. -/
theorem of (same : ∀ levels, attempts levels = .of whole)
    (ensured : Ensures whole.run (· = alone)) : Ends attempts whole alone := by
  refine ⟨0, fun levels _ memo filled => ?_⟩
  obtain ⟨result, after⟩ := ensured memo filled
  have ran : whole.run.run memo = (alone, (whole.run.run memo).2) := Prod.ext result rfl
  refine ⟨_, after, ran, ?_⟩
  rw [same levels]
  exact congrArg some ran

/-- What makes no call ends at once. -/
theorem pure (value : α) : Ends (fun _ => Pure.pure value) (Pure.pure value) (Pure.pure value) :=
  .of (fun _ => rfl) (.pure rfl)

/-- What fails at once ends at once. -/
theorem throw (error : QueryError) :
    Ends (α := α) (fun _ => throw error) (MonadExcept.throw error) (MonadExcept.throw error) :=
  .of (fun _ => rfl) (.pure rfl)

/-- Of two computations one after the other both end if the first does and the second does after it.
-/
theorem bind {next : Nat → α → Unended β} {wholeNext : α → Remembering β}
    {aloneNext : α → Except QueryError β} (first : Ends attempts whole alone)
    (continued : ∀ value, alone = .ok value →
      Ends (next · value) (wholeNext value) (aloneNext value)) :
    Ends (fun levels => attempts levels >>= next levels) (whole >>= wholeNext)
      (alone >>= aloneNext) := by
  obtain ⟨enough, each⟩ := first
  cases alone with
  | error error =>
      refine ⟨enough, fun levels reached memo filled => ?_⟩
      obtain ⟨after, filled, ran, ended⟩ := each levels reached memo filled
      refine ⟨after, filled, ?_, ?_⟩
      · rw [ExceptT.run_bind, StateT.run_bind, ran]
        rfl
      · rw [ExceptT.run_bind, StateT.run_bind, ended]
        rfl
  | ok value =>
      obtain ⟨further, eachNext⟩ := continued value rfl
      refine ⟨max enough further, fun levels reached memo filled => ?_⟩
      obtain ⟨between, filled, ran, ended⟩ := each levels (by omega) memo filled
      obtain ⟨after, filled, ranNext, endedNext⟩ := eachNext levels (by omega) between filled
      refine ⟨after, filled, ?_, ?_⟩
      · rw [ExceptT.run_bind, StateT.run_bind, ran]
        exact ranNext
      · rw [ExceptT.run_bind, StateT.run_bind, ended]
        exact endedNext

/-- Computations over a list end if each of them does. -/
theorem mapM {attempts : Nat → α → Unended β} {whole : α → Remembering β}
    {alone : α → Except QueryError β} {members : List α}
    (each : ∀ member ∈ members, Ends (attempts · member) (whole member) (alone member)) :
    Ends (fun levels => members.mapM (attempts levels)) (members.mapM whole)
      (members.mapM alone) := by
  induction members with
  | nil => exact .pure []
  | cons member rest ih =>
      simp only [List.mapM_cons]
      refine (each member List.mem_cons_self).bind fun head _ => ?_
      refine (ih fun other among => each other (List.mem_cons_of_mem _ among)).bind fun tail _ => ?_
      exact .pure (head :: tail)

/-- Changing a result does not matter for ending. -/
theorem map (ends : Ends attempts whole alone) (change : α → β) :
    Ends (fun levels => change <$> attempts levels) (change <$> whole) (change <$> alone) := by
  simp only [map_eq_pure_bind]
  exact ends.bind fun value _ => .pure (change value)

/-- The first attempt may be left out. -/
theorem of_succ (ends : Ends (fun levels => attempts (levels + 1)) whole alone) :
    Ends attempts whole alone := by
  obtain ⟨enough, each⟩ := ends
  refine ⟨enough + 1, fun levels reached => ?_⟩
  obtain ⟨levels, rfl⟩ := Nat.exists_eq_add_of_le' (Nat.one_le_of_lt reached)
  exact each levels (Nat.le_of_succ_le_succ reached)

end Ends

private theorem ends_accumulated (catalog : Catalog) (plan : Dataflow) (name : String)
    (groupBy : List GroupByItem) :
    Ends (fun _ => accumulated catalog plan name groupBy)
      (accumulated catalog plan name groupBy) (accumulated catalog plan name groupBy) := by
  refine .of (fun _ => ?_) (accumulated_ensures catalog plan name groupBy)
  unfold accumulated
  cases groupBy.find? GroupByItem.isMetricTime with
  | none => rfl
  | some time => cases catalog.measure? name <;> rfl

private theorem ends_formulaOf (metric : Metric) (inputs : List MetricOutput) :
    Ends (fun _ => formulaOf metric inputs) (formulaOf metric inputs)
      (formulaOf metric inputs) := by
  refine .of (fun _ => ?_) (formulaOf_ensures metric inputs)
  unfold formulaOf
  split
  · rfl
  · rfl
  · cases metric.inputs.expr <;> rfl

private theorem commonModel_eq_of (elements : List Element) (found : Option String)
    (items : List GroupByItem) :
    (commonModel elements found items : Unended (Option String)) =
      .of (commonModel elements found items) := by
  induction items generalizing found with
  | nil => rfl
  | cons item rest ih =>
      unfold commonModel
      simp only
      split
      · exact ih _
      · split
        · exact ih _
        · rfl
      · rfl

private theorem ends_ofItems (catalog : Catalog) (groupBy : List GroupByItem)
    (conditions : List Condition) :
    Ends (fun _ => ofItems catalog groupBy conditions) (ofItems catalog groupBy conditions)
      (ofItems catalog groupBy conditions) := by
  refine Ends.bind (.of (fun _ => commonModel_eq_of _ _ _) (commonModel_ensures _ _ _))
    fun found _ => ?_
  cases found with
  | none => exact .throw _
  | some name =>
      dsimp only
      cases catalog.model? name with
      | none => exact .throw _
      | some model => exact .pure _

end

section

variable {catalog : Catalog} {lookup : FilterLookup} {next : Nat → PlanCall → Unended Dataflow}
  {whole : PlanCall → Remembering Dataflow} {alone : PlanCall → Except QueryError Dataflow}

private theorem ends_subqueriesFor {subquery : Nat → (metric entity : String) → Unended Dataflow}
    {wholeOf : (metric entity : String) → Remembering Dataflow} {aloneOf : SubqueryPlanner}
    {items : List GroupByItem}
    (each : ∀ item ∈ items, item.kind = .metric → ∀ entity,
      Ends (subquery · item.name entity) (wholeOf item.name entity) (aloneOf item.name entity)) :
    Ends (fun levels => subqueriesFor (subquery levels) items) (subqueriesFor wholeOf items)
      (subqueriesFor aloneOf items) := by
  refine .mapM fun item member => ?_
  obtain ⟨inside, kind⟩ := List.mem_filter.mp member
  cases item.subqueryLinks.getD [] with
  | nil => exact .throw _
  | cons entity rest => exact (each item inside (beq_iff_eq.mp kind) entity).map _

private theorem ends_stepMetric {task : MetricTask}
    (each : ∀ inner, (PlanCall.metric task).Makes catalog lookup inner →
      Ends (next · inner) (whole inner) (alone inner)) :
    Ends (fun levels => PlanCall.stepMetric catalog (fun location filter =>
        .of (rememberedConditionsAt lookup location filter)) (next levels) task)
      (PlanCall.stepMetric catalog (rememberedConditionsAt lookup) whole task)
      (PlanCall.stepMetric catalog (conditionsAt lookup) alone task) := by
  have render : ∀ location filter, Ends _ _ _ := fun location filter =>
    .of (fun _ => rfl) (rememberedConditionsAt_ensures lookup location filter)
  unfold PlanCall.stepMetric
  cases isMetric : catalog.metric? task.output.metric with
  | none => exact .throw _
  | some found =>
      refine (render (.metric found.name) found.filter).bind fun own ownRead => ?_
      have inputs : ∀ pair ∈ found.inputMetrics.zip (inputOutputs found), Ends _ _ _ :=
        fun pair among => (render (.inputMetric pair.1.name) pair.1.filter).bind
          fun ofConsumer inputRead => each _ (.input isMetric ownRead among inputRead)
      cases found.kind with
      | simple =>
          cases measured : found.inputMeasures with
          | nil => exact .throw _
          | cons input rest =>
              refine (render (.metric found.name) input.filter).bind fun ofInput inputRead => ?_
              refine Ends.bind (each _ (.measure isMetric ownRead ?_ inputRead)) fun _ _ => .pure _
              exact measured ▸ List.mem_cons_self
      | cumulative =>
          cases measured : found.inputMeasures with
          | nil => exact .throw _
          | cons input rest =>
              refine (render (.metric found.name) input.filter).bind fun ofInput inputRead => ?_
              refine Ends.bind (each _ (.measure isMetric ownRead ?_ inputRead))
                fun aggregated _ => ?_
              · exact measured ▸ List.mem_cons_self
              · exact (ends_accumulated catalog aggregated input.name task.groupBy).bind
                  fun _ _ => .pure _
      | ratio | derived =>
          refine (Ends.mapM inputs).bind fun planned _ => ?_
          refine (ends_formulaOf found (inputOutputs found)).bind fun formula _ => ?_
          cases planned.isEmpty with
          | true => exact .throw _
          | false => exact .pure _

/-- What a call does ends if the calls that it makes end. -/
theorem ends_step {call : PlanCall} (each : ∀ inner, call.Makes catalog lookup inner →
      Ends (next · inner) (whole inner) (alone inner)) :
    Ends (fun levels => PlanCall.step catalog (fun location filter =>
        .of (rememberedConditionsAt lookup location filter)) (next levels) call)
      (PlanCall.step catalog (rememberedConditionsAt lookup) whole call)
      (PlanCall.step catalog (conditionsAt lookup) alone call) := by
  cases call with
  | metric task => exact ends_stepMetric each
  | measure name groupBy conditions offset =>
      simp only [PlanCall.step, PlanCall.stepMeasure]
      cases found : catalog.measure? name with
      | none => exact .throw _
      | some owned => exact (each _ (.model found)).bind fun completed _ => .pure _
  | complete plan model needed visited =>
      refine Ends.bind (ends_subqueriesFor fun item inside kind entity =>
        each _ (.subquery inside kind)) fun subqueries _ => ?_
      refine (Ends.mapM fun group member => ?_).bind fun joined _ => .pure _
      cases chosen : joinTarget? catalog model group.entity group.items visited with
      | none => exact .throw _
      | some target => exact (each _ (.target member chosen)).bind fun right _ => .pure _

/-- Planning a query ends if planning its metrics does. -/
theorem ends_stepQuery {query : ResolvedQuery} (each : ∀ output ∈ query.metrics,
      Ends (next · (.metric ⟨output, query.groupBy, query.condition.toList, none⟩))
        (whole (.metric ⟨output, query.groupBy, query.condition.toList, none⟩))
        (alone (.metric ⟨output, query.groupBy, query.condition.toList, none⟩))) :
    Ends (fun levels => PlanCall.stepQuery catalog (next levels) query)
      (PlanCall.stepQuery catalog whole query) (PlanCall.stepQuery catalog alone query) := by
  have selection : Ends (fun levels => PlanCall.stepSelection catalog (next levels) query)
      (PlanCall.stepSelection catalog whole query)
      (PlanCall.stepSelection catalog alone query) := by
    unfold PlanCall.stepSelection
    split
    · exact ends_ofItems catalog query.groupBy query.condition.toList
    · exact (Ends.mapM each).bind fun outputs _ => .pure _
  exact selection.bind fun output _ => .pure _

end

end MetricQuery.Dataflow

import MetricQuery.Dataflow.Planning
import MetricQuery.Proofs.Filter.Rendering

/-! # Planning with a memo

Planning reads references only where it renders filters, so a plan made with a memo is the plan that
comes of reading them without one (`ofQueryRemembering_ensures`).
-/

namespace MetricQuery.Dataflow

open ReferenceMemo (Ensures)

/-- Planning with the memo of a request. -/
abbrev Remembering (α : Type) : Type := ExceptT QueryError (StateM ReferenceMemo) α

/-- Filters rendered with the memo are rendered as without one. -/
theorem rememberedConditionsAt_ensures (lookup : FilterLookup) (location : FilterLocation)
    (filter : Option (List String)) :
    Ensures (rememberedConditionsAt lookup location filter).run
      (· = conditionsAt lookup location filter) :=
  Condition.ofTemplates_ensures (filter.getD [])

section

variable (catalog : Catalog) {subquery : (metric entity : String) → Remembering Dataflow}
  {alone : SubqueryPlanner}
  (ensured : ∀ metric entity, Ensures (subquery metric entity).run (· = alone metric entity))

include ensured

/-- Subqueries planned with the memo are those planned without one. -/
theorem subqueriesFor_ensures (items : List GroupByItem) :
    Ensures (subqueriesFor subquery items).run (· = subqueriesFor alone items) := by
  refine Ensures.run_mapM (fun item => ?_) _
  cases item.subqueryLinks.getD [] with
  | nil => exact .pure rfl
  | cons entity rest =>
      simp only [subqueryFor, map_eq_pure_bind]
      exact (ensured item.name entity).run_bind fun plan => .pure rfl

private theorem provide_ensures (hops : Nat) (plan : Dataflow) (model : SemanticModel)
    (needed : List GroupByItem) (visited : List String) :
    Ensures (provide catalog subquery hops plan model needed visited).run
      (· = provide catalog alone hops plan model needed visited) := by
  induction hops generalizing plan model needed visited with
  | zero => exact (subqueriesFor_ensures ensured _).run_bind fun subqueries => .pure rfl
  | succ hops ih =>
      unfold provide
      refine (subqueriesFor_ensures ensured _).run_bind fun subqueries => ?_
      refine (Ensures.run_mapM (fun group => ?_) _).run_bind fun joined => .pure rfl
      cases joinTarget? catalog model group.entity group.items visited with
      | none => exact .pure rfl
      | some target => exact (ih _ _ _ _).run_bind fun right => .pure rfl

private theorem ofMeasure_ensures (name : String) (groupBy : List GroupByItem)
    (conditions : List Condition) (offset : Option OffsetWindow) :
    Ensures (ofMeasure catalog subquery name groupBy conditions offset).run
      (· = ofMeasure catalog alone name groupBy conditions offset) := by
  unfold ofMeasure
  cases catalog.measure? name with
  | none => exact .pure rfl
  | some found =>
      exact (provide_ensures catalog ensured _ _ _ _ _).run_bind fun complete => .pure rfl

end

/-- A running total does not depend on the memo. -/
theorem accumulated_ensures (catalog : Catalog) (plan : Dataflow) (name : String)
    (groupBy : List GroupByItem) :
    Ensures (accumulated catalog plan name groupBy : Remembering Dataflow).run
      (· = accumulated catalog plan name groupBy) := by
  unfold accumulated
  cases groupBy.find? GroupByItem.isMetricTime with
  | none => exact .pure rfl
  | some time =>
      cases catalog.measure? name with
      | none => exact .pure rfl
      | some found => exact .pure rfl

/-- The formula of a metric does not depend on the memo. -/
theorem formulaOf_ensures (metric : Metric) (inputs : List MetricOutput) :
    Ensures (formulaOf metric inputs : Remembering MetricFormula).run
      (· = formulaOf metric inputs) := by
  unfold formulaOf
  split
  · exact .pure rfl
  · exact .pure rfl
  · cases metric.inputs.expr with
    | none => exact .pure rfl
    | some expr => exact .pure rfl

/-- The model that items come from does not depend on the memo. -/
theorem commonModel_ensures (elements : List Element) (found : Option String)
    (items : List GroupByItem) :
    Ensures (commonModel elements found items : Remembering (Option String)).run
      (· = commonModel elements found items) := by
  induction items generalizing found with
  | nil => exact .pure rfl
  | cons item rest ih =>
      unfold commonModel
      simp only
      split
      · exact ih _
      · split
        · exact ih _
        · exact .pure rfl
      · exact .pure rfl

private theorem ofItems_ensures (catalog : Catalog) (groupBy : List GroupByItem)
    (conditions : List Condition) :
    Ensures (ofItems catalog groupBy conditions : Remembering Dataflow).run
      (· = ofItems catalog groupBy conditions) := by
  refine (commonModel_ensures _ _ _).run_bind fun found => ?_
  cases found with
  | none => exact .pure rfl
  | some name =>
      dsimp only
      cases catalog.model? name with
      | none => exact .pure rfl
      | some model => exact .pure rfl

private theorem planMetric_ensures (catalog : Catalog) (lookup : FilterLookup) (depth : Nat)
    (task : MetricTask) :
    Ensures (planMetric catalog (rememberedConditionsAt lookup) depth task).run
      (· = ofMetric catalog lookup depth task) := by
  unfold ofMetric
  induction depth generalizing task with
  | zero => exact .pure rfl
  | succ depth ih =>
      unfold planMetric
      cases catalog.metric? task.output.metric with
      | none => exact .pure rfl
      | some metric =>
          have render := rememberedConditionsAt_ensures lookup
          refine (render (.metric metric.name) metric.filter).run_bind fun own => ?_
          have measured : ∀ name groupBy conditions offset, Ensures _ _ :=
            ofMeasure_ensures catalog fun name entity =>
              ih ⟨⟨name, none⟩, [.entity entity []], [], none⟩
          cases metric.kind with
          | simple =>
              cases metric.inputMeasures with
              | nil => exact .pure rfl
              | cons input =>
                  refine (render (.metric metric.name) input.filter).run_bind fun ofInput => ?_
                  exact (measured _ _ _ _).run_bind fun aggregated => .pure rfl
          | cumulative =>
              cases metric.inputMeasures with
              | nil => exact .pure rfl
              | cons input =>
                  refine (render (.metric metric.name) input.filter).run_bind fun ofInput => ?_
                  refine (measured _ _ _ _).run_bind fun aggregated => ?_
                  exact (accumulated_ensures catalog _ _ _).run_bind fun plan => .pure rfl
          | ratio | derived =>
              refine Ensures.run_bind (Ensures.run_mapM (fun pair => ?_) _) fun inputs => ?_
              · exact (render _ _).run_bind fun ofConsumer => ih _
              · refine (formulaOf_ensures _ _).run_bind fun formula => ?_
                cases inputs.isEmpty with
                | true => exact .pure rfl
                | false => exact .pure rfl

private theorem planSelection_ensures (catalog : Catalog) (query : ResolvedQuery) :
    Ensures (planSelection catalog query (rememberedConditionsAt query.lookup)).run
      (· = ofSelection catalog query) := by
  unfold ofSelection planSelection
  split
  · exact ofItems_ensures _ _ _
  · exact (Ensures.run_mapM (fun output => planMetric_ensures _ _ _ _) _).run_bind
      fun _ => .pure rfl

/-- Planning with a memo gives the plan of the query. -/
theorem ofQueryRemembering_ensures (catalog : Catalog) (query : ResolvedQuery) :
    Ensures (ofQueryRemembering catalog query).run (· = ofQuery catalog query) :=
  (planSelection_ensures catalog query).run_bind fun _ => .pure rfl

end MetricQuery.Dataflow

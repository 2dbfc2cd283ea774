import MetricQuery.Dataflow.Planning
import MetricQuery.Proofs.Element.Extending
import MetricQuery.Proofs.Following

/-! # Plans over extended manifests

No further model comes between the models that a plan joins, so that every query that can be planned
has the same plan over an extended manifest (`Manifest.Extends.planQuery_follows`).
-/

namespace MetricQuery

open Dataflow

namespace Manifest.Extends

variable {base further whole : Manifest} {hops : Nat}

/-! ## Joins -/

/-- A further model is no target of a join from a model of the base. -/
theorem joinTarget?_eq (grown : base.Extends further whole) {source : SemanticModel}
    (known : source ∈ base.models) (entity : String) (items : List GroupByItem)
    (visited : List String) :
    joinTarget? ⟨whole, hops⟩ source entity items visited =
      joinTarget? ⟨base, hops⟩ source entity items visited := by
  cases found : source.entity? entity with
  | none =>
      rw [joinTarget?, joinTarget?, found]
      rfl
  | some key =>
      have named : key.name = entity := by simpa using List.find?_some found
      rw [joinTarget?, joinTarget?, found, if_neg nofun, if_neg nofun]
      refine find?_eq_of_filter_eq (grown.models.filter_eq fun target new => ?_)
      rw [← named, grown.isIdentifiedBy_eq_false known (List.mem_of_find?_eq_some found) new,
        Bool.and_false, Bool.false_and]

section

variable {subquery other : (metric entity : String) → Except QueryError Dataflow}
  (queries : ∀ metric entity, Follows (subquery metric entity) (other metric entity))
include queries

/-- Subqueries follow if the planner of subqueries does. -/
theorem subqueriesFor_follows (items : List GroupByItem) :
    Follows (subqueriesFor subquery items) (subqueriesFor other items) := by
  refine .mapM fun item _ => ?_
  cases item.subqueryLinks.getD [] with
  | nil => exact .error _ _
  | cons entity rest => exact (queries item.name entity).map _

private theorem provide_follows (grown : base.Extends further whole) {depth : Nat} {plan : Dataflow}
    {model : SemanticModel} (known : model ∈ base.models) (needed : List GroupByItem)
    (visited : List String) :
    Follows (provide ⟨base, hops⟩ subquery depth plan model needed visited)
      (provide ⟨whole, hops⟩ other depth plan model needed visited) := by
  induction depth generalizing plan model needed visited with
  | zero => exact (subqueriesFor_follows queries _).bind fun _ => .refl _
  | succ depth ih =>
      refine (subqueriesFor_follows queries _).bind fun _ => ?_
      refine Follows.bind (.mapM fun group _ => ?_) fun _ => .refl _
      rw [grown.joinTarget?_eq known]
      cases found : joinTarget? ⟨base, hops⟩ model group.entity group.items visited with
      | none => exact .error _ _
      | some target =>
          refine (ih ?_ _ _).bind fun _ => .refl _
          unfold joinTarget? at found
          split at found
          · cases found
          · exact List.mem_of_find?_eq_some found

/-- The plan of a measure follows in an extended manifest. -/
theorem measure_follows (grown : base.Extends further whole) (name : String)
    (groupBy : List GroupByItem) (conditions : List Condition) (offset : Option OffsetWindow) :
    Follows (ofMeasure ⟨base, hops⟩ subquery name groupBy conditions offset)
      (ofMeasure ⟨whole, hops⟩ other name groupBy conditions offset) := by
  cases found : (Catalog.mk base hops).measure? name with
  | none =>
      rw [ofMeasure, found]
      exact .error _ _
  | some owned =>
      obtain ⟨known, _⟩ := Catalog.of_measure? found
      rw [ofMeasure, ofMeasure, found, grown.measure?_eq found]
      exact (provide_follows queries grown known _ _).bind fun _ => .refl _

end

/-! ## Metrics -/

private theorem accumulated_follows (grown : base.Extends further whole) (plan : Dataflow)
    (name : String)
    (groupBy : List GroupByItem) :
    Follows (accumulated (m := Except QueryError) ⟨base, hops⟩ plan name groupBy)
      (accumulated ⟨whole, hops⟩ plan name groupBy) := by
  unfold accumulated
  cases groupBy.find? GroupByItem.isMetricTime with
  | none => exact .refl _
  | some time =>
      cases found : (Catalog.mk base hops).measure? name with
      | none => exact .error _ _
      | some owned =>
          rw [grown.measure?_eq found]
          exact .refl _

variable {render : FilterLocation → Option (List String) → Except QueryError (List Condition)}

private theorem planMetric_follows (grown : base.Extends further whole) {depth deeper : Nat}
    (bound : depth ≤ deeper) (task : MetricTask) :
    Follows (planMetric ⟨base, hops⟩ render depth task)
      (planMetric ⟨whole, hops⟩ render deeper task) := by
  induction depth generalizing deeper task with
  | zero => exact .error _ _
  | succ depth ih =>
      obtain ⟨deeper, rfl⟩ := Nat.exists_eq_succ_of_ne_zero (Nat.ne_zero_of_lt bound)
      have bound := Nat.le_of_succ_le_succ bound
      cases found : (Catalog.mk base hops).metric? task.output.metric with
      | none =>
          rw [planMetric, found]
          exact .error _ _
      | some metric =>
          rw [planMetric, planMetric, found, grown.metric?_eq found]
          refine (Follows.refl _).bind fun own => ?_
          have queries : ∀ name entity, Follows
              (planMetric ⟨base, hops⟩ render depth ⟨⟨name, none⟩, [.entity entity []], [], none⟩)
              (planMetric ⟨whole, hops⟩ render deeper ⟨⟨name, none⟩, [.entity entity []], [],
                none⟩) := fun _ _ => ih bound _
          cases metric.kind with
          | simple =>
              cases metric.inputMeasures with
              | nil => exact .error _ _
              | cons input =>
                  refine (Follows.refl _).bind fun ofInput => ?_
                  exact (measure_follows queries grown _ _ _ _).bind fun _ => .refl _
          | cumulative =>
              cases metric.inputMeasures with
              | nil => exact .error _ _
              | cons input =>
                  refine (Follows.refl _).bind fun ofInput => ?_
                  refine (measure_follows queries grown _ _ _ _).bind fun aggregated => ?_
                  exact (grown.accumulated_follows _ _ _).bind fun _ => .refl _
          | ratio | derived =>
              refine Follows.bind (.mapM fun pair _ => ?_) fun _ => .refl _
              exact (Follows.refl _).bind fun ofConsumer => ih bound _

/-! ## Items -/

private theorem find?_elementsWithoutMetrics (grown : base.Extends further whole)
    {item : GroupByItem}
    {element : Element}
    (found : (Catalog.mk base hops).elementsWithoutMetrics.find? (·.item == item) = some element) :
    (Catalog.mk whole hops).elementsWithoutMetrics.find? (·.item == item) = some element := by
  obtain ⟨model, known, has⟩ := Catalog.offers_elementsWithoutMetrics_iff.mp
    (List.any_eq_true.mpr ⟨element, List.mem_of_find?_eq_some found,
      by simpa using List.find?_some found⟩)
  rw [← found]
  exact find?_eq_of_filter_eq (grown.filter_elementsWithoutMetrics known has)

private theorem commonModel_follows (grown : base.Extends further whole) (found : Option String)
    (items : List GroupByItem) :
    Follows (commonModel (m := Except QueryError) (Catalog.mk base hops).elementsWithoutMetrics
        found items)
      (commonModel (Catalog.mk whole hops).elementsWithoutMetrics found items) := by
  induction items generalizing found with
  | nil => exact .refl _
  | cons item rest ih =>
      cases first : (Catalog.mk base hops).elementsWithoutMetrics.find? (·.item == item) with
      | none =>
          simp only [commonModel, first, Option.bind_none]
          exact .error _ _
      | some element =>
          simp only [commonModel, first, grown.find?_elementsWithoutMetrics first]
          split
          · exact ih _
          · split
            · exact ih _
            · exact .refl _
          · exact .refl _

private theorem items_follow (grown : base.Extends further whole) (groupBy : List GroupByItem)
    (conditions : List Condition) :
    Follows (ofItems (m := Except QueryError) ⟨base, hops⟩ groupBy conditions)
      (ofItems ⟨whole, hops⟩ groupBy conditions) := by
  refine (grown.commonModel_follows none _).bind fun common => ?_
  cases common with
  | none => exact .refl _
  | some name =>
      dsimp only
      cases found : (Catalog.mk base hops).model? name with
      | none => exact .error _ _
      | some model =>
          rw [grown.model?_eq found]
          exact .refl _

/-- A query that can be planned has the same plan. -/
theorem planQuery_follows (grown : base.Extends further whole) (query : ResolvedQuery) :
    Follows (Dataflow.ofQuery ⟨base, hops⟩ query) (Dataflow.ofQuery ⟨whole, hops⟩ query) := by
  refine Follows.bind ?_ fun _ => .refl _
  unfold planSelection
  split
  · exact grown.items_follow _ _
  · refine Follows.bind (.mapM fun output _ => ?_) fun _ => .refl _
    exact grown.planMetric_follows grown.metricDepth_le _

end Manifest.Extends

end MetricQuery

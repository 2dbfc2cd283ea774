import Mathlib.Data.Finset.Lattice.Fold
import Mathlib.Data.Prod.Lex
import Mathlib.Order.Lattice.Nat
import MetricQuery.Proofs.Dataflow.Recursion
import MetricQuery.Proofs.Planning

/-! # Planning ends

If no metric refers back to itself, then every call of the planner has less weight than the call
that makes it, however the models are linked: calls from a metric on have fewer metrics before them,
and calls from model to model fewer links. So planning a resolved request comes to an end without
bounds on its depth, with what the planner with bounds gives (`Request.planning_ends`).
-/

namespace MetricQuery

namespace Catalog

section

open Classical

variable {catalog : Catalog}

/-- How many metrics a metric leads to, itself included. -/
noncomputable def rank (catalog : Catalog) (name : String) : Nat :=
  ((catalog.manifest.metrics.map Metric.name).toFinset.filter
    (Relation.ReflTransGen catalog.RefersTo name)).card

/-- No metric has more others below it than there are metrics. -/
theorem rank_le (catalog : Catalog) (name : String) :
    catalog.rank name ≤ catalog.manifest.metrics.length :=
  (Finset.card_filter_le _ _).trans
    ((List.toFinset_card_le _).trans (List.length_map _).le)

/-- A metric that is found is named in the manifest. -/
theorem mem_toFinset_of_metric? {name : String} {metric : Metric}
    (found : catalog.metric? name = some metric) :
    name ∈ (catalog.manifest.metrics.map Metric.name).toFinset := by
  obtain ⟨known, named⟩ := of_metric? found
  exact List.mem_toFinset.mpr (named ▸ List.mem_map_of_mem known)

/-- A metric of the manifest has a positive rank: it is behind itself. -/
theorem rank_pos {name : String} {metric : Metric} (found : catalog.metric? name = some metric) :
    0 < catalog.rank name :=
  Finset.card_pos.mpr ⟨name, Finset.mem_filter.mpr ⟨mem_toFinset_of_metric? found, .refl⟩⟩

/-- If no metric refers back to itself, then what a metric refers to has fewer metrics below it. -/
theorem IsAcyclic.rank_lt (acyclic : catalog.IsAcyclic) {outer inner : String}
    (refers : catalog.RefersTo outer inner) : catalog.rank inner < catalog.rank outer := by
  obtain ⟨metric, found, _⟩ := id refers
  apply Finset.card_lt_card
  refine (Finset.ssubset_iff_of_subset fun other member => ?_).mpr ⟨outer, ?_, fun member => ?_⟩
  · obtain ⟨isMetric, later⟩ := Finset.mem_filter.mp member
    exact Finset.mem_filter.mpr ⟨isMetric, .head refers later⟩
  · exact Finset.mem_filter.mpr ⟨mem_toFinset_of_metric? found, .refl⟩
  · exact acyclic outer (.head' refers (Finset.mem_filter.mp member).2)

end

/-- The least bound above the ranks of the metrics among items. -/
noncomputable def height (catalog : Catalog) (items : List GroupByItem) : Nat :=
  items.toFinset.sup fun item => if item.kind = .metric then catalog.rank item.name + 1 else 0

variable {catalog : Catalog}

/-- The height of items bounds exactly the ranks of the metrics among them. -/
theorem height_le_iff {items : List GroupByItem} {bound : Nat} :
    catalog.height items ≤ bound ↔
      ∀ item ∈ items, item.kind = .metric → catalog.rank item.name < bound := by
  rw [height, Finset.sup_le_iff]
  simp only [List.mem_toFinset]
  refine forall₂_congr fun item _ => ?_
  by_cases kind : item.kind = .metric
  · simp only [kind, if_true, forall_const]
    exact Nat.succ_le_iff
  · simp [kind]

/-- The height of a list of items is above the rank of each metric item in it. -/
theorem rank_lt_height (catalog : Catalog) {items : List GroupByItem} {item : GroupByItem}
    (member : item ∈ items) (kind : item.kind = .metric) :
    catalog.rank item.name < catalog.height items :=
  height_le_iff.mp (Nat.le_refl _) item member kind

/-- Heights are bounded by the number of metrics in the manifest. -/
theorem height_le (catalog : Catalog) (items : List GroupByItem) :
    catalog.height items ≤ catalog.manifest.metrics.length + 1 :=
  height_le_iff.mpr fun item _ _ => Nat.lt_succ_of_le (catalog.rank_le item.name)

end Catalog

namespace Dataflow

namespace PlanCall

/-- A number that falls with each call of a metric, and never rises. -/
noncomputable def rank (catalog : Catalog) : PlanCall → Nat
  | .metric task =>
    catalog.rank task.output.metric + (catalog.manifest.metrics.length + 1) *
      max (catalog.rank task.output.metric)
        (catalog.height (neededItems task.groupBy task.conditions))
  | .measure _ groupBy conditions _ =>
    (catalog.manifest.metrics.length + 1) * catalog.height (neededItems groupBy conditions)
  | .complete _ _ needed _ => (catalog.manifest.metrics.length + 1) * catalog.height needed

/-- A number that falls with each call from a measure or a model to a model. -/
def links : PlanCall → Nat
  | .metric _ => 0
  | .measure _ groupBy conditions _ => mostLinks (neededItems groupBy conditions) + 1
  | .complete _ _ needed _ => mostLinks needed

/-- The measure of a call, by the metrics before it and then by the links before it. -/
noncomputable def weight (catalog : Catalog) (call : PlanCall) : Nat ×ₗ Nat :=
  toLex (call.rank catalog, call.links)

end PlanCall

section

variable {catalog : Catalog} {lookup : FilterLookup}

/-! ## Weights of calls -/

/-- The metrics that the filters of a metric read have a lower rank. -/
theorem rank_lt_of_conditionsAt (acyclic : catalog.IsAcyclic) (named : lookup.IsNamed)
    {name : String} {metric : Metric} (found : catalog.metric? name = some metric)
    {location : FilterLocation} {filter : Option (List String)}
    (declared : ∀ template ∈ filter.getD [], template ∈ LocatedFilters.ofMetric metric ++
      metric.inputMetrics.flatMap fun input => input.filter.getD [])
    {conditions : List Condition} (ok : conditionsAt lookup location filter = .ok conditions) :
    ∀ condition ∈ conditions, ∀ item ∈ condition.items, item.kind = .metric →
      catalog.rank item.name < catalog.rank name := by
  intro condition member item inside kind
  obtain ⟨template, among, refers⟩ := exists_template_of_conditionsAt named ok member inside kind
  refine acyclic.rank_lt ⟨metric, found, List.mem_append_right _ ?_⟩
  exact List.mem_flatMap.mpr ⟨template, declared template among, refers⟩

/-- Further conditions do not raise the height of what is needed above a bound that it has. -/
theorem height_neededItems_append_le {groupBy : List GroupByItem}
    {conditions further : List Condition} {bound : Nat}
    (before : catalog.height (neededItems groupBy conditions) ≤ bound)
    (lower : ∀ condition ∈ further, ∀ item ∈ condition.items, item.kind = .metric →
      catalog.rank item.name < bound) :
    catalog.height (neededItems groupBy (conditions ++ further)) ≤ bound := by
  refine Catalog.height_le_iff.mpr fun item member kind => ?_
  rcases mem_neededItems.mp member with grouped | ⟨condition, among, inside⟩
  · exact Catalog.height_le_iff.mp before item (mem_neededItems.mpr (.inl grouped)) kind
  · rcases List.mem_append.mp among with among | among
    · exact Catalog.height_le_iff.mp before item
        (mem_neededItems.mpr (.inr ⟨condition, among, inside⟩)) kind
    · exact lower condition among item inside kind

private theorem mostLinks_lt_of_mem_linkGroups {model : SemanticModel} {needed : List GroupByItem}
    {group : LinkGroup} (member : group ∈ linkGroups (missing model needed)) :
    mostLinks group.items < mostLinks needed := by
  have shorter : ∀ item ∈ group.items, item.links.length < mostLinks needed := by
    intro item among
    obtain ⟨outer, _⟩ := behind_mem_of_mem_linkGroups member among
    have bound := mostLinks_le_iff.mp (Nat.le_refl _) _ (mem_missing.mp outer).1
    rw [GroupByItem.links_behind, List.length_cons] at bound
    exact bound
  obtain ⟨item, among⟩ := exists_mem_of_mem_linkGroups member
  have bound : mostLinks group.items ≤ mostLinks needed - 1 :=
    mostLinks_le_iff.mpr fun item among => Nat.le_sub_one_of_lt (shorter item among)
  have some := shorter item among
  omega

private theorem height_of_mem_linkGroups {items : List GroupByItem} {group : LinkGroup}
    (member : group ∈ linkGroups items) : catalog.height group.items = 0 :=
  Nat.le_zero.mp <| Catalog.height_le_iff.mpr fun _ among kind =>
    ((behind_mem_of_mem_linkGroups member among).2 kind).elim

private theorem rank_subqueryTask (catalog : Catalog) (name entity : String) :
    (PlanCall.metric (subqueryTask name entity)).rank catalog =
      catalog.rank name + (catalog.manifest.metrics.length + 1) * catalog.rank name := by
  have none : catalog.height (neededItems [.entity entity []] []) ≤ 0 := by
    refine Catalog.height_le_iff.mpr fun item member kind => ?_
    rw [List.mem_singleton.mp member] at kind
    exact nomatch kind
  simp only [PlanCall.rank, subqueryTask]
  rw [Nat.max_eq_left (none.trans (Nat.zero_le _))]

variable (acyclic : catalog.IsAcyclic) (named : lookup.IsNamed)

include acyclic named

/-- A metric calls for what has a lower rank. -/
theorem PlanCall.Makes.rank_lt {task : MetricTask} {inner : PlanCall}
    (makes : (PlanCall.metric task).Makes catalog lookup inner) :
    inner.rank catalog < (PlanCall.metric task).rank catalog := by
  have higher : ∀ further : List Condition, (∀ condition ∈ further, ∀ item ∈ condition.items,
      item.kind = .metric → catalog.rank item.name < catalog.rank task.output.metric) →
      catalog.height (neededItems task.groupBy (task.conditions ++ further)) ≤
        max (catalog.rank task.output.metric)
          (catalog.height (neededItems task.groupBy task.conditions)) := by
    intro further lower
    refine height_neededItems_append_le (Nat.le_max_right _ _) ?_
    exact fun condition among item inside kind =>
      (lower condition among item inside kind).trans_le (Nat.le_max_left _ _)
  cases makes with
  | @measure _ found own ofInput input isMetric ownRead among inputRead =>
      have lower := List.forall_mem_append.mpr ⟨
        rank_lt_of_conditionsAt acyclic named isMetric
          (fun template declared => List.mem_append_left _
            (LocatedFilters.mem_ofMetric.mpr (.inr declared))) ownRead,
        rank_lt_of_conditionsAt acyclic named isMetric
          (fun template declared => List.mem_append_left _
            (LocatedFilters.mem_ofMetric.mpr (.inl ⟨input, among, declared⟩))) inputRead⟩
      have known := Catalog.rank_pos isMetric
      have bound := Nat.mul_le_mul_left (catalog.manifest.metrics.length + 1)
        (higher (own ++ ofInput) lower)
      rw [← List.append_assoc] at bound
      simp only [PlanCall.rank]
      omega
  | @input _ found own ofConsumer input output isMetric ownRead among inputRead =>
      have listed := (List.of_mem_zip among).1
      have sameName := (List.forall₂_iff_zip.mp (inputOutputs_alike found)).2 among
      have lower := List.forall_mem_append.mpr ⟨
        rank_lt_of_conditionsAt acyclic named isMetric
          (fun template declared => List.mem_append_left _
            (LocatedFilters.mem_ofMetric.mpr (.inr declared))) ownRead,
        rank_lt_of_conditionsAt acyclic named isMetric
          (fun template declared => List.mem_append_right _
            (List.mem_flatMap.mpr ⟨input, listed, declared⟩)) inputRead⟩
      have fewer : catalog.rank output.metric < catalog.rank task.output.metric := by
        rw [sameName]
        exact acyclic.rank_lt
          ⟨found, isMetric, List.mem_append_left _ (List.mem_map_of_mem listed)⟩
      have further := higher (own ++ ofConsumer) lower
      rw [← List.append_assoc] at further
      have bound := Nat.mul_le_mul_left (catalog.manifest.metrics.length + 1)
        (Nat.max_le.mpr ⟨fewer.le.trans (Nat.le_max_left _ _), further⟩)
      simp only [PlanCall.rank]
      omega

/-- A call that is made has a lower rank, or it has no higher rank and fewer links. -/
theorem PlanCall.Makes.decreases {outer inner : PlanCall}
    (makes : outer.Makes catalog lookup inner) :
    inner.rank catalog < outer.rank catalog ∨
      inner.rank catalog ≤ outer.rank catalog ∧ inner.links < outer.links := by
  cases outer with
  | metric task => exact .inl (makes.rank_lt acyclic named)
  | measure name groupBy conditions offset =>
      cases makes with
      | model isMeasure => exact .inr ⟨Nat.le_refl _, Nat.lt_succ_self _⟩
  | complete plan model needed visited =>
      cases makes with
      | @subquery _ _ _ _ item entity lacking kind =>
          left
          have lower := catalog.rank_lt_height (mem_missing.mp lacking).1 kind
          have bound := Nat.mul_le_mul_left (catalog.manifest.metrics.length + 1) lower
          have few := catalog.rank_le item.name
          rw [Nat.mul_succ] at bound
          rw [rank_subqueryTask]
          simp only [PlanCall.rank]
          omega
      | target member chosen =>
          refine .inr ⟨?_, mostLinks_lt_of_mem_linkGroups member⟩
          simp only [PlanCall.rank, height_of_mem_linkGroups member, Nat.mul_zero]
          exact Nat.zero_le _

/-- A call that is made in turn ranks no higher. -/
theorem PlanCall.Makes.rank_le {outer inner : PlanCall}
    (makes : outer.Makes catalog lookup inner) : inner.rank catalog ≤ outer.rank catalog := by
  rcases makes.decreases acyclic named with lower | ⟨lower, _⟩
  · exact lower.le
  · exact lower

/-- A call that is made in turn weighs less. -/
theorem PlanCall.Makes.weight_lt {outer inner : PlanCall}
    (makes : outer.Makes catalog lookup inner) : inner.weight catalog < outer.weight catalog := by
  apply Prod.Lex.toLex_lt_toLex.mpr
  rcases makes.decreases acyclic named with lower | ⟨lower, shorter⟩
  · exact .inl lower
  · rcases Nat.lt_or_eq_of_le lower with lower | same
    · exact .inl lower
    · exact .inr ⟨same, shorter⟩

/-! ## The end of planning -/

/-- Without bounds a call ends with what comes of it at any depth above its rank. -/
theorem ends_answer {call : PlanCall} {depth : Nat} (deep : call.rank catalog < depth) :
    Ends (fun levels => PlanCall.run catalog lookup levels call)
      (PlanCall.answer catalog (rememberedConditionsAt lookup) depth call)
      (PlanCall.answer catalog (conditionsAt lookup) depth call) := by
  induction call using (InvImage.wf (PlanCall.weight catalog) wellFounded_lt).induction
    generalizing depth with
  | _ call ih =>
      have lighter : ∀ inner, call.Makes catalog lookup inner →
          ∀ depth, inner.rank catalog < depth →
          Ends (fun levels => PlanCall.run catalog lookup levels inner) _ _ :=
        fun inner makes depth deep => ih inner (makes.weight_lt acyclic named) deep
      have low : ∀ inner, call.Makes catalog lookup inner → inner.rank catalog < depth :=
        fun inner makes => (makes.rank_le acyclic named).trans_lt deep
      apply Ends.of_succ
      cases call with
      | metric task =>
          cases depth with
          | zero => exact absurd deep (Nat.not_lt_zero _)
          | succ depth =>
              simp only [answer_metric]
              refine ends_step fun inner makes => lighter inner makes depth ?_
              exact (makes.rank_lt acyclic named).trans_le (Nat.le_of_lt_succ deep)
      | measure name groupBy conditions offset =>
          simp only [answer_measure]
          exact ends_step fun inner makes => lighter inner makes depth (low inner makes)
      | complete plan model needed visited =>
          simp only [answer_complete]
          exact ends_step fun inner makes => lighter inner makes depth (low inner makes)

end

private theorem ends_runQuery {catalog : Catalog} (acyclic : catalog.IsAcyclic)
    {query : ResolvedQuery}
    (named : query.lookup.IsNamed) :
    Ends (PlanCall.runQuery catalog query) (ofQueryRemembering catalog query)
      (ofQuery catalog query) := by
  unfold PlanCall.runQuery ofQueryRemembering ofQuery
  rw [planQuery_eq_stepQuery, planQuery_eq_stepQuery]
  refine ends_stepQuery fun output _ => ends_answer acyclic named ?_
  have few := catalog.rank_le output.metric
  have low := Nat.mul_le_mul_left (catalog.manifest.metrics.length + 1)
    (Nat.max_le.mpr ⟨few.trans (Nat.le_add_right _ 1),
      catalog.height_le (neededItems query.groupBy query.condition.toList)⟩)
  rw [Catalog.metricDepth, Nat.mul_succ]
  simp only [PlanCall.rank]
  omega

end Dataflow

namespace Request

variable {catalog : Catalog}

private theorem resolve_isNamed (request : Request) (settings : Settings) :
    ReferenceMemo.Ensures (request.resolve catalog settings).run fun result =>
      ∀ query, result = .ok query → query.lookup.IsNamed := by
  apply (resolve_resolves request settings).imp
  rintro _ resolves query rfl
  cases resolves with
  | resolved _ means => exact means.collects.gathers.isNamed

/-- If no metric refers back to itself, then the calls that planning a resolved request makes get
lighter, whatever items are asked for and however the models are linked. So planning without bounds
ends with any memo, with the plan or the error that the planner gives. -/
theorem planning_ends (acyclic : catalog.IsAcyclic) (settings : Settings) (request : Request)
    {memo : ReferenceMemo} (filled : memo.Filled) {query : ResolvedQuery}
    (resolved : ((request.resolve catalog settings).run.run memo).1 = .ok query) :
    (∀ outer inner : Dataflow.PlanCall, outer.Makes catalog query.lookup inner →
      inner.weight catalog < outer.weight catalog) ∧
    Dataflow.Ends (Dataflow.PlanCall.runQuery catalog query)
      (Dataflow.ofQueryRemembering catalog query) (Dataflow.ofQuery catalog query) := by
  have named := (resolve_isNamed request settings memo filled).1 query resolved
  exact ⟨fun _ _ makes => makes.weight_lt acyclic named,
    Dataflow.ends_runQuery acyclic named⟩

/-- Planning the yield of customers who visit often ends, although it comes back from the customers
to the metric of their visits. -/
theorem planning_ends_yield : shopCatalog.IsAcyclic ∧ ∃ query,
    (((loyalRequest "yield").resolve shopCatalog .standard).run.run (.empty 4)).1 = .ok query ∧
    (∀ outer inner : Dataflow.PlanCall, outer.Makes shopCatalog query.lookup inner →
      inner.weight shopCatalog < outer.weight shopCatalog) ∧
    Dataflow.Ends (Dataflow.PlanCall.runQuery shopCatalog query)
      (Dataflow.ofQueryRemembering shopCatalog query) (Dataflow.ofQuery shopCatalog query) := by
  obtain ⟨query, _, resolved, _⟩ := plans_iff_of_resolve_yield
  exact ⟨isAcyclic_shopCatalog, query, resolved,
    planning_ends isAcyclic_shopCatalog .standard (loyalRequest "yield") (.empty 4) resolved⟩

end Request

end MetricQuery

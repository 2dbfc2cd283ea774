import MetricQuery.Proofs.Dataflow.Aggregations

/-! # Metrics joined as items

For each metric among the items that a measure needs, the plan of the measure joins the subquery for
this metric (`Dataflow.exists_joinsMetric_of_ofMeasure`), and whatever is joined anywhere in a plan
of a metric is the subquery for an item that is grouped by or filtered on
(`Dataflow.exists_subquery_of_joinsMetric`). A subquery computes its metric under the filters of
this metric alone (`Dataflow.isSubquery_of_isPlannedFor`).
-/

namespace MetricQuery.Dataflow

/-- Whether some part of a plan, also within metrics that are joined, joins an input that computes a
metric. -/
inductive JoinsMetric : (plan input : Dataflow) → Prop where
  | here {entities : List String} {inputs : List Dataflow} {input : Dataflow}
      (among : input ∈ inputs) (computes : input.computes = true) :
      JoinsMetric (node (.join entities) inputs) input
  | inside {step : Step} {inputs : List Dataflow} {plan input : Dataflow} (among : plan ∈ inputs)
      (joins : JoinsMetric plan input) : JoinsMetric (node step inputs) input

namespace JoinsMetric

variable {plan input : Dataflow}

/-- A further step keeps the metrics that are joined. -/
theorem andThen (joins : plan.JoinsMetric input) (step : Step) :
    (plan.andThen step).JoinsMetric input := .inside List.mem_cons_self joins

/-- A step that does not join adds no metric. -/
theorem of_andThen {step : Step} (joins : (plan.andThen step).JoinsMetric input)
    (other : step.isJoin = false) : plan.JoinsMetric input := by
  cases joins with
  | here => exact nomatch other
  | inside among joins => exact List.mem_singleton.mp among ▸ joins

/-- What a part joins, the plan joins. -/
theorem of_mem_ownParts {part : Dataflow} (joins : part.JoinsMetric input)
    (member : part ∈ plan.ownParts) : plan.JoinsMetric input := by
  induction plan using inductionOn with
  | node step inputs ih =>
      rw [ownParts, List.mem_append, List.mem_singleton] at member
      rcases member with below | rfl
      · have inside : ∃ input ∈ inputs, part ∈ input.ownParts := by
          cases joined : step.isJoin with
          | true =>
              rw [joined] at below
              obtain ⟨other, among, _, inside⟩ := mem_ownPartsOf_true.mp below
              exact ⟨other, among, inside⟩
          | false =>
              rw [joined, ownPartsOf_false] at below
              exact List.mem_flatMap.mp below
        obtain ⟨other, among, inside⟩ := inside
        exact .inside among (ih other among inside)
      · exact joins

/-- Conditions keep the metrics that are joined. -/
theorem constrained (joins : plan.JoinsMetric input) (conditions : List Condition) :
    (Dataflow.constrained plan conditions).JoinsMetric input := by
  unfold Dataflow.constrained
  split
  · exact joins
  · exact joins.andThen _

private theorem of_constrained {conditions : List Condition}
    (joins : (Dataflow.constrained plan conditions).JoinsMetric input) :
    plan.JoinsMetric input := by
  unfold Dataflow.constrained at joins
  split at joins
  · exact joins
  · exact joins.of_andThen rfl

/-- What plans brought together join, one of them joins. -/
theorem of_combined {plans : List Dataflow}
    (joins : (Dataflow.combined plans).JoinsMetric input) :
    ∃ plan ∈ plans, plan.JoinsMetric input := by
  have several : (node .combine plans).JoinsMetric input →
      ∃ plan ∈ plans, plan.JoinsMetric input := by
    intro joins
    cases joins with
    | inside among joins => exact ⟨_, among, joins⟩
  match plans with
  | [plan] => exact ⟨plan, List.mem_cons_self, joins⟩
  | [] => exact several joins
  | _ :: _ :: _ => exact several joins

/-- What one of several plans joins, they join together. -/
theorem combined {plans : List Dataflow} (joins : plan.JoinsMetric input) (among : plan ∈ plans) :
    (Dataflow.combined plans).JoinsMetric input :=
  match plans with
  | [_] => List.mem_singleton.mp among ▸ joins
  | _ :: _ :: _ => .inside among joins

/-- An input of a join that computes a metric is a metric that is joined. -/
theorem joinTo {inputs : List JoinedInput} {joined : JoinedInput} (among : joined ∈ inputs)
    (computes : joined.plan.computes = true) : (joinTo plan inputs).JoinsMetric joined.plan := by
  have some : inputs.isEmpty = false :=
    List.isEmpty_eq_false_iff_exists_mem.mpr ⟨joined, among⟩
  rw [Dataflow.joinTo, some]
  exact .here (List.mem_cons_of_mem _ (List.mem_map_of_mem among)) computes

/-- What is joined to a plan is an input itself or is joined within an input. -/
theorem of_joinTo {inputs : List JoinedInput}
    (joins : (Dataflow.joinTo plan inputs).JoinsMetric input)
    (other : plan.computes = false) : plan.JoinsMetric input ∨ ∃ joined ∈ inputs,
      joined.plan = input ∧ input.computes = true ∨ joined.plan.JoinsMetric input := by
  unfold Dataflow.joinTo at joins
  split at joins
  · exact .inl joins
  · cases joins with
    | here among computes =>
        rcases List.mem_cons.mp among with rfl | among
        · rw [other] at computes
          exact nomatch computes
        · obtain ⟨joined, present, rfl⟩ := List.mem_map.mp among
          exact .inr ⟨joined, present, .inl ⟨rfl, computes⟩⟩
    | inside among joins =>
        rcases List.mem_cons.mp among with rfl | among
        · exact .inl joins
        · obtain ⟨joined, present, rfl⟩ := List.mem_map.mp among
          exact .inr ⟨joined, present, .inr joins⟩

end JoinsMetric

/-- Reading a model joins no metric. -/
theorem not_joinsMetric_readModel (model : SemanticModel) (input : Dataflow) :
    ¬ (readModel model).JoinsMetric input := by
  intro joins
  cases joins with
  | inside among => exact nomatch among

private theorem not_joinsMetric_readMeasure (model : SemanticModel) (measure : Measure)
    (offset : Option OffsetWindow) (input : Dataflow) :
    ¬ (readMeasure model measure offset).JoinsMetric input := by
  unfold readMeasure
  split
  · exact not_joinsMetric_readModel model input
  · exact fun joins => not_joinsMetric_readModel model input (joins.of_andThen rfl)

/-! ## Subqueries of measures -/

/-- Whether a plan is the subquery for some item that is a metric. -/
def IsPlannedFor (subquery : SubqueryPlanner) (item : GroupByItem) (plan : Dataflow) : Prop :=
  item.kind = .metric ∧ ∃ entity rest,
    item.subqueryLinks.getD [] = entity :: rest ∧ subquery item.name entity = .ok plan

section

variable {catalog : Catalog} {subquery : SubqueryPlanner} {items : List GroupByItem}
  {input : Dataflow}

private theorem exists_isPlannedFor {subqueries : List JoinedInput} {joined : JoinedInput}
    (ok : subqueriesFor subquery items = .ok subqueries) (among : joined ∈ subqueries) :
    ∃ item ∈ items, IsPlannedFor subquery item joined.plan := by
  obtain ⟨item, member, rest, links, ok⟩ := exists_left_of_forall₂ (of_subqueriesFor ok) among
  obtain ⟨member, kind⟩ := List.mem_filter.mp member
  exact ⟨item, member, beq_iff_eq.mp kind, joined.entity, rest, links, ok⟩

variable (computes : ∀ name entity plan, subquery name entity = .ok plan → plan.computes = true)

include computes in
/-- To complete a model the metrics among the items are joined. -/
theorem exists_joinsMetric_of_provide {hops : Nat} {plan result : Dataflow}
    {model : SemanticModel} {visited : List String} (within : IsWithin hops model items)
    (ok : provide catalog subquery hops plan model items visited = .ok result)
    {item : GroupByItem} (needed : item ∈ items) (kind : item.kind = .metric) :
    ∃ input, IsPlannedFor subquery item input ∧ result.JoinsMetric input := by
  obtain ⟨subqueries, joined, planned, _, rfl⟩ := (provide_eq_ok within).mp ok
  have other : isOwn model item = false :=
    Bool.not_eq_true _ ▸ fun own => kind_ne_metric_of_isOwn own kind
  have member : item ∈ (missing model items).filter (·.kind == .metric) :=
    List.mem_filter.mpr ⟨mem_missing.mpr ⟨needed, other⟩, beq_iff_eq.mpr kind⟩
  obtain ⟨input, among, rest, links, ok⟩ :=
    exists_right_of_forall₂ (of_subqueriesFor planned) member
  exact ⟨input.plan, ⟨kind, input.entity, rest, links, ok⟩,
    .joinTo (List.mem_append_left _ among) (computes _ _ _ ok)⟩

/-- To complete a model no metrics are joined but those among the items. -/
theorem of_joinsMetric_of_provide {hops : Nat} {plan result : Dataflow} {model : SemanticModel}
    {visited : List String} (within : IsWithin hops model items) (other : plan.computes = false)
    (ok : provide catalog subquery hops plan model items visited = .ok result)
    (joins : result.JoinsMetric input) : plan.JoinsMetric input ∨ ∃ item ∈ items, ∃ part,
      IsPlannedFor subquery item part ∧ (part = input ∨ part.JoinsMetric input) := by
  induction hops using Nat.strong_induction_on generalizing plan result model items visited with
  | _ hops ih =>
      obtain ⟨subqueries, joined, planned, served, rfl⟩ := (provide_eq_ok within).mp ok
      rcases joins.of_joinTo other with before | ⟨above, among, whole⟩
      · exact .inl before
      · refine .inr ?_
        rcases List.mem_append.mp among with isMetric | isModel
        · obtain ⟨item, lacking, isPlanned⟩ := exists_isPlannedFor planned isMetric
          exact ⟨item, (mem_missing.mp lacking).1, above.plan, isPlanned, whole.imp_left And.left⟩
        · obtain ⟨group, member, target, right, _, ok, rfl⟩ := exists_left_of_forall₂ served isModel
          have fewer : hops - 1 < hops := by
            rcases Nat.eq_zero_or_pos hops with rfl | some
            · exact (List.not_mem_nil (within.linkGroups_eq_nil ▸ member)).elim
            · omega
          have inside : right.JoinsMetric input := by
            rcases whole with ⟨rfl, last⟩ | joins
            · exact nomatch last
            · exact joins.of_andThen rfl
          rcases ih _ fewer (within.behind member) rfl ok inside with absent | ⟨item, behind, found⟩
          · exact (not_joinsMetric_readModel target input absent).elim
          · obtain ⟨part, isPlanned, _⟩ := found
            exact ((behind_mem_of_mem_linkGroups member behind).2 isPlanned.1).elim

include computes in
/-- A measure is joined with the metrics among the items that it needs. -/
theorem exists_joinsMetric_of_ofMeasure {name : String} {groupBy : List GroupByItem}
    {conditions : List Condition} {offset : Option OffsetWindow} {plan : Dataflow}
    (ok : ofMeasure catalog subquery name groupBy conditions offset = .ok plan)
    {item : GroupByItem} (needed : item ∈ neededItems groupBy conditions)
    (kind : item.kind = .metric) :
    ∃ input, IsPlannedFor subquery item input ∧ plan.JoinsMetric input := by
  obtain ⟨model, measure, source, _, provided, _, rfl⟩ := of_ofMeasure computes ok
  obtain ⟨input, isPlanned, joins⟩ := exists_joinsMetric_of_provide computes
    (isWithin_mostLinks model _) provided needed kind
  exact ⟨input, isPlanned, ((joins.constrained conditions).andThen _).andThen _⟩

include computes in
/-- A measure is joined with no metrics but those among the items that it needs. -/
theorem of_joinsMetric_of_ofMeasure {name : String} {groupBy : List GroupByItem}
    {conditions : List Condition} {offset : Option OffsetWindow} {plan : Dataflow}
    (ok : ofMeasure catalog subquery name groupBy conditions offset = .ok plan)
    (joins : plan.JoinsMetric input) : ∃ item ∈ neededItems groupBy conditions, ∃ part,
      IsPlannedFor subquery item part ∧ (part = input ∨ part.JoinsMetric input) := by
  obtain ⟨model, measure, source, _, provided, _, rfl⟩ := of_ofMeasure computes ok
  have inside := ((joins.of_andThen rfl).of_andThen rfl).of_constrained
  have start := (prepares_readMeasure model measure offset).computes_eq_false
  have within := isWithin_mostLinks model (neededItems groupBy conditions)
  apply (of_joinsMetric_of_provide within start provided inside).resolve_left
  exact not_joinsMetric_readMeasure model measure offset input

end

/-! ## Subqueries of metrics -/

variable {catalog : Catalog} {lookup : FilterLookup} {depth : Nat} {input : Dataflow}

/-- Further conditions ask for nothing but what filters mean. -/
theorem asked_of_conditionsAt {asked : GroupByItem → Prop} {location : FilterLocation}
    {filter : Option (List String)} {before further : List Condition}
    (meant : ∀ location item, lookup.Means location item → asked item)
    (filtered : ∀ condition ∈ before, ∀ item ∈ condition.items, asked item)
    (ok : conditionsAt lookup location filter = .ok further) :
    ∀ condition ∈ before ++ further, ∀ item ∈ condition.items, asked item := by
  refine List.forall_mem_append.mpr ⟨filtered, ?_⟩
  intro condition member item inside
  exact meant location item (means_of_conditionsAt ok condition member item inside)

/-- No metrics are joined but those among the items that are grouped by or filtered on. -/
theorem exists_subquery_of_joinsMetric {asked : GroupByItem → Prop} {task : MetricTask}
    {plan : Dataflow} (meant : ∀ location item, lookup.Means location item → asked item)
    (grouped : ∀ item ∈ task.groupBy, item.kind = .metric → asked item)
    (filtered : ∀ condition ∈ task.conditions, ∀ item ∈ condition.items, asked item)
    (ok : ofMetric catalog lookup depth task = .ok plan) (joins : plan.JoinsMetric input) :
    ∃ item depth, asked item ∧ IsPlannedFor (subqueryAt catalog lookup depth) item input := by
  induction depth generalizing task plan with
  | zero => exact nomatch ok
  | succ depth ih =>
      obtain ⟨_, metric, own, ⟨⟩, _, ownRead, planned⟩ := of_ofMetric ok
      have ownAsked := asked_of_conditionsAt meant filtered ownRead
      cases planned with
      | @measure measured ofInput part plan inputs inputRead aggregated accumulated =>
          have inside : part.JoinsMetric input := by
            rcases accumulated with rfl | ⟨_, _, _, rfl⟩
            · exact joins.of_andThen rfl
            · exact (joins.of_andThen rfl).of_andThen rfl
          obtain ⟨item, needed, whole, isPlanned, same⟩ := of_joinsMetric_of_ofMeasure
            computes_of_subqueryAt aggregated inside
          have isAsked : asked item := by
            rcases mem_neededItems.mp needed with member | ⟨condition, member, inside⟩
            · exact grouped item member isPlanned.1
            · have allAsked := asked_of_conditionsAt meant ownAsked inputRead
              exact allAsked condition member item inside
          rcases same with rfl | deeper
          · exact ⟨item, depth, isAsked, isPlanned⟩
          · obtain ⟨_, entity, _, _, ok⟩ := isPlanned
            refine ih (fun key member kind => ?_) ?_ ok deeper
            · rw [List.mem_singleton.mp member] at kind
              exact nomatch kind
            · exact fun _ absent => nomatch absent
      | metrics noMeasure inputs =>
          obtain ⟨part, among, inside⟩ := (joins.of_andThen rfl).of_combined
          obtain ⟨_, _, output, ofConsumer, _, read, ok⟩ := exists_left_of_forall₂ inputs among
          refine ih ?_ ?_ ok inside
          · exact grouped
          · exact asked_of_conditionsAt meant ownAsked read

/-- Whether a plan computes a metric per value of an entity, under the filters of the metric and of
its input measure and under nothing else. -/
inductive IsSubquery (catalog : Catalog) (lookup : FilterLookup) :
    GroupByItem → Dataflow → Prop where
  | intro {entity : String} {metric : Metric} {input : InputMeasure} {model : SemanticModel}
      {measure : Measure} {source filtered : Dataflow} {conditions : List Condition}
      (found : catalog.metric? metric.name = some metric)
      (measured : metric.inputMeasures = [input])
      (isMeasure : catalog.measure? input.name = some (model, measure))
      (renders : (Derivation.own metric input).Renders lookup conditions)
      (prepares : source.Prepares) (constrained : IsConstrained source conditions filtered) :
      IsSubquery catalog lookup (.metric metric.name [entity] [entity])
        (((filtered.andThen
          (.pass [.measure measure.name, .item (.entity entity [])])).andThen
            (.aggregate [⟨measure.name, measure.aggregation⟩])).andThen
              (.compute ⟨metric.name, none⟩ (.measure input.name)))

/-- The subquery that is planned for an offered metric computes it under its own filters alone. -/
theorem isSubquery_of_isPlannedFor (valid : catalog.manifest.IsValid) {model : SemanticModel}
    {measure : Measure} {item : GroupByItem}
    (offered : Element.Offered catalog.manifest model measure item)
    (isPlanned : IsPlannedFor (subqueryAt catalog lookup depth) item input) :
    IsSubquery catalog lookup item input := by
  obtain ⟨kind, _, _, links, ok⟩ := isPlanned
  obtain ⟨entity, metric, owner, _, known, simple, _, _, rfl⟩ := of_offered_metric offered kind
  obtain ⟨rfl, rfl⟩ := List.cons.inj links
  have found := Catalog.metric?_of_mem valid.metrics known
  obtain ⟨fewer, _, own, rfl, same, ownRead, _⟩ := of_ofMetric ok
  obtain ⟨⟩ := found.symm.trans same
  obtain ⟨measured, ofInput, single, inputRead⟩ :=
    exists_input_of_ofMetric found (.inl simple) ok
  rw [subqueryAt, ofMetric_of_measure found single ownRead inputRead] at ok
  obtain ⟨aggregated, isMeasure, ok⟩ := bind_eq_ok.mp ok
  simp only [simple, reduceCtorEq, ↓reduceIte] at ok
  obtain ⟨⟩ := ok
  obtain ⟨model, measure, source, foundMeasure, _, prepares, rfl⟩ :=
    of_ofMeasure computes_of_subqueryAt isMeasure
  have renders := List.rel_append (forall₂_of_conditionsAt ownRead)
    (forall₂_of_conditionsAt inputRead)
  exact .intro found single foundMeasure renders prepares (isConstrained_constrained source _)

end MetricQuery.Dataflow

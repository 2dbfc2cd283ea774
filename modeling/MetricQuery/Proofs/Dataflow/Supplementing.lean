import MetricQuery.Proofs.Dataflow.Legibility
import MetricQuery.Proofs.Selecting

/-! # Completing models by what they lack

A model is completed by what it lacks, so that a time dimension that it has itself never meets the
same one of another model, and what is reached through one entity comes from one plan
(`Dataflow.exists_supplements_of_provide`). Therefore the columns of every part of the plan of a
query are told by their names (`Dataflow.hasLegibleParts_of_ofQuery`).
-/

namespace MetricQuery

open Sql

namespace Dataflow

variable {catalog : Catalog} {plan : Dataflow}

/-! ## Completed models -/

/-- What is joined for a metric per value of an entity: it gives this entity and the metric. -/
structure IsPerValue (catalog : Catalog) (entity : String) (plan : Dataflow) : Prop where
  parts : HasLegibleParts catalog plan
  items : ∀ item, MayHold catalog plan (.item item) → item = .entity entity []
  metrics : ∀ output, MayHold catalog plan (.metric output) →
    output.metric ∈ catalog.manifest.metricNames

/-- A metric computed per value of an entity does not give a time. -/
theorem IsPerValue.not_givesTime {entity : String} (perValue : IsPerValue catalog entity plan) :
    ¬ GivesTime catalog plan := by
  rintro ⟨name, links, grain, part, held⟩
  cases perValue.items _ held

private theorem linkGroup_eq {items : List GroupByItem} {group other : LinkGroup}
    (among : group ∈ linkGroups items) (otherAmong : other ∈ linkGroups items)
    (same : group.entity = other.entity) : group = other := by
  have here := (mem_linkGroups.mp among).2
  have there := (mem_linkGroups.mp otherAmong).2
  rw [← same, ← here] at there
  cases group
  cases other
  cases same
  cases there
  rfl

/-- What a model lacks through one entity is served by one plan. -/
theorem Serves.eq_of_entity_eq {subquery : SubqueryPlanner} {hops : Nat} {model : SemanticModel}
    {items : List GroupByItem} {visited : List String} {group otherGroup : LinkGroup}
    {input other : JoinedInput} (among : group ∈ linkGroups items)
    (otherAmong : otherGroup ∈ linkGroups items)
    (serves : Serves catalog subquery hops model visited group input)
    (otherServes : Serves catalog subquery hops model visited otherGroup other)
    (same : input.entity = other.entity) : input = other := by
  obtain ⟨target, right, chosen, ok, rfl⟩ := serves
  obtain ⟨otherTarget, otherRight, otherChosen, otherOk, rfl⟩ := otherServes
  obtain rfl := linkGroup_eq among otherAmong same
  obtain rfl := Option.some.inj (chosen.symm.trans otherChosen)
  obtain rfl := Except.ok.inj (ok.symm.trans otherOk)
  rfl

section

variable (apart : catalog.manifest.LabelsApart)
  (distinct : (catalog.manifest.models.map SemanticModel.name).Nodup)

include distinct in
/-- What may be read of a model is its own. -/
theorem isOwn_of_mayHold_readModel {model : SemanticModel} (known : model ∈ catalog.manifest.models)
    {item : GroupByItem} (held : MayHold catalog (readModel model) (.item item)) :
    isOwn model item = true := isOwn_of_offersAlone (held.of_readModel distinct known)

include apart distinct in
/-- Reading a model has legible parts. -/
theorem hasLegibleParts_readModel {model : SemanticModel}
    (known : model ∈ catalog.manifest.models) : HasLegibleParts catalog (readModel model) :=
  hasLegibleParts_node_iff.mpr ⟨(legible_modelContents apart known).mono fun _ held =>
    held.of_readModel distinct known, List.forall_mem_nil _⟩

include apart distinct in
private theorem hasLegibleParts_readMeasure (agrees : catalog.manifest.AgreesOnTime)
    {model : SemanticModel} (known : model ∈ catalog.manifest.models) {measure : Measure}
    (own : measure ∈ model.measures) (offset : Option OffsetWindow) :
    HasLegibleParts catalog (readMeasure model measure offset) := by
  have parts := hasLegibleParts_readModel apart distinct known
  unfold readMeasure
  split
  · exact parts
  · rename_i time found
    refine parts.andThen ((legible_modelContents_with_time apart known
      (agrees model known measure own time found)).mono fun content held => ?_)
    exact held.of_addMetricTime.imp_left fun held => held.of_readModel distinct known

include distinct in
private theorem isOwn_of_mayHold_readMeasure {model : SemanticModel}
    (known : model ∈ catalog.manifest.models) {measure : Measure} {offset : Option OffsetWindow}
    {item : GroupByItem} (held : MayHold catalog (readMeasure model measure offset) (.item item)) :
    isOwn model item = true := by
  unfold readMeasure at held
  split at held
  · exact isOwn_of_mayHold_readModel distinct known held
  · rcases held.of_addMetricTime with held | ⟨grain, part, _, ⟨⟩⟩
    · exact isOwn_of_mayHold_readModel distinct known held
    · rfl

include apart distinct in
/-- A completed model is passed on through an entity with what another model lacks behind it. -/
theorem Supplements.of_missing {model target : SemanticModel} {items : List GroupByItem}
    {group : LinkGroup} {inputs : List JoinedInput}
    (isGroup : group ∈ linkGroups (missing model items))
    (known : target ∈ catalog.manifest.models)
    (each : ∀ input ∈ inputs, Supplements catalog target input)
    (single : ∀ input ∈ inputs, ∀ other ∈ inputs, input.entity = other.entity →
      GivesTime catalog input.plan → GivesTime catalog other.plan → input.plan = other.plan) :
    Supplements catalog model ⟨group.entity,
      (joinTo (readModel target) inputs).andThen (.pass (passedThrough group))⟩ := by
  have parts := hasLegibleParts_readModel apart distinct known
  have legible := isLegible_joinTo each parts.isLegible
    (fun _ => isOwn_of_mayHold_readModel distinct known) single
  refine ⟨(hasLegibleParts_joinTo each parts legible).narrow rfl, fun item held => ?_,
    fun output held => ?_⟩
  · rcases mem_passedThrough.mp held.mem_of_pass with same | ⟨_, inside, ⟨⟩⟩
    · exact .inl (ColumnContent.item.inj same)
    · obtain ⟨lacking, kind⟩ := behind_mem_of_mem_linkGroups isGroup inside
      exact .inr ⟨kind, (mem_missing.mp lacking).2⟩
  · rcases mem_passedThrough.mp held.mem_of_pass with same | ⟨_, _, same⟩
    · cases same
    · cases same

variable {subquery : SubqueryPlanner}
  (subqueries : ∀ name entity plan, subquery name entity = .ok plan →
    IsPerValue catalog entity plan)

include apart distinct subqueries

/-- A model is completed by what it lacks, each time through one entity from one plan. -/
theorem exists_supplements_of_provide {hops : Nat} {plan result : Dataflow} {model : SemanticModel}
    {items : List GroupByItem} {visited : List String} (within : IsWithin hops model items)
    (ok : provide catalog subquery hops plan model items visited = .ok result) :
    ∃ inputs, result = joinTo plan inputs ∧ (∀ input ∈ inputs, Supplements catalog model input) ∧
      ∀ input ∈ inputs, ∀ other ∈ inputs, input.entity = other.entity →
        GivesTime catalog input.plan → GivesTime catalog other.plan →
        input.plan = other.plan := by
  induction hops using Nat.strong_induction_on generalizing plan result model items visited with
  | _ hops ih =>
      obtain ⟨metrics, joined, planned, served, rfl⟩ := (provide_eq_ok within).mp ok
      have perValue : ∀ input ∈ metrics, IsPerValue catalog input.entity input.plan := by
        intro input among
        obtain ⟨item, _, _, _, ok⟩ := exists_left_of_forall₂ (of_subqueriesFor planned) among
        exact subqueries _ _ _ ok
      refine ⟨metrics ++ joined, rfl, fun input among => ?_, fun input among other otherAmong => ?_⟩
      · rcases List.mem_append.mp among with isMetric | isModel
        · obtain ⟨parts, items, outputs⟩ := perValue input isMetric
          exact ⟨parts, fun item held => .inl (items item held), outputs⟩
        · obtain ⟨group, isGroup, target, right, chosen, ok, rfl⟩ :=
            exists_left_of_forall₂ served isModel
          obtain ⟨_, known, _⟩ := of_joinTarget? chosen
          -- Something is lacking behind an entity, so that there is a hop left to take.
          have fewer : hops - 1 < hops := by
            rcases Nat.eq_zero_or_pos hops with rfl | some
            · exact (List.not_mem_nil (within.linkGroups_eq_nil ▸ isGroup)).elim
            · omega
          obtain ⟨inputs, rfl, each, single⟩ := ih _ fewer (within.behind isGroup) ok
          exact .of_missing apart distinct isGroup known each single
      · intro entity gives otherGives
        rcases List.mem_append.mp among with isMetric | isModel
        · exact ((perValue input isMetric).not_givesTime gives).elim
        · rcases List.mem_append.mp otherAmong with isMetric | otherIsModel
          · exact ((perValue other isMetric).not_givesTime otherGives).elim
          · obtain ⟨group, isGroup, serves⟩ := exists_left_of_forall₂ served isModel
            obtain ⟨another, otherIsGroup, otherServes⟩ :=
              exists_left_of_forall₂ served otherIsModel
            rw [serves.eq_of_entity_eq isGroup otherIsGroup otherServes entity]

private theorem hasLegibleParts_of_ofMeasure (agrees : catalog.manifest.AgreesOnTime)
    {name : String}
    {groupBy : List GroupByItem} {conditions : List Condition} {offset : Option OffsetWindow}
    (computes : ∀ name entity plan, subquery name entity = .ok plan → plan.computes = true)
    (ok : ofMeasure catalog subquery name groupBy conditions offset = .ok plan) :
    HasLegibleParts catalog plan := by
  obtain ⟨model, measure, source, found, provided, _, rfl⟩ := of_ofMeasure computes ok
  obtain ⟨known, own, _⟩ := Catalog.of_measure? found
  obtain ⟨inputs, rfl, each, single⟩ := exists_supplements_of_provide apart distinct subqueries
    (isWithin_mostLinks model _) provided
  have parts := hasLegibleParts_readMeasure apart distinct agrees known own offset
  have legible := isLegible_joinTo each parts.isLegible
    (fun _ => isOwn_of_mayHold_readMeasure distinct known) single
  exact (((hasLegibleParts_joinTo each parts legible).constrained conditions).narrow rfl).narrow rfl

end

/-! ## Metrics and queries -/

section

variable {lookup : FilterLookup} {depth : Nat} {task : MetricTask}

/-- A metric gives items and itself, under the name that is wanted. -/
theorem of_mayHold_ofMetric (ok : ofMetric catalog lookup depth task = .ok plan)
    {content : ColumnContent} (held : MayHold catalog plan content) :
    content.item?.isSome = true ∨ content = .metric task.output := by
  obtain ⟨_, metric, own, rfl, found, _, planned⟩ := of_ofMetric ok
  have named : task.output = ⟨metric.name, task.output.newName⟩ := by
    rw [(Catalog.of_metric? found).2]
  rw [named]
  cases planned with
  | measure => exact held.of_compute.imp_left And.right
  | metrics => exact held.of_compute.imp_left And.right

/-- The inputs of a metric without a measure are planned under the names under which they appear. -/
theorem exists_inputs_of_ofMetric {metric : Metric}
    (found : catalog.metric? task.output.metric = some metric)
    (noMeasure : metric.inputMeasures = [])
    (ok : ofMetric catalog lookup (depth + 1) task = .ok plan) :
    ∃ plans formula, plan = (combined plans).andThen
        (.compute ⟨metric.name, task.output.newName⟩ formula) ∧
      List.Forall₂ (fun output part => ∃ conditions offset,
        ofMetric catalog lookup depth ⟨output, task.groupBy, conditions, offset⟩ = .ok part)
        (inputOutputs metric) plans := by
  have kind : metric.kind = .ratio ∨ metric.kind = .derived := by
    have measured : ¬ (metric.kind = .simple ∨ metric.kind = .cumulative) := by
      intro kind
      obtain ⟨input, _, inputs, _⟩ := exists_input_of_ofMetric found kind ok
      exact List.cons_ne_nil _ _ (inputs.symm.trans noMeasure)
    cases kind : metric.kind with
    | simple => exact (measured (.inl kind)).elim
    | cumulative => exact (measured (.inr kind)).elim
    | ratio => exact .inl rfl
    | derived => exact .inr rfl
  obtain ⟨_, other, own, ⟨⟩, otherFound, ownRead, _⟩ := of_ofMetric ok
  obtain rfl := Option.some.inj (found.symm.trans otherFound)
  obtain ⟨plans, formula, rfl, each⟩ := exists_plans_of_metrics found kind ownRead ok
  refine ⟨plans, formula, rfl, ?_⟩
  rw [← List.map_snd_zip (inputOutputs_alike metric).length_eq.ge, List.forall₂_map_left_iff]
  exact each.imp fun _ _ ⟨_, _, ok⟩ => ⟨_, _, ok⟩

/-- What a plan may hold is among its columns. -/
theorem HasColumns.mem_of_mayHold {contents : List ColumnContent} {content : ColumnContent}
    (columns : HasColumns catalog plan contents) (held : MayHold catalog plan content) :
    content ∈ contents := by
  obtain ⟨dataSet, converts, held⟩ := held
  rw [columns dataSet converts] at held
  obtain ⟨column, among, rfl⟩ := Columns.contains_iff.mp held
  obtain ⟨content, inside, rfl⟩ := List.mem_map.mp among
  exact inside

/-- A metric that is grouped by an entity alone is one per value of it. -/
theorem isPerValue_of_ofMetric {name entity : String} (parts : HasLegibleParts catalog plan)
    (ok : ofMetric catalog lookup depth ⟨⟨name, none⟩, [.entity entity []], [], none⟩ = .ok plan) :
    IsPerValue catalog entity plan := by
  have columns := hasColumns_of_ofMetric (List.nodup_singleton _) ok
  obtain ⟨_, metric, _, _, found, _⟩ := of_ofMetric ok
  obtain ⟨known, named⟩ := Catalog.of_metric? found
  refine ⟨parts, fun item held => ?_, fun output held => ?_⟩
  · rcases List.mem_cons.mp (columns.mem_of_mayHold held) with same | absent
    · exact ColumnContent.item.inj same
    · cases List.mem_singleton.mp absent
  · rcases List.mem_cons.mp (columns.mem_of_mayHold held) with absent | same
    · cases absent
    · cases List.mem_singleton.mp same
      exact List.mem_map.mpr ⟨metric, known, named⟩

/-- What is planned for different outputs, told by their names, is brought together legibly. -/
theorem hasLegibleParts_combined_of_ofMetric {outputs : List MetricOutput}
    {groupBy : List GroupByItem} {plans : List Dataflow}
    (names : ∀ output ∈ outputs, ∀ other ∈ outputs, output.name = other.name → output = other)
    (planned : List.Forall₂ (fun output part => ∃ conditions offset,
      ofMetric catalog lookup depth ⟨output, groupBy, conditions, offset⟩ = .ok part)
      outputs plans)
    (each : ∀ part ∈ plans, HasLegibleParts catalog part) :
    HasLegibleParts catalog (combined plans) := by
  have holds : ∀ part ∈ plans, ∃ output ∈ outputs, ∀ content, MayHold catalog part content →
      content.item?.isSome = true ∨ content = .metric output := by
    intro part among
    obtain ⟨output, isOutput, _, _, ok⟩ := exists_left_of_forall₂ planned among
    exact ⟨output, isOutput, fun content held => of_mayHold_ofMetric ok held⟩
  refine hasLegibleParts_combined each (isLegible_combined (fun part among =>
    (each part among).isLegible) (fun part among name held => ?_)
    fun part among other otherAmong output another held otherHeld same => ?_)
  · obtain ⟨_, _, only⟩ := holds part among
    rcases only _ held with absent | absent
    · cases absent
    · cases absent
  · obtain ⟨first, isFirst, only⟩ := holds part among
    obtain ⟨second, isSecond, otherOnly⟩ := holds other otherAmong
    obtain rfl := ColumnContent.metric.inj ((only _ held).resolve_left Bool.false_ne_true)
    obtain rfl := ColumnContent.metric.inj ((otherOnly _ otherHeld).resolve_left Bool.false_ne_true)
    exact names _ isFirst _ isSecond same

section

variable (apart : catalog.manifest.LabelsApart)
  (distinct : (catalog.manifest.models.map SemanticModel.name).Nodup)
  (agrees : catalog.manifest.AgreesOnTime)

include apart distinct agrees

private theorem hasLegibleParts_of_ofMetric
    (named : ∀ newName, task.output.newName = some newName →
      newName ∈ catalog.manifest.outputNames)
    (ok : ofMetric catalog lookup depth task = .ok plan) : HasLegibleParts catalog plan := by
  induction depth generalizing task plan with
  | zero => cases ok
  | succ depth ih =>
      obtain ⟨_, metric, own, ⟨⟩, found, _, planned⟩ := of_ofMetric ok
      obtain ⟨known, _⟩ := Catalog.of_metric? found
      have output : (MetricOutput.mk metric.name task.output.newName).name ∈
          catalog.manifest.outputNames := by
        cases given : task.output.newName with
        | none => exact Manifest.name_mem_outputNames known
        | some newName => exact named newName given
      cases planned with
      | @measure _ _ part _ _ _ aggregated accumulated =>
          have parts : HasLegibleParts catalog part := by
            refine hasLegibleParts_of_ofMeasure apart distinct
              (fun name entity part ok => ?_) agrees computes_of_subqueryAt aggregated
            refine isPerValue_of_ofMetric (ih (fun newName absent => ?_) ok) ok
            cases absent
          rcases accumulated with rfl | ⟨_, _, _, rfl⟩
          · exact parts.compute output _
          · exact (parts.narrow rfl).compute output _
      | metrics noMeasure _ =>
          obtain ⟨plans, formula, same, inputs⟩ := exists_inputs_of_ofMetric found noMeasure ok
          rw [same]
          refine (hasLegibleParts_combined_of_ofMetric (fun input among other otherAmong =>
            List.inj_on_of_nodup_map (apart.inputs metric known) among otherAmong) inputs
            fun part among => ?_).compute output formula
          obtain ⟨input, isInput, _, _, ok⟩ := exists_left_of_forall₂ inputs among
          refine ih (fun newName given => ?_) ok
          have name : input.name = newName := by
            rw [MetricOutput.name]
            exact given ▸ rfl
          exact name ▸ Manifest.input_mem_outputNames known isInput

/-- Wherever the plan of a query stands still, its columns are told by their names. -/
theorem hasLegibleParts_of_ofQuery {query : ResolvedQuery}
    (plain : ∀ output ∈ query.metrics, output.newName = none)
    (ok : ofQuery catalog query = .ok plan) : HasLegibleParts catalog plan := by
  obtain ⟨selection, sorted, selected, isSorted, rfl⟩ := of_ofQuery ok
  have parts : HasLegibleParts catalog selection := by
    unfold ofSelection planSelection at selected
    split at selected
    · obtain ⟨found, _, ok⟩ := bind_eq_ok.mp selected
      split at ok
      · cases ok
      · split at ok
        · cases ok
        · rename_i model found
          obtain ⟨⟩ := ok
          have read := hasLegibleParts_readModel apart distinct (Catalog.mem_of_model? found)
          exact ((read.constrained _).narrow rfl).narrow rfl
    · obtain ⟨plans, planned, ⟨⟩⟩ := bind_eq_ok.mp selected
      have inputs := mapM_eq_ok.mp planned
      refine hasLegibleParts_combined_of_ofMetric (fun output among other otherAmong same => ?_)
        (inputs.imp fun _ _ ok => ⟨_, _, ok⟩) fun part among => ?_
      · have here := plain output among
        have there := plain other otherAmong
        cases output
        cases other
        cases here
        cases there
        exact congrArg (MetricOutput.mk · none) same
      · obtain ⟨output, isOutput, ok⟩ := exists_left_of_forall₂ inputs among
        refine hasLegibleParts_of_ofMetric apart distinct agrees (fun newName given => ?_) ok
        rw [plain output isOutput] at given
        cases given
  rcases isSorted with rfl | rfl
  · exact parts.result
  · exact (parts.narrow rfl).result

end

end

end Dataflow

end MetricQuery

import MetricQuery.Proofs.Dataflow.Places
import MetricQuery.Proofs.Selecting
import MetricQuery.Proofs.Sql.Keying

/-! # Keys of plans

Every plan of a query joins its inputs on keys of theirs (`Dataflow.joinsOnKeys_of_ofQuery`). A
model keeps its identifying entities as keys when it is completed, since what completes it is joined
on keys again (`Dataflow.exists_inputs_of_provide`), and a metric that is computed per value of an
entity has this entity as its key, however deep it is derived (`Dataflow.isKeyed_of_ofMetric`).
-/

namespace MetricQuery

open Sql

/-- Models are told apart by their names. In each of them, the names of entities that identify its
rows are no names of other entities or of measures. -/
structure Manifest.DistinguishesKeys (manifest : Manifest) : Prop where
  models : (manifest.models.map SemanticModel.name).Nodup
  entities : ∀ model ∈ manifest.models, ∀ key ∈ model.identifyingEntities,
    ∀ entity ∈ model.entities, entity.name = key.name → entity.kind.isIdentifying = true
  measures : ∀ model ∈ manifest.models, ∀ key ∈ model.identifyingEntities,
    ∀ measure ∈ model.measures, measure.name ≠ key.name

variable {α : Type}

/-- Whether no value of an entity that identifies the rows of a model occurs twice in its table,
nulls apart, under whatever name the table is read. -/
def Sql.Database.HasKeys (database : Database α) (manifest : Manifest) : Prop :=
  ∀ model ∈ manifest.models, ∀ entity ∈ model.identifyingEntities, ∀ name,
    ((database.stored model.table).map fun row =>
      database.raw entity.sql [(some name, row)]).reduceOption.Nodup

/-- Whether a data set completes a source that has exactly one row for each row stored for a
model. -/
structure Sql.DataSet.KeepsRows [DecidableEq α] (database : Database α) (model : SemanticModel)
    (dataSet source : DataSet) : Prop where
  stored : (source.source.rows database).length = (database.stored model.table).length
  completes : dataSet.Completes database source

namespace Dataflow

variable [DecidableEq α] {database : Database α} {catalog : Catalog} {plan : Dataflow}
  {entity : String}

/-! ## Keys -/

/-- Whether an entity is a key of all that a plan gives. -/
def IsKeyed (database : Database α) (catalog : Catalog) (plan : Dataflow) (entity : String) :
    Prop :=
  ∀ dataSet, Converts catalog plan dataSet → IsKey (dataSet.source.rows database) entity

/-- A join of inputs with keys completes its first input. -/
theorem completes_of_isJoinOf {entities : List String} {rest : List Dataflow}
    {source dataSet : DataSet}
    (keyed : List.Forall₂ (fun entity right => IsKeyed database catalog right entity) entities rest)
    (converts : Converts catalog plan source)
    (isJoin : IsJoinOf catalog entities rest source dataSet) :
    dataSet.Completes database source := by
  cases isJoin with
  | intro first later distinct ok =>
      subst first
      refine completes_joinAll (List.forall_mem_cons.mpr ⟨converts.named, fun right member => ?_⟩)
        distinct ?_ ok
      · obtain ⟨_, _, converts⟩ := exists_left_of_forall₂ later member
        exact converts.named
      · refine (forall₂_comp keyed later).imp ?_
        rintro entity right ⟨input, isKeyed, converts⟩
        exact isKeyed _ converts

namespace IsKeyed

/-- Choosing columns keeps the key if it is chosen. -/
theorem pass (keyed : IsKeyed database catalog plan entity) (rest : List ColumnContent) :
    IsKeyed database catalog (plan.andThen (.pass (.ownEntity entity :: rest))) entity := by
  intro dataSet converts
  obtain ⟨input, converts, ok⟩ := converts.of_andThen rfl
  exact isKey_pass converts.named (keyed _ converts) ok

/-- A running total per value of an entity still has one row for each value. -/
theorem accumulate (keyed : IsKeyed database catalog plan entity) {values : List ColumnContent}
    (columns : HasColumns catalog plan (.ownEntity entity :: values)) (order : GroupByItem)
    (parts : List GroupByItem) (measures : List AggregatedMeasure) :
    IsKeyed database catalog (plan.andThen (.accumulate order parts measures)) entity := by
  intro dataSet converts
  obtain ⟨input, converts, ok⟩ := converts.of_andThen rfl
  exact isKey_accumulate (columns _ converts) (keyed _ converts) ok

/-- A metric computed per value of an entity has one row for each value. -/
theorem compute (keyed : IsKeyed database catalog plan entity)
    (grouped : HasItems catalog plan [.entity entity []]) (output : MetricOutput)
    (formula : MetricFormula) :
    IsKeyed database catalog (plan.andThen (.compute output formula)) entity := by
  intro dataSet converts
  obtain ⟨input, converts, ok⟩ := converts.of_andThen rfl
  exact isKey_compute (grouped _ converts) (keyed _ converts) ok

end IsKeyed

private theorem isKeyed_aggregate (grouped : HasItems catalog plan [.entity entity []])
    (measures : List AggregatedMeasure) :
    IsKeyed database catalog (plan.andThen (.aggregate measures)) entity := by
  intro dataSet converts
  obtain ⟨input, converts, ok⟩ := converts.of_andThen rfl
  exact isKey_aggregate (grouped _ converts) ok

private theorem isKeyed_combined {plans : List Dataflow}
    (each : ∀ plan ∈ plans, HasItems catalog plan [.entity entity []] ∧
      IsKeyed database catalog plan entity) :
    IsKeyed database catalog (combined plans) entity := by
  intro dataSet converts
  rcases converts.of_combined with ⟨single, rfl, converts⟩ | ⟨first, rest, alike, distinct, ok⟩
  · exact (each single List.mem_cons_self).2 dataSet converts
  · have inputs : ∀ input ∈ first :: rest, ∃ plan ∈ plans,
        Converts catalog plan ⟨input.columns, input.source⟩ :=
      fun input member => exists_left_of_forall₂ alike member
    refine isKey_combine (fun input member => ?_) distinct ?_ (fun input member => ?_) ok
    · obtain ⟨_, _, converts⟩ := inputs input member
      exact converts.named
    · obtain ⟨plan, among, converts⟩ := inputs first List.mem_cons_self
      exact (each plan among).1 _ converts
    · obtain ⟨plan, among, converts⟩ := inputs input member
      exact (each plan among).2 _ converts

/-! ## Completed models -/

section

variable {model : SemanticModel}

/-- Reading a model is converted to the select from its table. -/
theorem eq_readModel_of_converts (distinct : catalog.manifest.DistinguishesKeys)
    (known : model ∈ catalog.manifest.models) {dataSet : DataSet}
    (converts : Converts catalog (readModel model) dataSet) :
    ∃ name, dataSet = Sql.readModel model name := by
  cases converts with
  | @read _ other found _ name =>
      obtain rfl := Option.some.inj
        (found.symm.trans (Catalog.model?_of_mem distinct.models known))
      exact ⟨name, rfl⟩
  | assembled reads => exact (reads _ rfl).elim

/-- A model that is completed by inputs with keys keeps its own keys. -/
theorem isKeyed_joinTo (distinct : catalog.manifest.DistinguishesKeys)
    (keys : database.HasKeys catalog.manifest) (known : model ∈ catalog.manifest.models)
    (identified : model.isIdentifiedBy entity = true) {inputs : List JoinedInput}
    (keyed : ∀ input ∈ inputs, IsKeyed database catalog input.plan input.entity) :
    IsKeyed database catalog (joinTo (readModel model) inputs) entity := by
  obtain ⟨own, identifies, member, rfl⟩ := exists_identifying identified
  have isKey : ∀ name, IsKey ((Sql.readModel model name).source.rows database) own.name := by
    have some : (model.entity? own.name).isSome = true :=
      List.find?_isSome.mpr ⟨own, member, beq_self_eq_true _⟩
    obtain ⟨first, found⟩ := Option.isSome_iff_exists.mp some
    obtain ⟨isFirst, named⟩ := of_entity? found
    have identifying := distinct.entities model known own identifies first isFirst named
    exact fun name => isKey_readModel found (distinct.measures model known own identifies)
      (keys model known first (List.mem_filter.mpr ⟨isFirst, identifying⟩) name)
  intro dataSet converts
  unfold joinTo at converts
  split at converts
  · obtain ⟨name, rfl⟩ := eq_readModel_of_converts distinct known converts
    exact isKey name
  · obtain ⟨source, first, isJoin⟩ := converts.exists_isJoinOf
    have alike : List.Forall₂ (fun entity right => IsKeyed database catalog right entity)
        (inputs.map JoinedInput.entity) (inputs.map JoinedInput.plan) := by
      rw [List.forall₂_map_left_iff, List.forall₂_map_right_iff]
      exact List.forall₂_same.mpr keyed
    have completes := completes_of_isJoinOf alike first isJoin
    obtain ⟨name, rfl⟩ := eq_readModel_of_converts distinct known first
    obtain ⟨_, ⟨⟩, named, contains⟩ := readModel_makes model name
    have column : ⟨.ownEntity own.name, own.name⟩ ∈ (Sql.readModel model name).columns :=
      named.mem_of_contains ((contains (.ownEntity own.name)).mpr (offersAlone_entity member))
    refine (isKey name).of_map_value (map_eq_of_forall₂ (completes.rows.imp ?_))
    exact fun _ _ same => same _ column

end

/-! ## Joins -/

/-- Whether a plan reads a model, perhaps with the time of metrics. -/
inductive Reads (model : SemanticModel) : Dataflow → Prop where
  | model : Reads model (readModel model)
  | time (dimension : String) (stored : Grain) (offset : Option OffsetWindow) :
      Reads model ((readModel model).andThen (.addMetricTime dimension stored offset))

/-- A model that is only read has one row for each row of its table. -/
theorem length_rows_of_reads (distinct : catalog.manifest.DistinguishesKeys)
    {model : SemanticModel} (known : model ∈ catalog.manifest.models) {dataSet : DataSet}
    (reads : Reads model plan) (converts : Converts catalog plan dataSet) :
    (dataSet.source.rows database).length = (database.stored model.table).length := by
  cases reads with
  | model =>
      obtain ⟨name, rfl⟩ := eq_readModel_of_converts distinct known converts
      exact length_rows_readModel model name
  | time dimension stored offset =>
      obtain ⟨input, converts, ok⟩ := converts.of_andThen rfl
      obtain ⟨name, same⟩ := eq_readModel_of_converts distinct known converts
      have source : input.source = (Sql.readModel model name).source := congrArg DataSet.source same
      rw [length_rows_addMetricTime ok, source]
      exact length_rows_readModel model name

/-- Whether a step, if it joins, joins inputs on keys of theirs to a model that is read. -/
def IsOnKeys (database : Database α) (catalog : Catalog) (step : Step) (inputs : List Dataflow) :
    Prop :=
  ∀ entities, step = .join entities → ∃ model ∈ catalog.manifest.models, ∃ first rest,
    inputs = first :: rest ∧ Reads model first ∧
      List.Forall₂ (fun entity right => IsKeyed database catalog right entity) entities rest

private theorem isOnKeys_of_isJoin_eq_false {step : Step} (other : step.isJoin = false)
    (inputs : List Dataflow) : IsOnKeys database catalog step inputs := by
  rintro entities rfl
  exact nomatch other

/-- Whether a plan joins inputs on keys of theirs only. -/
def JoinsOnKeys (database : Database α) (catalog : Catalog) (plan : Dataflow) : Prop :=
  plan.Everywhere (IsOnKeys database catalog)

namespace JoinsOnKeys

/-- A step that does not join leaves the joins of its inputs as they are. -/
theorem node {step : Step} {inputs : List Dataflow} (other : step.isJoin = false)
    (each : ∀ input ∈ inputs, JoinsOnKeys database catalog input) :
    JoinsOnKeys database catalog (.node step inputs) :=
  everywhere_node_iff.mpr ⟨isOnKeys_of_isJoin_eq_false other inputs, each⟩

/-- A further step that does not join adds no join. -/
theorem andThen (onKeys : JoinsOnKeys database catalog plan) {step : Step}
    (other : step.isJoin = false) : JoinsOnKeys database catalog (plan.andThen step) :=
  node other (List.forall_mem_singleton.mpr onKeys)

/-- Conditions add no join. -/
theorem constrained (onKeys : JoinsOnKeys database catalog plan) (conditions : List Condition) :
    JoinsOnKeys database catalog (constrained plan conditions) := by
  unfold Dataflow.constrained
  split
  · exact onKeys
  · exact onKeys.andThen rfl

/-- Bringing plans together for their metrics adds no join on entities. -/
theorem combined {plans : List Dataflow}
    (each : ∀ plan ∈ plans, JoinsOnKeys database catalog plan) :
    JoinsOnKeys database catalog (combined plans) :=
  match plans with
  | [plan] => each plan List.mem_cons_self
  | [] | _ :: _ :: _ => node rfl each

end JoinsOnKeys

/-- Where a model is only read nothing is joined. -/
theorem joinsOnKeys_of_reads {model : SemanticModel} (reads : Reads model plan) :
    JoinsOnKeys database catalog plan := by
  have read : JoinsOnKeys database catalog (readModel model) := .node rfl nofun
  cases reads with
  | model => exact read
  | time => exact read.andThen rfl

/-- A join is on keys if each input has one row for each value of its entity. -/
theorem joinsOnKeys_joinTo {model : SemanticModel} (known : model ∈ catalog.manifest.models)
    (reads : Reads model plan) {inputs : List JoinedInput}
    (each : ∀ input ∈ inputs, IsKeyed database catalog input.plan input.entity ∧
      JoinsOnKeys database catalog input.plan) :
    JoinsOnKeys database catalog (joinTo plan inputs) := by
  unfold joinTo
  split
  · exact joinsOnKeys_of_reads reads
  · refine everywhere_node_iff.mpr ⟨?_, List.forall_mem_cons.mpr ⟨joinsOnKeys_of_reads reads,
      List.forall_mem_map.mpr fun input member => (each input member).2⟩⟩
    rintro _ ⟨⟩
    refine ⟨model, known, plan, _, rfl, reads, ?_⟩
    rw [List.forall₂_map_left_iff, List.forall₂_map_right_iff]
    exact List.forall₂_same.mpr fun input member => (each input member).1

section

variable {subquery : SubqueryPlanner}
  (distinct : catalog.manifest.DistinguishesKeys) (keys : database.HasKeys catalog.manifest)
  (subqueries : ∀ name entity plan, subquery name entity = .ok plan →
    IsKeyed database catalog plan entity ∧ JoinsOnKeys database catalog plan)

include distinct keys subqueries in
/-- A model is completed by inputs with keys, which have been joined on keys themselves. -/
theorem exists_inputs_of_provide {hops : Nat} {plan result : Dataflow} {model : SemanticModel}
    {items : List GroupByItem} {visited : List String} (within : IsWithin hops model items)
    (ok : provide catalog subquery hops plan model items visited = .ok result) :
    ∃ inputs, result = joinTo plan inputs ∧ ∀ input ∈ inputs,
      IsKeyed database catalog input.plan input.entity ∧
        JoinsOnKeys database catalog input.plan := by
  induction hops using Nat.strong_induction_on generalizing plan result model items visited with
  | _ hops ih =>
      obtain ⟨metrics, joined, planned, served, rfl⟩ := (provide_eq_ok within).mp ok
      refine ⟨metrics ++ joined, rfl, fun input member => ?_⟩
      rcases List.mem_append.mp member with isMetric | isModel
      · obtain ⟨item, _, _, _, ok⟩ := exists_left_of_forall₂ (of_subqueriesFor planned) isMetric
        exact subqueries _ _ _ ok
      · obtain ⟨group, among, target, right, chosen, ok, rfl⟩ :=
          exists_left_of_forall₂ served isModel
        have fewer : hops - 1 < hops := by
          rcases Nat.eq_zero_or_pos hops with rfl | some
          · exact (List.not_mem_nil (within.linkGroups_eq_nil ▸ among)).elim
          · omega
        obtain ⟨inputs, rfl, each⟩ := ih _ fewer (within.behind among) ok
        obtain ⟨_, known, _, identified, _⟩ := of_joinTarget? chosen
        have keyed : IsKeyed database catalog (joinTo (readModel target) inputs) group.entity :=
          isKeyed_joinTo distinct keys known identified fun input member => (each input member).1
        constructor
        · rw [passedThrough, appendNew_eq_append]
          exact keyed.pass _
        · exact (joinsOnKeys_joinTo known .model each).andThen rfl

include distinct keys subqueries in
private theorem joinsOnKeys_of_ofMeasure {name : String} {groupBy : List GroupByItem}
    {conditions : List Condition} {offset : Option OffsetWindow}
    (computes : ∀ name entity plan, subquery name entity = .ok plan → plan.computes = true)
    (ok : ofMeasure catalog subquery name groupBy conditions offset = .ok plan) :
    JoinsOnKeys database catalog plan := by
  obtain ⟨model, measure, source, found, provided, _, rfl⟩ := of_ofMeasure computes ok
  obtain ⟨inputs, rfl, each⟩ := exists_inputs_of_provide distinct keys subqueries
    (isWithin_mostLinks model _) provided
  have reads : Reads model (readMeasure model measure offset) := by
    unfold readMeasure
    split
    · exact .model
    · exact .time ..
  have onKeys : JoinsOnKeys database catalog (joinTo (readMeasure model measure offset) inputs) :=
    joinsOnKeys_joinTo (Catalog.of_measure? found).1 reads each
  exact ((onKeys.constrained conditions).andThen rfl).andThen rfl

end

/-! ## Metrics -/

section

variable {lookup : FilterLookup} {depth : Nat}

/-- A metric that is computed per value of an entity has this entity as its key. -/
theorem isKeyed_of_ofMetric {task : MetricTask} (grouped : task.groupBy = [.entity entity []])
    (ok : ofMetric catalog lookup depth task = .ok plan) :
    IsKeyed database catalog plan entity := by
  have single : task.groupBy.Nodup := grouped ▸ List.nodup_singleton _
  induction depth generalizing task plan with
  | zero => exact nomatch ok
  | succ depth ih =>
      obtain ⟨_, metric, own, ⟨⟩, found, _, planned⟩ := of_ofMetric ok
      cases planned with
      | @measure input _ part plan _ _ aggregated accumulated =>
          obtain ⟨measure, columns⟩ :=
            hasColumns_of_ofMeasure single computes_of_subqueryAt aggregated
          rw [grouped] at columns
          have keyed : IsKeyed database catalog part entity := by
            obtain ⟨_, measure, source, _, _, _, rfl⟩ :=
              of_ofMeasure computes_of_subqueryAt aggregated
            exact isKeyed_aggregate (grouped ▸ hasItems_pass _ measure.name single) _
          have isValue : ∀ value ∈ [ColumnContent.measure measure], value.item? = none :=
            List.forall_mem_singleton.mpr rfl
          rcases accumulated with rfl | ⟨order, parts, measures, rfl⟩
          · exact keyed.compute (columns.hasItems isValue) _ _
          · refine (keyed.accumulate columns order parts measures).compute ?_ _ _
            exact (columns.accumulate (nodup_grouped (List.nodup_singleton _) rfl) order parts
              measures).hasItems isValue
      | @metrics plans _ _ inputs =>
          have each : ∀ part ∈ plans, HasItems catalog part [.entity entity []] ∧
              IsKeyed database catalog part entity := by
            intro part member
            obtain ⟨input, _, output, ofConsumer, _, _, ok⟩ :=
              exists_left_of_forall₂ inputs member
            have columns : HasColumns catalog part (task.groupBy.map .item ++ [.metric output]) :=
              @hasColumns_of_ofMetric _ _ _ _ ⟨output, task.groupBy, _, _⟩ single ok
            rw [grouped] at columns
            exact ⟨columns.hasItems (List.forall_mem_singleton.mpr rfl),
              @ih part ⟨output, task.groupBy, _, _⟩ grouped ok single⟩
          refine (isKeyed_combined each).compute ?_ _ _
          exact hasItems_combined (List.nodup_singleton _) fun part member => (each part member).1

variable (distinct : catalog.manifest.DistinguishesKeys)
  (keys : database.HasKeys catalog.manifest)

include distinct keys in
private theorem joinsOnKeys_of_ofMetric {task : MetricTask}
    (ok : ofMetric catalog lookup depth task = .ok plan) : JoinsOnKeys database catalog plan := by
  induction depth generalizing task plan with
  | zero => exact nomatch ok
  | succ depth ih =>
      obtain ⟨_, metric, own, ⟨⟩, _, _, planned⟩ := of_ofMetric ok
      cases planned with
      | @measure input _ part plan _ _ aggregated accumulated =>
          have onKeys : JoinsOnKeys database catalog part :=
            joinsOnKeys_of_ofMeasure distinct keys
              (fun _ _ _ ok => ⟨isKeyed_of_ofMetric rfl ok, ih ok⟩) computes_of_subqueryAt
              aggregated
          rcases accumulated with rfl | ⟨order, parts, measures, rfl⟩
          · exact onKeys.andThen rfl
          · exact (onKeys.andThen rfl).andThen rfl
      | metrics _ inputs =>
          refine (JoinsOnKeys.combined fun part member => ?_).andThen rfl
          obtain ⟨_, _, _, _, _, _, ok⟩ := exists_left_of_forall₂ inputs member
          exact ih ok

include distinct keys in
/-- The plan of a query joins inputs on keys of theirs only. -/
theorem joinsOnKeys_of_ofQuery {query : ResolvedQuery} (ok : ofQuery catalog query = .ok plan) :
    JoinsOnKeys database catalog plan := by
  obtain ⟨selection, sorted, selected, isSorted, rfl⟩ := of_ofQuery ok
  have onKeys : JoinsOnKeys database catalog selection := by
    unfold ofSelection planSelection at selected
    split at selected
    · obtain ⟨found, _, ok⟩ := bind_eq_ok.mp selected
      split at ok
      · cases ok
      · split at ok
        · cases ok
        · rename_i model _
          obtain ⟨⟩ := ok
          have read : JoinsOnKeys database catalog (readModel model) := joinsOnKeys_of_reads .model
          exact ((read.constrained _).andThen rfl).andThen rfl
    · obtain ⟨plans, planned, ⟨⟩⟩ := bind_eq_ok.mp selected
      refine .combined fun part member => ?_
      obtain ⟨output, _, ok⟩ := exists_of_mapM_eq_ok planned part member
      exact joinsOnKeys_of_ofMetric distinct keys ok
  rcases isSorted with rfl | rfl
  · exact onKeys.andThen rfl
  · exact (onKeys.andThen rfl).andThen rfl

end

end Dataflow

end MetricQuery

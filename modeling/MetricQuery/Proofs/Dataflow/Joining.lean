import MetricQuery.Proofs.Dataflow.Targets
import MetricQuery.Proofs.Sql.Holding

/-! # Which joins can be planned

A model that lacks items is completed by one model for each entity in front of them. Whether all
models can be found, and whether they have what is asked of them, is said apart from the plan
(`Served`): planning succeeds exactly if models can be found (`exists_provide_iff`), and the plan
holds everything that is needed if they have it (`provide_yields`).
-/

namespace MetricQuery.Dataflow

open Sql

/-! ## Providing items -/

/-- Whether items can be provided from a model on: for each entity in front of items that the model
does not provide itself there is a model to join, the first one that looks able to provide these
items, and from that model on they can be provided in the same way. What a model provides itself,
apart from the time of a metric, is also to be among what it has `alone`. -/
inductive Served (catalog : Catalog) (alone : SemanticModel → GroupByItem → Prop) :
    (model : SemanticModel) → (visited : List String) → (items : List GroupByItem) → Prop where
  | intro {model : SemanticModel} {visited : List String} {items : List GroupByItem}
      (target : String → SemanticModel)
      (own : ∀ item ∈ items, model.Provides item → item.isMetricTime = false → alone model item)
      (chosen : ∀ entity, model.neededThrough entity items ≠ [] →
        catalog.manifest.IsFirstJoinTarget model visited entity
          (model.neededThrough entity items) (target entity))
      (behind : ∀ entity, model.neededThrough entity items ≠ [] →
        Served catalog alone (target entity) (visited ++ [(target entity).name])
          (model.neededThrough entity items)) :
      Served catalog alone model visited items

/-- Whether no item that a model lacks is more than some number of joins away. -/
def IsWithin (hops : Nat) (model : SemanticModel) (items : List GroupByItem) : Prop :=
  ∀ item ∈ missing model items, item.kind ≠ .metric → item.links.length ≤ hops

/-- Behind a join everything is one join nearer. -/
theorem IsWithin.behind {hops : Nat} {model target : SemanticModel} {items : List GroupByItem}
    (within : IsWithin hops model items) {group : LinkGroup}
    (member : group ∈ linkGroups (missing model items)) :
    IsWithin (hops - 1) target group.items := by
  intro item lacking kind
  obtain ⟨outer, _⟩ := behind_mem_of_mem_linkGroups member (mem_missing.mp lacking).1
  have bound := within _ outer (by rwa [GroupByItem.kind_behind])
  rw [GroupByItem.links_behind, List.length_cons] at bound
  omega

/-- Without joins left there is nothing that needs one. -/
theorem IsWithin.linkGroups_eq_nil {model : SemanticModel} {items : List GroupByItem}
    (within : IsWithin 0 model items) : linkGroups (missing model items) = [] := by
  apply List.eq_nil_iff_forall_not_mem.mpr
  intro group member
  obtain ⟨⟨item, lacking, kind, first⟩, _⟩ := mem_linkGroups.mp member
  have empty := List.length_eq_zero_iff.mp (Nat.le_zero.mp (within item lacking kind))
  rw [empty] at first
  exact nomatch first

/-- Without joins left nothing is needed through any entity. -/
theorem IsWithin.neededThrough_eq_nil {model : SemanticModel} {items : List GroupByItem}
    (within : IsWithin 0 model items) (entity : String) :
    model.neededThrough entity items = [] := by
  by_contra needed
  exact List.not_mem_nil (within.linkGroups_eq_nil ▸ mem_linkGroups_neededThrough needed)

/-- Without metrics among the items there are no subqueries. -/
theorem subqueriesFor_eq_nil {subquery : SubqueryPlanner} {items : List GroupByItem}
    (none : ∀ item ∈ items, item.kind ≠ .metric) : subqueriesFor subquery items = .ok [] := by
  have empty : items.filter (·.kind == .metric) = [] :=
    List.filter_eq_nil_iff.mpr fun item member isMetric => none item member (beq_iff_eq.mp isMetric)
  rw [subqueriesFor, empty]
  rfl

/-- Whether an input serves a group of items: the model to join, completed and reduced to what is
needed through the entity. -/
def Serves (catalog : Catalog) (subquery : SubqueryPlanner) (hops : Nat) (model : SemanticModel)
    (visited : List String) (group : LinkGroup) (input : JoinedInput) : Prop :=
  ∃ target right, joinTarget? catalog model group.entity group.items visited = some target ∧
    provide catalog subquery hops (readModel target) target group.items
      (visited ++ [target.name]) = .ok right ∧
    input = ⟨group.entity, right.andThen (.pass (passedThrough group))⟩

section

variable {catalog : Catalog} {subquery : SubqueryPlanner} {hops : Nat} {plan result : Dataflow}
  {model : SemanticModel} {items : List GroupByItem} {visited : List String}
  {alone : SemanticModel → GroupByItem → Prop}

/-- A model is completed by subqueries and by one completed model for each group of items. -/
theorem provide_eq_ok (within : IsWithin hops model items) :
    provide catalog subquery hops plan model items visited = .ok result ↔
      ∃ subqueries joined, subqueriesFor subquery (missing model items) = .ok subqueries ∧
        List.Forall₂ (Serves catalog subquery (hops - 1) model visited)
          (linkGroups (missing model items)) joined ∧
        result = joinTo plan (subqueries ++ joined) := by
  cases hops with
  | zero =>
      simp only [within.linkGroups_eq_nil, List.forall₂_nil_left_iff, provide, bind_eq_ok]
      constructor
      · intro succeeds
        obtain ⟨subqueries, ok, ⟨⟩⟩ := succeeds
        exact ⟨subqueries, [], ok, rfl, by rw [List.append_nil]⟩
      · intro succeeds
        obtain ⟨subqueries, _, ok, rfl, rfl⟩ := succeeds
        exact ⟨subqueries, ok, by rw [List.append_nil]; rfl⟩
  | succ hops =>
      simp only [provide, bind_eq_ok, mapM_eq_ok]
      rw [Nat.add_sub_cancel]
      constructor
      · intro succeeds
        obtain ⟨subqueries, ok, joined, each, ⟨⟩⟩ := succeeds
        refine ⟨subqueries, joined, ok, each.imp fun group input made => ?_, rfl⟩
        split at made
        · cases made
        · rename_i target chosen
          obtain ⟨right, ok, ⟨⟩⟩ := bind_eq_ok.mp made
          exact ⟨target, right, chosen, ok, rfl⟩
      · intro succeeds
        obtain ⟨subqueries, joined, ok, each, rfl⟩ := succeeds
        refine ⟨subqueries, ok, joined, each.imp fun group input serves => ?_, rfl⟩
        obtain ⟨target, right, chosen, ok, rfl⟩ := serves
        rw [chosen]
        exact bind_eq_ok.mpr ⟨right, ok, rfl⟩

private theorem served_of_provide (within : IsWithin hops model items)
    (ok : provide catalog subquery hops plan model items visited = .ok result) :
    Served catalog (fun _ _ => True) model visited items := by
  induction hops generalizing plan result model items visited with
  | zero =>
      refine .intro (fun _ => model) (fun _ _ _ _ => trivial) ?_ ?_
      · exact fun entity needed => (needed (within.neededThrough_eq_nil entity)).elim
      · exact fun entity needed => (needed (within.neededThrough_eq_nil entity)).elim
  | succ hops ih =>
      obtain ⟨_, joined, _, each, _⟩ := (provide_eq_ok within).mp ok
      refine .intro (fun entity =>
        (joinTarget? catalog model entity (model.neededThrough entity items) visited).getD model)
        (fun _ _ _ _ => trivial) ?_ ?_
      · intro entity needed
        obtain ⟨_, _, target, _, chosen, _⟩ :=
          exists_right_of_forall₂ each (mem_linkGroups_neededThrough needed)
        rw [chosen, Option.getD_some]
        exact joinTarget?_eq_some_iff.mp chosen
      · intro entity needed
        have member := mem_linkGroups_neededThrough needed
        obtain ⟨_, _, target, right, chosen, behind, _⟩ := exists_right_of_forall₂ each member
        rw [chosen, Option.getD_some]
        exact ih (within.behind member) behind

/-- Where items can be provided, a plan for them is found. -/
theorem exists_provide (served : Served catalog alone model visited items)
    (within : IsWithin hops model items)
    (subqueries : ∃ subqueries, subqueriesFor subquery (missing model items) = .ok subqueries) :
    ∃ result, provide catalog subquery hops plan model items visited = .ok result := by
  induction served generalizing hops plan with
  | @intro model visited items target _ chosen _ ih =>
      obtain ⟨subqueries, ok⟩ := subqueries
      have served : ∀ group ∈ linkGroups (missing model items), ∃ input,
          Serves catalog subquery (hops - 1) model visited group input := by
        rintro ⟨entity, inner⟩ member
        obtain ⟨rfl, needed⟩ := mem_linkGroups_missing.mp member
        have noSubqueries : ∃ subqueries, subqueriesFor subquery
            (missing (target entity) (model.neededThrough entity items)) = .ok subqueries :=
          ⟨[], subqueriesFor_eq_nil fun item lacking =>
            (behind_mem_of_mem_linkGroups member (mem_missing.mp lacking).1).2⟩
        obtain ⟨right, behind⟩ := @ih entity needed _ (readModel (target entity))
          (within.behind member) noSubqueries
        exact ⟨_, target entity, right, joinTarget?_eq_some_iff.mpr (chosen entity needed), behind,
          rfl⟩
      obtain ⟨joined, each⟩ := exists_forall₂ served
      exact ⟨_, (provide_eq_ok within).mpr ⟨subqueries, joined, ok, each, rfl⟩⟩

/-- Without metrics among the items, a model can be completed exactly if they can be provided. -/
theorem exists_provide_iff (within : IsWithin hops model items)
    (none : ∀ item ∈ items, item.kind ≠ .metric) :
    (∃ result, provide catalog subquery hops plan model items visited = .ok result) ↔
      Served catalog (fun _ _ => True) model visited items := by
  constructor
  · intro succeeds
    obtain ⟨result, ok⟩ := succeeds
    exact served_of_provide within ok
  · exact fun served => exists_provide served within
      ⟨[], subqueriesFor_eq_nil fun item lacking => none item (mem_missing.mp lacking).1⟩

/-- Without metrics among the items, the only reason to fail is that some model that was reached has
no model to join. -/
theorem lacksJoinTarget_of_provide {first : SemanticModel} {wanted : List GroupByItem}
    {error : QueryError} (joined : IsJoinedFor catalog.manifest first wanted model visited items)
    (none : ∀ item ∈ items, item.kind ≠ .metric)
    (failed : provide catalog subquery hops plan model items visited = .error error) :
    LacksJoinTarget catalog.manifest first wanted error := by
  have noSubqueries : subqueriesFor subquery (missing model items) = .ok [] :=
    subqueriesFor_eq_nil fun item lacking => none item (mem_missing.mp lacking).1
  induction hops generalizing plan model items visited with
  | zero =>
      unfold missing at noSubqueries
      rw [provide, noSubqueries] at failed
      exact nomatch failed
  | succ hops ih =>
      rw [provide, ← missing, noSubqueries] at failed
      rcases bind_eq_error.mp failed with ⟨⟨⟩⟩ | ⟨_, _, failed⟩
      rcases bind_eq_error.mp failed with failed | ⟨_, _, ⟨⟩⟩
      obtain ⟨⟨entity, inner⟩, member, failed⟩ := exists_of_mapM_eq_error failed
      obtain ⟨rfl, needed⟩ := mem_linkGroups_missing.mp member
      split at failed
      · rename_i unjoined
        obtain ⟨⟩ := failed
        exact ⟨_, _, _, entity, joined, needed, joinTarget?_eq_none_iff.mp unjoined, rfl, rfl, rfl⟩
      · rename_i target chosen
        have behind : ∀ item ∈ model.neededThrough entity items, item.kind ≠ .metric :=
          fun item among => (behind_mem_of_mem_linkGroups member among).2
        rcases bind_eq_error.mp failed with failed | ⟨_, _, ⟨⟩⟩
        exact ih (joined.further needed (joinTarget?_eq_some_iff.mp chosen)) behind failed
          (subqueriesFor_eq_nil fun item lacking => behind item (mem_missing.mp lacking).1)

/-! ## What completed models hold -/

/-- Whether an item is a metric that a model can be joined with on one of its entities, since the
subquery for it holds the metric and the entity. -/
def IsComputed (catalog : Catalog) (subquery : SubqueryPlanner) (model : SemanticModel)
    (item : GroupByItem) : Prop :=
  ∃ name entity plan, item = .metric name [entity] [entity] ∧
    (model.entity? entity).isSome = true ∧ subquery name entity = .ok plan ∧
    Yields catalog plan (Holds catalog plan) ∧ Holds catalog plan (.ownEntity entity) ∧
    Holds catalog plan (.metric ⟨name, none⟩)

/-- A join is passed its entity and the items of the group. -/
theorem mem_passedThrough {group : LinkGroup} {content : ColumnContent} :
    content ∈ passedThrough group ↔
      content = .ownEntity group.entity ∨ ∃ item ∈ group.items, content = .item item := by
  simp only [passedThrough, mem_appendNew, List.mem_singleton, List.mem_map, eq_comm]

/-- What a join on an entity needs of a further input, and what the input adds to the join. -/
structure IsJoinable (catalog : Catalog) (model : SemanticModel) (input : JoinedInput) : Prop where
  shared : (model.entity? input.entity).isSome = true
  yields : Yields catalog input.plan (Holds catalog input.plan)
  key : Holds catalog input.plan (.ownEntity input.entity)

/-- If all metrics among the items can be computed, then each has a subquery that can be joined and
holds it. -/
theorem exists_subqueriesFor (computed : ∀ item ∈ items, item.kind = .metric →
      IsComputed catalog subquery model item) :
    ∃ subqueries, subqueriesFor subquery items = .ok subqueries ∧
      (∀ input ∈ subqueries, IsJoinable catalog model input) ∧
      ∀ item ∈ items, item.kind = .metric → ∃ input ∈ subqueries, ∃ inner,
        Holds catalog input.plan inner ∧ seenThrough input.entity inner = some (.item item) := by
  have each : ∀ item ∈ items.filter (·.kind == .metric), ∃ input,
      subqueryFor subquery item item.name (item.subqueryLinks.getD []) = .ok input ∧
        IsJoinable catalog model input ∧ ∃ inner, Holds catalog input.plan inner ∧
          seenThrough input.entity inner = some (.item item) := by
    intro item member
    obtain ⟨inside, isMetric⟩ := List.mem_filter.mp member
    obtain ⟨name, entity, plan, rfl, shared, ok, yields, key, metric⟩ :=
      computed item inside (beq_iff_eq.mp isMetric)
    refine ⟨⟨entity, plan⟩, ?_, ⟨shared, yields, key⟩, _, metric, rfl⟩
    change (subquery name entity).map _ = _
    rw [ok]
    rfl
  obtain ⟨subqueries, ok, alike⟩ := exists_mapM_eq_ok each
  refine ⟨subqueries, ok, fun input among => ?_, fun item member kind => ?_⟩
  · obtain ⟨_, _, joinable, _⟩ := exists_left_of_forall₂ alike among
    exact joinable
  · obtain ⟨input, among, _, holds⟩ := exists_right_of_forall₂ alike
      (List.mem_filter.mpr ⟨member, beq_iff_eq.mpr kind⟩)
    exact ⟨input, among, holds⟩

/-- What a model provides itself it has alone. -/
theorem Served.alone_of_isOwn (served : Served catalog alone model visited items)
    {item : GroupByItem} (member : item ∈ items) (own : isOwn model item = true)
    (timeless : item.isMetricTime = false) : alone model item := by
  cases served with
  | intro _ owned => exact owned item member (isOwn_iff.mp own) timeless

/-- A model offers its own entities when it is read. -/
theorem offersAlone_entity {entity : Entity} (own : entity ∈ model.entities) :
    model.OffersAlone (.entity entity.name []) :=
  .inl ⟨rfl, .inr ⟨entity, own, rfl⟩⟩

/-- An entity that identifies a model is one of its own. -/
theorem exists_identifying {entity : String} (identified : model.isIdentifiedBy entity = true) :
    ∃ own ∈ model.identifyingEntities, own ∈ model.entities ∧ own.name = entity := by
  obtain ⟨own, member, same⟩ := List.any_eq_true.mp identified
  exact ⟨own, member, (List.mem_filter.mp member).1, beq_iff_eq.mp same⟩

/-- What is found under a name is an entity of this name. -/
theorem of_entity? {name : String} {entity : Entity} (found : model.entity? name = some entity) :
    entity ∈ model.entities ∧ entity.name = name := by
  have same : (entity.name == name) = true := by simpa using List.find?_some found
  exact ⟨List.mem_of_find?_eq_some found, beq_iff_eq.mp same⟩

/-- Where an entity is found there is one of this name. -/
theorem exists_entity {entity : String} (found : (model.entity? entity).isSome = true) :
    ∃ own ∈ model.entities, own.name = entity := by
  obtain ⟨own, ok⟩ := Option.isSome_iff_exists.mp found
  exact ⟨own, of_entity? ok⟩

variable {contents : ColumnContent → Prop}

/-- What a model lacks behind an entity is further away, since the model looks able to provide
it. -/
theorem links_ne_nil_of_missing {source target : SemanticModel} {entity : String}
    (found : joinTarget? catalog source entity items visited = some target)
    {item : GroupByItem} (lacking : item ∈ missing target items) : item.links ≠ [] := by
  obtain ⟨among, notOwn⟩ := mem_missing.mp lacking
  obtain ⟨_, _, _, _, able⟩ := of_joinTarget? found
  intro none
  have can := able item among
  rw [canProvide, notOwn, none] at can
  cases can

/-- The items of a group are passed on by the joins on the way, if those of the model are. -/
theorem isLinked_of_mem_linkGroups {group : LinkGroup}
    (linked : ∀ item ∈ items, item.kind ≠ .metric → item.IsLinked)
    (member : group ∈ linkGroups items) {item : GroupByItem} (among : item ∈ group.items) :
    (item.behind group.entity).IsLinked := by
  obtain ⟨inside, kind⟩ := behind_mem_of_mem_linkGroups member among
  exact linked _ inside (by rwa [GroupByItem.kind_behind])

/-- A completed model can be joined once it has been reduced to what is needed through the
entity. -/
theorem isJoinable_pass {source target : SemanticModel} {group : LinkGroup} {right : Dataflow}
    (found : joinTarget? catalog source group.entity group.items visited = some target)
    (yields : Yields catalog right contents)
    (keeps : ∀ content, modelContents target content → contents content)
    (holds : ∀ item ∈ group.items, contents (.item item)) :
    IsJoinable catalog source ⟨group.entity, right.andThen (.pass (passedThrough group))⟩ ∧
      ∀ item ∈ group.items,
        Holds catalog (right.andThen (.pass (passedThrough group))) (.item item) := by
  obtain ⟨shared, _, _, identified, _⟩ := of_joinTarget? found
  have passes : Yields catalog (right.andThen (.pass (passedThrough group)))
      (· ∈ passedThrough group) := by
    apply yields.pass
    intro content wanted
    rcases mem_passedThrough.mp wanted with rfl | ⟨item, among, rfl⟩
    · obtain ⟨entity, _, own, same⟩ := exists_identifying identified
      exact keeps _ (same ▸ offersAlone_entity own)
    · exact holds item among
  refine ⟨⟨shared, passes.held, ?_⟩, fun item among => ?_⟩
  · exact (passes.holds_iff _).mpr (mem_passedThrough.mpr (.inl rfl))
  · exact (passes.holds_iff _).mpr (mem_passedThrough.mpr (.inr ⟨item, among, rfl⟩))

/-- If all items can be provided, then the completed model holds them beside what it held before. -/
theorem provide_yields (distinct : (catalog.manifest.models.map SemanticModel.name).Nodup)
    (served : Served catalog SemanticModel.OffersAlone model visited items)
    (within : IsWithin hops model items)
    (ok : provide catalog subquery hops plan model items visited = .ok result)
    (yields : Yields catalog plan contents)
    (entities : ∀ entity ∈ model.entities, contents (.ownEntity entity.name))
    (own : ∀ item ∈ items, isOwn model item = true → contents (.item item))
    (metrics : ∀ item ∈ missing model items, item.kind = .metric →
      IsComputed catalog subquery model item)
    (linked : ∀ item ∈ missing model items, item.kind ≠ .metric → item.IsLinked)
    (further : ∀ item ∈ missing model items, item.kind ≠ .metric → item.links ≠ []) :
    ∃ provided, Yields catalog result provided ∧
      (∀ content, contents content → provided content) ∧
      ∀ item ∈ items, provided (.item item) := by
  induction served generalizing hops plan result contents with
  | @intro model visited items target _ chosen behind ih =>
      obtain ⟨subqueries, joined, subqueriesOk, each, rfl⟩ := (provide_eq_ok within).mp ok
      obtain ⟨given, sameOk, joinable, computed⟩ := exists_subqueriesFor metrics
      obtain rfl : subqueries = given := Except.ok.inj (subqueriesOk.symm.trans sameOk)
      have serves : ∀ group ∈ linkGroups (missing model items), ∀ input,
          Serves catalog subquery (hops - 1) model visited group input →
          IsJoinable catalog model input ∧ input.entity = group.entity ∧
            ∀ item ∈ group.items, Holds catalog input.plan (.item item) := by
        rintro ⟨entity, inner⟩ member _ ⟨_, right, found, completed, rfl⟩
        obtain ⟨rfl, needed⟩ := mem_linkGroups_missing.mp member
        obtain rfl : target entity = _ := Option.some.inj
          ((joinTarget?_eq_some_iff.mpr (chosen entity needed)).symm.trans found)
        have known := (of_joinTarget? found).2.1
        have isLinked : ∀ item ∈ model.neededThrough entity items, item.IsLinked :=
          fun item among => (isLinked_of_mem_linkGroups linked member among).of_behind
        obtain ⟨provided, yieldsRight, keeps, holds⟩ := ih entity needed (within.behind member)
          completed (.leaf (Catalog.model?_of_mem distinct known))
          (fun entity own => offersAlone_entity own)
          (fun item among own =>
            (behind entity needed).alone_of_isOwn among own (isLinked item among).timeless)
          (fun item lacking isMetric => ((behind_mem_of_mem_linkGroups member
            (mem_missing.mp lacking).1).2 isMetric).elim)
          (fun item lacking _ => isLinked item (mem_missing.mp lacking).1)
          (fun item lacking _ => links_ne_nil_of_missing found lacking)
        obtain ⟨isJoinable, held⟩ := isJoinable_pass found yieldsRight keeps holds
        exact ⟨isJoinable, rfl, held⟩
      have all : ∀ input ∈ subqueries ++ joined, IsJoinable catalog model input := by
        intro input among
        rcases List.mem_append.mp among with among | among
        · exact joinable input among
        · obtain ⟨group, member, made⟩ := exists_left_of_forall₂ each among
          exact (serves group member input made).1
      refine ⟨_, yields.joinTo (fun input among => (all input among).yields)
        fun input among => ⟨?_, (all input among).key⟩, fun content held => .inl held, ?_⟩
      · obtain ⟨entity, own, same⟩ := exists_entity (all input among).shared
        exact same ▸ entities entity own
      · intro item member
        by_cases isOwn : isOwn model item = true
        · exact .inl (own item member isOwn)
        have lacking := mem_missing.mpr ⟨member, Bool.not_eq_true _ ▸ isOwn⟩
        by_cases kind : item.kind = .metric
        · obtain ⟨input, among, holds⟩ := computed item lacking kind
          exact .inr ⟨input, List.mem_append_left _ among, holds⟩
        · obtain ⟨entity, rest, links⟩ := List.exists_cons_of_ne_nil (further item lacking kind)
          have first : item.links.head? = some entity := by
            rw [links, List.head?_cons]
          have outer := GroupByItem.behind_afterFirstLink first
          obtain ⟨group, inGroups, rfl, among⟩ := exists_linkGroup (outer.symm ▸ lacking)
            (by rwa [GroupByItem.afterFirstLink, GroupByItem.kind_withLinks])
          obtain ⟨input, present, made⟩ := exists_right_of_forall₂ each inGroups
          obtain ⟨_, entity, held⟩ := serves group inGroups input made
          refine .inr ⟨input, List.mem_append_right _ present, _, held _ among, ?_⟩
          rw [entity, (isLinked_of_mem_linkGroups linked inGroups among).seenThrough, outer]

end

end MetricQuery.Dataflow

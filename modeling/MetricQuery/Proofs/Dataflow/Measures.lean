import MetricQuery.Proofs.Dataflow.Serving
import MetricQuery.Proofs.Filter.Rendering

/-! # Aggregated measures

A measure can be aggregated by items that it offers, under conditions on items that it offers, if
these can be provided together (`ofMeasure_yields`).
-/

namespace MetricQuery

open Sql

namespace Dataflow

/-- What is grouped by is needed, and so is what conditions read. -/
theorem mem_neededItems {groupBy : List GroupByItem} {conditions : List Condition}
    {item : GroupByItem} :
    item ∈ neededItems groupBy conditions ↔
      item ∈ groupBy ∨ ∃ condition ∈ conditions, item ∈ condition.items := by
  unfold neededItems
  induction conditions generalizing groupBy with
  | nil => simp
  | cons first rest ih =>
      rw [List.foldl_cons, ih, mem_appendNew]
      simp only [List.mem_cons, exists_eq_or_imp, or_assoc]

private theorem foldl_max_le_iff {numbers : List Nat} {start bound : Nat} :
    numbers.foldl max start ≤ bound ↔ start ≤ bound ∧ ∀ number ∈ numbers, number ≤ bound := by
  induction numbers generalizing start with
  | nil => simp
  | cons first rest ih => rw [List.foldl_cons, ih, Nat.max_le, List.forall_mem_cons, and_assoc]

/-- The greatest number of links is bounded exactly if that of each item is. -/
theorem mostLinks_le_iff {items : List GroupByItem} {bound : Nat} :
    mostLinks items ≤ bound ↔ ∀ item ∈ items, item.links.length ≤ bound := by
  rw [mostLinks, foldl_max_le_iff, List.forall_mem_map]
  exact and_iff_right (Nat.zero_le _)

/-- Nothing that is lacked is further away than the most distant item. -/
theorem isWithin_mostLinks (model : SemanticModel) (items : List GroupByItem) :
    IsWithin (mostLinks items) model items :=
  fun item lacking _ => mostLinks_le_iff.mp (Nat.le_refl _) item (mem_missing.mp lacking).1

section

variable {catalog : Catalog} {model : SemanticModel} {measure : Measure}

private theorem timeDimensionOf_eq_some {time : Dimension}
    (along : model.timeDimensionOf measure = some time) :
    time ∈ model.dimensions ∧ time.isTime = true := by
  unfold SemanticModel.timeDimensionOf at along
  split at along
  · exact nomatch along
  · obtain ⟨found, isTime⟩ := Option.filter_eq_some_iff.mp along
    exact ⟨List.mem_of_find?_eq_some found, isTime⟩

/-- Reading a model for a measure also gives the time that the measure is aggregated along. -/
theorem readMeasure_yields (distinct : (catalog.manifest.models.map SemanticModel.name).Nodup)
    (known : model ∈ catalog.manifest.models) (offset : Option OffsetWindow) :
    ∃ contents, Yields catalog (readMeasure model measure offset) contents ∧
      (∀ content, modelContents model content → contents content) ∧
      ∀ time grain part, model.timeDimensionOf measure = some time →
        time.storedGrain.Offers grain part →
        contents (.item (.timeDimension metricTimeName [] grain part)) := by
  have reads := Yields.leaf (Catalog.model?_of_mem distinct known)
  unfold readMeasure
  cases along : model.timeDimensionOf measure with
  | none => exact ⟨_, reads, fun _ held => held, fun _ _ _ absent => nomatch absent⟩
  | some time =>
      obtain ⟨own, isTime⟩ := timeDimensionOf_eq_some along
      refine ⟨_, reads.addMetricTime fun grain part offered => ?_, fun _ held => .inl held, ?_⟩
      · exact .inl ⟨rfl, .inl ⟨time, own, rfl, isTime, offered⟩⟩
      · rintro _ grain part ⟨⟩ offered
        exact .inr ⟨grain, part, offered, rfl⟩

/-- What a measure offers is reached from its model. -/
theorem isReached_of_offered {item : GroupByItem}
    (offered : Element.Offered catalog.manifest model measure item) :
    IsReached catalog.manifest model [] [model.name] item := by
  cases offered with
  | alone offered => exact .inr (.inr (.inl offered))
  | time along offered => exact .inr (.inl rfl)
  | joined joins => exact .inr (.inr (.inr joins))
  | metric => exact .inl rfl

/-- What a model offers when it is read is not the time of a metric, if that name is reserved. -/
theorem OffersAlone.timeless (reserved : catalog.manifest.IsTimeReserved)
    (known : model ∈ catalog.manifest.models) {item : GroupByItem}
    (offered : model.OffersAlone item) : item.isMetricTime = false := by
  rcases offered with ⟨_, offered⟩ | ⟨_, offered⟩
  · exact offered.timeless reserved known
  · exact SemanticModel.Offers.timeless reserved known (.inl offered)

/-- A plan filtered by conditions that find what they read. -/
theorem constrained_yields {plan : Dataflow} {conditions : List Condition}
    {contents : ColumnContent → Prop} (yields : Yields catalog plan contents)
    (held : ∀ condition ∈ conditions, ∀ item ∈ condition.items, contents (.item item)) :
    Yields catalog (constrained plan conditions) contents := by
  unfold constrained
  split
  · exact yields
  · rename_i condition together
    apply yields.constrain
    intro item member
    obtain ⟨part, among, inside⟩ := (Condition.mem_items_of_all together).mp member
    exact held part among item inside

/-- What the plan of a measure or a metric holds. -/
def GroupedContents (groupBy : List GroupByItem) (value : ColumnContent)
    (content : ColumnContent) : Prop :=
  (∃ item ∈ groupBy, content = .item item) ∨ content = value

private theorem provideAll_yields
    (distinct : (catalog.manifest.models.map SemanticModel.name).Nodup)
    (reserved : catalog.manifest.IsTimeReserved) {subquery : SubqueryPlanner}
    {needed : List GroupByItem} (offset : Option OffsetWindow)
    (known : model ∈ catalog.manifest.models)
    (offered : ∀ item ∈ needed, Element.Offered catalog.manifest model measure item)
    (served : Served catalog SemanticModel.OffersAlone model [model.name] needed)
    (computed : ∀ item ∈ needed, item.kind = .metric → IsComputed catalog subquery model item) :
    ∃ complete contents,
      provideAll catalog subquery (readMeasure model measure offset) model needed = .ok complete ∧
      Yields catalog complete contents ∧
      (∀ content, modelContents model content → contents content) ∧
      ∀ item ∈ needed, contents (.item item) := by
  have within := isWithin_mostLinks model needed
  have metrics : ∀ item ∈ missing model needed, item.kind = .metric →
      IsComputed catalog subquery model item :=
    fun item lacking => computed item (mem_missing.mp lacking).1
  have joins : ∀ item ∈ missing model needed, item.kind ≠ .metric →
      Joins catalog.manifest.models model [] [model.name] item := by
    intro item lacking kind
    obtain ⟨member, notOwn⟩ := mem_missing.mp lacking
    exact joins_of_missing (isReached_of_offered (offered item member)) notOwn kind
  obtain ⟨contents, reads, keeps, times⟩ :=
    @readMeasure_yields catalog model measure distinct known offset
  have own : ∀ item ∈ needed, isOwn model item = true → contents (.item item) := by
    intro item member isOwn
    by_cases time : item.isMetricTime = true
    · cases offered item member with
      | alone alone =>
          exact nomatch time.symm.trans (OffersAlone.timeless reserved known alone)
      | time along offered => exact times _ _ _ along offered
      | joined joins => exact nomatch time.symm.trans (joins.isLinked reserved).1.timeless
      | metric => exact nomatch time
    · exact keeps _ (served.alone_of_isOwn member isOwn (Bool.not_eq_true _ ▸ time))
  obtain ⟨subqueries, planned, _⟩ := exists_subqueriesFor metrics
  obtain ⟨complete, ok⟩ : ∃ complete, provideAll catalog subquery
      (readMeasure model measure offset) model needed = .ok complete :=
    exists_provide served within ⟨subqueries, planned⟩
  obtain ⟨provided, yields, before, holds⟩ := provide_yields distinct served within ok reads
    (fun entity own => keeps _ (offersAlone_entity own)) own metrics
    (fun item lacking kind => ((joins item lacking kind).isLinked reserved).1)
    fun item lacking kind => ((joins item lacking kind).isLinked reserved).2.1
  exact ⟨complete, provided, ok, yields, fun content held => before _ (keeps _ held), holds⟩

/-- A measure can be aggregated by items that it offers, under conditions on items that it offers,
if all of them can be provided together. -/
theorem ofMeasure_yields (distinct : (catalog.manifest.models.map SemanticModel.name).Nodup)
    (reserved : catalog.manifest.IsTimeReserved) {name : String} (subquery : SubqueryPlanner)
    {groupBy : List GroupByItem} {conditions : List Condition} (offset : Option OffsetWindow)
    (found : catalog.measure? name = some (model, measure))
    (offered : ∀ item ∈ neededItems groupBy conditions,
      Element.Offered catalog.manifest model measure item)
    (served : Served catalog SemanticModel.OffersAlone model [model.name]
      (neededItems groupBy conditions))
    (computed : ∀ item ∈ neededItems groupBy conditions, item.kind = .metric →
      IsComputed catalog subquery model item) :
    ∃ plan, ofMeasure catalog subquery name groupBy conditions offset = .ok plan ∧
      Yields catalog plan (GroupedContents groupBy (.measure name)) := by
  obtain ⟨known, own, rfl⟩ := Catalog.of_measure? found
  obtain ⟨complete, contents, ok, yields, keeps, holds⟩ :=
    provideAll_yields distinct reserved offset known offered served computed
  have filtered : Yields catalog (constrained complete conditions) contents :=
    constrained_yields yields fun condition among item inside =>
      holds item (mem_neededItems.mpr (.inr ⟨condition, among, inside⟩))
  have passed : Yields catalog ((constrained complete conditions).andThen
      (.pass (.measure measure.name :: groupBy.map ColumnContent.item)))
      (· ∈ ColumnContent.measure measure.name :: groupBy.map ColumnContent.item) := by
    apply filtered.pass
    intro content wanted
    rcases List.mem_cons.mp wanted with rfl | wanted
    · exact keeps _ ⟨measure, own, rfl⟩
    · obtain ⟨item, member, rfl⟩ := List.mem_map.mp wanted
      exact holds item (mem_neededItems.mpr (.inl member))
  have measured : ∀ aggregated ∈ [AggregatedMeasure.mk measure.name measure.aggregation],
      ColumnContent.measure aggregated.measure ∈
        ColumnContent.measure measure.name :: groupBy.map ColumnContent.item := by
    intro aggregated member
    rw [List.mem_singleton.mp member]
    exact List.mem_cons_self
  have aggregates := passed.aggregate measured
  refine ⟨_, by rw [ofMeasure, found]; exact bind_eq_ok.mpr ⟨complete, ok, rfl⟩,
    aggregates.congr fun content => ?_⟩
  simp only [GroupedContents, List.map_cons, List.map_nil, List.mem_cons, List.not_mem_nil,
    or_false, List.mem_map]
  constructor
  · intro present
    rcases present with ⟨rfl | ⟨item, member, rfl⟩, isItem⟩ | rfl
    · exact nomatch isItem
    · exact .inl ⟨item, member, rfl⟩
    · exact .inr rfl
  · intro present
    rcases present with ⟨item, member, rfl⟩ | rfl
    · exact .inl ⟨.inr ⟨item, member, rfl⟩, rfl⟩
    · exact .inr rfl

/-- Without metrics among the items, planning a measure succeeds exactly if the items can be
provided, and otherwise fails since some model on the way has no model to join. -/
theorem exists_ofMeasure_iff {name : String} (subquery : SubqueryPlanner)
    {groupBy : List GroupByItem} {conditions : List Condition} (offset : Option OffsetWindow)
    (found : catalog.measure? name = some (model, measure))
    (none : ∀ item ∈ neededItems groupBy conditions, item.kind ≠ .metric) :
    ((∃ plan, ofMeasure catalog subquery name groupBy conditions offset = .ok plan) ↔
      Served catalog (fun _ _ => True) model [model.name] (neededItems groupBy conditions)) ∧
    ∀ error, ofMeasure catalog subquery name groupBy conditions offset = .error error →
      LacksJoinTarget catalog.manifest model (neededItems groupBy conditions) error := by
  have within := isWithin_mostLinks model (neededItems groupBy conditions)
  rw [ofMeasure, found]
  constructor
  · rw [← exists_provide_iff within none]
    constructor
    · intro succeeds
      obtain ⟨plan, ok⟩ := succeeds
      obtain ⟨complete, ok, _⟩ := bind_eq_ok.mp ok
      exact ⟨complete, ok⟩
    · intro succeeds
      obtain ⟨complete, ok⟩ := succeeds
      exact ⟨_, bind_eq_ok.mpr ⟨complete, ok, rfl⟩⟩
  · intro error failed
    rcases bind_eq_error.mp failed with failed | ⟨_, _, ⟨⟩⟩
    exact lacksJoinTarget_of_provide .first none failed

end

end Dataflow

end MetricQuery

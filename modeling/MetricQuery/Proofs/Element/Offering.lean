import MetricQuery.Catalog
import MetricQuery.Proofs.Collection.Sorting
import MetricQuery.Scope.Resolution

/-! # What is offered

The elements in scope of a measure, said as conditions on items instead of as lists: what a model
offers when it is read (`SemanticModel.OffersAlone`), what joins lead to (`Joins`), and everything
that a measure can be grouped by (`Element.Offered`).
-/

namespace MetricQuery

/-- Whether a time that is stored at a grain can be truncated to another one, or a part extracted
from it, which goes with the stored grain. -/
def Grain.Offers (stored grain : Grain) : Option DatePart → Prop
  | none => grain ∈ stored.coarserOrEqual
  | some part => grain = stored ∧ part.extractableFrom stored = true

/-- A time is offered as it is stored. -/
theorem Grain.offers_self (stored : Grain) : stored.Offers stored none :=
  List.mem_filter.mpr ⟨mem_all stored, decide_eq_true (Nat.le_refl _)⟩

/-- Whether an item is a dimension, behind any links. -/
def Dimension.Offers (dimension : Dimension) : GroupByItem → Prop
  | .dimension name _ => name = dimension.name ∧ dimension.isTime = false
  | .timeDimension name _ grain part =>
    name = dimension.name ∧ dimension.isTime = true ∧ dimension.storedGrain.Offers grain part
  | _ => False

namespace SemanticModel

/-- Whether an item is a dimension or an entity of a model, behind any links. -/
def Offers (model : SemanticModel) (item : GroupByItem) : Prop :=
  (∃ dimension ∈ model.dimensions, dimension.Offers item) ∨
    ∃ entity ∈ model.entities, item = .entity entity.name item.links

/-- Whether a model offers an item when it is read: a dimension or an entity of its own without
links, or a dimension behind an entity that identifies the rows. -/
def OffersAlone (model : SemanticModel) (item : GroupByItem) : Prop :=
  (item.links = [] ∧ model.Offers item) ∨
    (∃ entity ∈ model.identifyingEntities, item.links = [entity.name]) ∧
      ∃ dimension ∈ model.dimensions, dimension.Offers item

end SemanticModel

/-- A dimension offers items of its own name. -/
theorem Dimension.name_of_offers {dimension : Dimension} {item : GroupByItem}
    (offers : dimension.Offers item) : item.name = dimension.name := by
  cases item with
  | dimension => exact offers.1
  | timeDimension => exact offers.1
  | _ => exact offers.elim

/-- Links do not matter for what a dimension offers. -/
@[simp]
theorem Dimension.offers_withLinks {dimension : Dimension} {links : List String}
    {item : GroupByItem} : dimension.Offers (item.withLinks links) ↔ dimension.Offers item := by
  cases item <;> exact Iff.rfl

/-- Links do not matter for what a model offers. -/
@[simp]
theorem SemanticModel.offers_withLinks {model : SemanticModel} {links : List String}
    {item : GroupByItem} : model.Offers (item.withLinks links) ↔ model.Offers item := by
  unfold Offers
  refine or_congr (by simp only [Dimension.offers_withLinks]) ?_
  cases item <;> simp [GroupByItem.withLinks, GroupByItem.links]

/-- Items that joins lead to from a model, which was reached over a path of entities and by visiting
models, as they are seen from there. No path uses an entity name or a model twice, and the entity
that a model was joined on is not offered again. -/
inductive Joins (models : List SemanticModel) :
    (source : SemanticModel) → (path visited : List String) → GroupByItem → Prop where
  | target {source : SemanticModel} {path visited : List String} (entity : Entity)
      (target : SemanticModel) {item : GroupByItem}
      (own : entity ∈ source.entities) (unused : entity.name ∉ path)
      (known : target ∈ models) (unvisited : target.name ∉ visited)
      (identified : target.isIdentifiedBy entity.name = true)
      (plain : item.links = []) (offered : target.Offers item)
      (other : item ≠ .entity entity.name []) :
      Joins models source path visited (item.behind entity.name)
  | further {source : SemanticModel} {path visited : List String} (entity : Entity)
      (target : SemanticModel) {item : GroupByItem}
      (own : entity ∈ source.entities) (unused : entity.name ∉ path)
      (known : target ∈ models) (unvisited : target.name ∉ visited)
      (identified : target.isIdentifiedBy entity.name = true)
      (joins : Joins models target (path ++ [entity.name]) (visited ++ [target.name]) item) :
      Joins models source path visited (item.behind entity.name)

namespace Element

/-- The items of a time are its grains and parts. -/
theorem mem_items_ofTime {name : String} {stored : Grain} {links : List String}
    {definedIn : Option String} {traits : List ElementTrait} {item : GroupByItem} :
    item ∈ (ofTime name stored links definedIn traits).map Element.item ↔
      ∃ grain part, stored.Offers grain part ∧ item = .timeDimension name links grain part := by
  simp only [ofTime, List.map_append, List.map_map, List.mem_append, List.mem_map,
    Function.comp_apply, List.mem_filter]
  constructor
  · intro given
    rcases given with ⟨grain, coarser, rfl⟩ | ⟨part, ⟨-, extractable⟩, rfl⟩
    · exact ⟨grain, none, coarser, rfl⟩
    · exact ⟨stored, some part, ⟨rfl, extractable⟩, rfl⟩
  · intro offers
    rcases offers with ⟨grain, _ | part, offered, rfl⟩
    · exact .inl ⟨grain, offered, rfl⟩
    · obtain ⟨rfl, extractable⟩ := offered
      exact .inr ⟨part, ⟨DatePart.mem_all part, extractable⟩, rfl⟩

/-- The items of the dimensions of a model are those that they offer, behind the given links. -/
theorem mem_items_ofDimensions {model : SemanticModel} {links : List String}
    {traits : List ElementTrait} {item : GroupByItem} :
    item ∈ (ofDimensions model links traits).map Element.item ↔
      item.links = links ∧ ∃ dimension ∈ model.dimensions, dimension.Offers item := by
  simp only [ofDimensions, List.map_flatMap, List.mem_flatMap]
  rw [← exists_and_left]
  refine exists_congr fun dimension => ?_
  rw [and_left_comm]
  refine and_congr_right fun _ => ?_
  split
  · rename_i time
    rw [mem_items_ofTime]
    constructor
    · intro offers
      obtain ⟨grain, part, offered, rfl⟩ := offers
      exact ⟨rfl, rfl, time, offered⟩
    · intro offers
      obtain ⟨rfl, offered⟩ := offers
      cases item with
      | timeDimension name links grain part =>
          obtain ⟨rfl, -, offered⟩ := offered
          exact ⟨grain, part, offered, rfl⟩
      | dimension name links => exact absurd time (Bool.not_eq_true _ ▸ offered.2)
      | _ => exact offered.elim
  · rename_i plain
    rw [List.map_singleton, List.mem_singleton]
    constructor
    · rintro rfl
      exact ⟨rfl, rfl, Bool.not_eq_true _ ▸ plain⟩
    · intro offers
      obtain ⟨rfl, offered⟩ := offers
      cases item with
      | dimension name links =>
          obtain ⟨rfl, -⟩ := offered
          rfl
      | timeDimension name links grain part => exact absurd offered.2.1 plain
      | _ => exact offered.elim

/-- What is listed for a model alone it offers when it is read. -/
theorem offersAlone_of_mem_ofModel {model : SemanticModel} {item : GroupByItem}
    (member : item ∈ (ofModel model).map Element.item) : model.OffersAlone item := by
  simp only [ofModel, List.map_append, List.map_flatMap, List.mem_append, List.mem_flatMap,
    mem_items_ofDimensions] at member
  rcases member with ⟨entity, identifying, behind, offered⟩ | own
  · exact .inr ⟨⟨entity, identifying, behind⟩, offered⟩
  · simp only [List.map_map, List.mem_map, Function.comp_apply] at own
    obtain ⟨entity, own, rfl⟩ := own
    exact .inl ⟨rfl, .inr ⟨entity, own, rfl⟩⟩

/-- At the end of a path a model offers what it has, behind the path, other than the entity that it
was joined on. -/
theorem offers_of_mem_ofTarget {model : SemanticModel} {path : List String} {last : String}
    {item : GroupByItem}
    (member : item ∈ (ofTarget model (path ++ [last])).map Element.item) :
    item.links = path ++ [last] ∧ model.Offers item ∧ item.withLinks [] ≠ .entity last [] := by
  simp only [ofTarget, List.map_append, List.mem_append, mem_items_ofDimensions] at member
  rcases member with ⟨behind, dimension, own, offered⟩ | own
  · refine ⟨behind, .inl ⟨dimension, own, offered⟩, ?_⟩
    intro same
    rw [← @Dimension.offers_withLinks dimension [], same] at offered
    exact offered
  · simp only [List.map_map, List.mem_map, List.mem_filter, Function.comp_apply] at own
    obtain ⟨entity, ⟨own, other⟩, rfl⟩ := own
    refine ⟨rfl, .inr ⟨entity, own, rfl⟩, ?_⟩
    rintro ⟨⟩
    simp at other

private theorem joins_of_mem_ofJoins {models : List SemanticModel} {hops : Nat}
    {source : SemanticModel}
    {path visited : List String} {item : GroupByItem}
    (member : item ∈ (ofJoins models hops source path visited).map Element.item) :
    ∃ inner, Joins models source path visited inner ∧
      item = inner.withLinks (path ++ inner.links) := by
  induction hops generalizing source path visited with
  | zero => exact nomatch member
  | succ hops ih =>
      simp only [ofJoins, List.map_flatMap, List.map_append, List.mem_flatMap, List.mem_filter,
        List.mem_append, Bool.and_eq_true, Bool.not_eq_true', List.contains_eq_mem,
        decide_eq_false_iff_not] at member
      obtain ⟨entity, ⟨own, unused⟩, target, ⟨known, unvisited, identified⟩, member⟩ := member
      rcases member with here | behind
      · obtain ⟨links, offered, other⟩ := offers_of_mem_ofTarget here
        refine ⟨(item.withLinks []).behind entity.name, ?_, ?_⟩
        · exact .target entity target own unused known unvisited identified
            (GroupByItem.links_withLinks _ _) (SemanticModel.offers_withLinks.mpr offered) other
        · simp [GroupByItem.behind, ← links]
      · obtain ⟨inner, joins, rfl⟩ := ih behind
        exact ⟨inner.behind entity.name,
          .further entity target own unused known unvisited identified joins,
          by simp [GroupByItem.behind]⟩

/-- What a measure of a model can be grouped by. -/
inductive Offered (manifest : Manifest) (model : SemanticModel) (measure : Measure) :
    GroupByItem → Prop where
  | alone {item : GroupByItem} (offered : model.OffersAlone item) :
      Offered manifest model measure item
  | time {time : Dimension} {grain : Grain} {part : Option DatePart}
      (along : model.timeDimensionOf measure = some time)
      (offered : time.storedGrain.Offers grain part) :
      Offered manifest model measure (.timeDimension metricTimeName [] grain part)
  | joined {item : GroupByItem} (joins : Joins manifest.models model [] [model.name] item) :
      Offered manifest model measure item
  | metric (entity : Entity) (metric : Metric) (owner : SemanticModel)
      (own : entity ∈ model.entities) (known : metric ∈ manifest.metrics)
      (simple : metric.kind = .simple) (owned : ownerOf manifest.models metric = some owner)
      (shared : (owner.entity? entity.name).isSome = true) :
      Offered manifest model measure (.metric metric.name [entity.name] [entity.name])

private theorem offered_of_mem_ofMetrics {manifest : Manifest} {model : SemanticModel}
    {measure : Measure} {item : GroupByItem}
    (member : item ∈ (ofMetrics manifest.models manifest.metrics model).map Element.item) :
    Offered manifest model measure item := by
  simp only [ofMetrics, List.map_flatMap, List.mem_flatMap, List.mem_map, List.mem_filterMap,
    List.mem_filter, beq_iff_eq] at member
  obtain ⟨entity, own, element, ⟨metric, ⟨known, simple⟩, made⟩, rfl⟩ := member
  cases owned : ownerOf manifest.models metric with
  | none =>
      rw [owned] at made
      cases made
  | some owner =>
      rw [owned] at made
      by_cases shared : (owner.entity? entity.name).isSome = true
      · simp only [shared, ↓reduceIte, Option.some.injEq] at made
        rw [← made]
        exact .metric entity metric owner own known simple owned shared
      · simp only [shared, Bool.false_eq_true, ↓reduceIte] at made
        cases made

/-- What a measure offers is listed for its model, for its time, for joins or for metrics. -/
theorem offers_elementsOf_iff {catalog : Catalog} {name : String} {model : SemanticModel}
    {measure : Measure} {item : GroupByItem}
    (found : catalog.measure? name = some (model, measure)) :
    Scope.offers (catalog.elementsOf name) item = true ↔
      item ∈ (ofModel model ++ ofMetricTime model measure ++
        ofJoins catalog.manifest.models catalog.maxHops model [] [model.name] ++
        ofMetrics catalog.manifest.models catalog.manifest.metrics model).map Element.item := by
  simp only [Catalog.elementsOf, found, Scope.offers, ofMeasure, List.any_eq_true, beq_iff_eq,
    mem_sortedDistinct, List.mem_map]

/-- What is found among the elements of a measure is offered by it. -/
theorem offered_of_offers {catalog : Catalog} {name : String} {model : SemanticModel}
    {measure : Measure} {item : GroupByItem}
    (found : catalog.measure? name = some (model, measure))
    (offered : Scope.offers (catalog.elementsOf name) item = true) :
    Offered catalog.manifest model measure item := by
  obtain ⟨element, among, rfl⟩ := List.mem_map.mp ((offers_elementsOf_iff found).mp offered)
  rw [List.mem_append, List.mem_append, List.mem_append] at among
  rcases among with ((alone | time) | joined) | metric
  · exact .alone (offersAlone_of_mem_ofModel (List.mem_map_of_mem alone))
  · unfold ofMetricTime at time
    split at time
    · exact nomatch time
    · rename_i along
      obtain ⟨grain, part, offered, same⟩ := mem_items_ofTime.mp (List.mem_map_of_mem time)
      rw [same]
      exact .time along offered
  · obtain ⟨inner, joins, same⟩ := joins_of_mem_ofJoins (List.mem_map_of_mem joined)
    rw [same, List.nil_append, GroupByItem.withLinks_links]
    exact .joined joins
  · exact offered_of_mem_ofMetrics (List.mem_map_of_mem metric)

end Element

end MetricQuery

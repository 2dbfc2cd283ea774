import Mathlib.Data.List.Nodup
import MetricQuery.Proofs.Element.Defining

/-! # Paths of joins

Which items joins lead to, said by the paths of joins from the model of a measure (`Join.IsPath`)
instead of by the search for them. Joins lead to an element exactly if a path that is no longer than
the reach ends in a model that offers its item (`Element.mem_ofJoins`,
`Element.ofMeasure_joined`).
-/

namespace MetricQuery

/-- A join through an entity to a model. -/
structure Join where
  entity : String
  target : SemanticModel

namespace Join

/-- The entities that joins go through, as the links of what they lead to. -/
def links (joins : List Join) : List String := joins.map Join.entity

/-- The names of the models that joins lead to. -/
def targets (joins : List Join) : List String := joins.map fun join => join.target.name

/-- Whether joins can follow one another from a model on: each goes through an entity of the model
before it, to a model that this entity identifies. -/
inductive Leads (models : List SemanticModel) : (source : SemanticModel) → List Join → Prop where
  | nil {source : SemanticModel} : Leads models source []
  | cons {source : SemanticModel} (entity : Entity) {target : SemanticModel} {rest : List Join}
      (own : entity ∈ source.entities) (known : target ∈ models)
      (identified : target.isIdentifiedBy entity.name = true)
      (leads : Leads models target rest) : Leads models source (⟨entity.name, target⟩ :: rest)

/-- Whether joins are a path from a model: they can follow one another, go through different
entities and lead to different models, none of which is the first one. -/
structure IsPath (models : List SemanticModel) (source : SemanticModel) (joins : List Join) :
    Prop where
  leads : Leads models source joins
  entities : (links joins).Nodup
  models : (source.name :: targets joins).Nodup

/-- Whether joins can follow one another from a model on that was reached over a path of entities
and by visiting models: each avoids everything before it. -/
inductive Continues (models : List SemanticModel) :
    (source : SemanticModel) → (path visited : List String) → List Join → Prop where
  | nil {source : SemanticModel} {path visited : List String} :
      Continues models source path visited []
  | cons {source : SemanticModel} {path visited : List String} (entity : Entity)
      {target : SemanticModel} {rest : List Join}
      (own : entity ∈ source.entities) (unused : entity.name ∉ path)
      (known : target ∈ models) (unvisited : target.name ∉ visited)
      (identified : target.isIdentifiedBy entity.name = true)
      (continues : Continues models target (path ++ [entity.name]) (visited ++ [target.name])
        rest) : Continues models source path visited (⟨entity.name, target⟩ :: rest)

/-- Avoiding everything before, join by join, is having no repeats in the whole. -/
theorem continues_iff {models : List SemanticModel} {source : SemanticModel}
    {path visited : List String} (once : path.Nodup) (fresh : visited.Nodup) {joins : List Join} :
    Continues models source path visited joins ↔ Leads models source joins ∧
      (path ++ links joins).Nodup ∧ (visited ++ targets joins).Nodup := by
  induction joins generalizing source path visited with
  | nil =>
      refine ⟨fun _ => ⟨.nil, ?_, ?_⟩, fun _ => .nil⟩
      · exact (List.append_nil path).symm ▸ once
      · exact (List.append_nil visited).symm ▸ fresh
  | cons join rest ih =>
      have longer : path ++ links (join :: rest) = path ++ [join.entity] ++ links rest :=
        List.append_cons ..
      have further : visited ++ targets (join :: rest) =
          visited ++ [join.target.name] ++ targets rest := List.append_cons ..
      rw [longer, further]
      constructor
      · intro continues
        cases continues with
        | cons entity own unused known unvisited identified continues =>
            have onceHere : (path ++ [entity.name]).Nodup :=
              List.concat_eq_append ▸ once.concat unused
            have freshHere : (visited ++ [_]).Nodup :=
              List.concat_eq_append ▸ fresh.concat unvisited
            obtain ⟨leads, entities, targets⟩ := (ih onceHere freshHere).mp continues
            exact ⟨.cons entity own known identified leads, entities, targets⟩
      · intro given
        obtain ⟨leads, entities, targets⟩ := given
        have onceHere := (List.nodup_append.mp entities).1
        have freshHere := (List.nodup_append.mp targets).1
        cases leads with
        | cons entity own known identified leads =>
            refine .cons entity own (fun used => ?_) known (fun seen => ?_) identified
              ((ih onceHere freshHere).mpr ⟨leads, entities, targets⟩)
            · exact (List.nodup_append.mp onceHere).2.2 _ used _ List.mem_cons_self rfl
            · exact (List.nodup_append.mp freshHere).2.2 _ seen _ List.mem_cons_self rfl

private theorem isPath_iff_continues {models : List SemanticModel} {source : SemanticModel}
    {joins : List Join} :
    IsPath models source joins ↔ Continues models source [] [source.name] joins := by
  rw [continues_iff List.nodup_nil (List.nodup_singleton _)]
  exact ⟨fun path => ⟨path.leads, path.entities, path.models⟩,
    fun continues => ⟨continues.1, continues.2.1, continues.2.2⟩⟩

end Join

/-- What is marked on an item at the end of some joins. -/
def ElementTrait.ofJoins (joins : Nat) (item : GroupByItem) : List ElementTrait :=
  .joined :: (if 1 < joins then [.multiHop] else []) ++
    (if item.part.isSome then [.datePart] else [])

/-- Whether an element is what the last model of some joins offers there: one of its dimensions, or
one of its entities other than the one that it was joined on. -/
structure Element.IsBehind (before : List Join) (last : Join) (element : Element) : Prop where
  links : element.item.links = Join.links (before ++ [last])
  offered : last.target.Offers element.item
  other : element.item ≠ .entity last.entity element.item.links
  definedIn : element.definedIn = some last.target.name
  traits : element.traits = ElementTrait.ofJoins (before.length + 1) element.item

namespace Element

/-! ## At the end of a path -/

section

variable {model : SemanticModel} {path : List String} {last : String} {traits : List ElementTrait}
  {element : Element}

/-- A date part of a time has this as a further trait. -/
theorem traits_of_mem_ofTime {name : String} {stored : Grain} {links : List String}
    {definedIn : Option String} (member : element ∈ ofTime name stored links definedIn traits) :
    element.traits = traits ++ if element.item.part.isSome then [.datePart] else [] := by
  rcases List.mem_append.mp member with truncated | extracted
  · obtain ⟨_, _, rfl⟩ := List.mem_map.mp truncated
    exact (List.append_nil _).symm
  · obtain ⟨_, _, rfl⟩ := List.mem_map.mp extracted
    rfl

/-- A date part of a dimension has this as a further trait. -/
theorem traits_of_mem_ofDimensions {links : List String}
    (member : element ∈ ofDimensions model links traits) :
    element.traits = traits ++ if element.item.part.isSome then [.datePart] else [] := by
  obtain ⟨dimension, _, member⟩ := List.mem_flatMap.mp member
  split at member
  · exact traits_of_mem_ofTime member
  · rw [List.mem_singleton.mp member]
    exact (List.append_nil _).symm

/-- What stands behind joins has the traits of its number of joins. -/
theorem traits_of_mem_ofTarget (member : element ∈ ofTarget model path) :
    element.traits = ElementTrait.ofJoins path.length element.item := by
  have marked : (if 1 < path.length then [.joined, .multiHop] else [ElementTrait.joined]) =
      .joined :: if 1 < path.length then [.multiHop] else [] := by split <;> rfl
  rcases List.mem_append.mp member with dimension | entity
  · rw [traits_of_mem_ofDimensions dimension, marked]
    rfl
  · obtain ⟨entity, _, rfl⟩ := List.mem_map.mp entity
    rw [marked]
    exact (List.append_nil _).symm

/-- The items at the end of a path are those that the model offers, other than the entity that it
was joined on. -/
theorem mem_items_ofTarget {item : GroupByItem} :
    item ∈ (ofTarget model (path ++ [last])).map Element.item ↔ item.links = path ++ [last] ∧
      model.Offers item ∧ item ≠ .entity last item.links := by
  constructor
  · intro member
    obtain ⟨links, offered, other⟩ := offers_of_mem_ofTarget member
    refine ⟨links, offered, fun same => other ?_⟩
    rw [same]
    rfl
  · intro given
    obtain ⟨links, offered, other⟩ := given
    rw [ofTarget, List.map_append, List.mem_append, mem_items_ofDimensions]
    rcases offered with dimension | ⟨entity, own, same⟩
    · exact .inl ⟨links, dimension⟩
    · refine .inr (List.mem_map.mpr ⟨_, List.mem_map.mpr ⟨entity, ?_, rfl⟩, ?_⟩)
      · refine List.mem_filter.mpr ⟨own, ?_⟩
        rw [List.getLast?_concat, bne_iff_ne, ne_eq, Option.some.injEq]
        rintro rfl
        exact other same
      · rw [same, links]

/-- The elements at the end of a path. -/
theorem isBehind_iff {before : List Join} {last : Join} :
    element.IsBehind before last ↔
      element ∈ ofTarget last.target (Join.links (before ++ [last])) := by
  have path : Join.links (before ++ [last]) = Join.links before ++ [last.entity] :=
    List.map_append
  have length : (Join.links before ++ [last.entity]).length = before.length + 1 := by
    rw [List.length_append, List.length_singleton, Join.links, List.length_map]
  rw [path]
  constructor
  · intro behind
    have listed := mem_items_ofTarget.mpr ⟨path ▸ behind.links, behind.offered, behind.other⟩
    obtain ⟨found, member, item⟩ := List.mem_map.mp listed
    have definedIn : found.definedIn = element.definedIn :=
      (definedIn_of_mem_ofTarget member).trans behind.definedIn.symm
    have traits : found.traits = element.traits := by
      rw [traits_of_mem_ofTarget member, behind.traits, item, length]
    have same : found = element := by
      cases found
      cases element
      congr
    exact same ▸ member
  · intro member
    obtain ⟨links, offered, other⟩ := mem_items_ofTarget.mp (List.mem_map_of_mem member)
    refine ⟨path ▸ links, offered, other, definedIn_of_mem_ofTarget member, ?_⟩
    rw [traits_of_mem_ofTarget member, length]

end

/-! ## Without a path -/

section

variable {model : SemanticModel} {element : Element}

private theorem not_joined_of_mem_ofModel (member : element ∈ ofModel model) :
    .joined ∉ element.traits := by
  rcases List.mem_append.mp member with dimension | entity
  · obtain ⟨_, _, member⟩ := List.mem_flatMap.mp dimension
    rw [traits_of_mem_ofDimensions member]
    split <;> decide
  · obtain ⟨_, _, rfl⟩ := List.mem_map.mp entity
    exact fun joined => nomatch List.mem_singleton.mp joined

private theorem not_joined_of_mem_ofMetricTime {measure : Measure}
    (member : element ∈ ofMetricTime model measure) : .joined ∉ element.traits := by
  unfold ofMetricTime at member
  split at member
  · exact nomatch member
  · rw [traits_of_mem_ofTime member]
    split <;> decide

private theorem kind_of_mem_ofMetrics {models : List SemanticModel} {metrics : List Metric}
    (member : element ∈ ofMetrics models metrics model) : element.item.kind = .metric := by
  obtain ⟨entity, _, member⟩ := List.mem_flatMap.mp member
  obtain ⟨metric, _, made⟩ := List.mem_filterMap.mp member
  split at made
  · cases made
  · split at made
    · obtain ⟨⟩ := made
      rfl
    · cases made

end

/-! ## Along the joins -/

/-- The search finds what stands at the end of joins that continue where it starts. -/
theorem mem_ofJoins {models : List SemanticModel} {hops : Nat} {source : SemanticModel}
    {path visited : List String} {element : Element} :
    element ∈ ofJoins models hops source path visited ↔ ∃ before last, before.length < hops ∧
      Join.Continues models source path visited (before ++ [last]) ∧
      element ∈ ofTarget last.target (path ++ Join.links (before ++ [last])) := by
  induction hops generalizing source path visited with
  | zero => exact ⟨nofun, fun ⟨_, _, absurd, _⟩ => (Nat.not_lt_zero _ absurd).elim⟩
  | succ hops ih =>
      simp only [ofJoins, List.mem_flatMap, List.mem_filter, List.mem_append, Bool.and_eq_true,
        Bool.not_eq_true', List.contains_eq_mem, decide_eq_false_iff_not]
      constructor
      · intro given
        obtain ⟨entity, ⟨own, unused⟩, target, ⟨known, unvisited, identified⟩, member⟩ := given
        rcases member with here | behind
        · exact ⟨[], ⟨entity.name, target⟩, Nat.succ_pos hops,
            .cons entity own unused known unvisited identified .nil, here⟩
        · obtain ⟨before, last, short, continues, member⟩ := ih.mp behind
          rw [List.append_assoc] at member
          exact ⟨⟨entity.name, target⟩ :: before, last, Nat.succ_lt_succ short,
            .cons entity own unused known unvisited identified continues, member⟩
      · intro given
        obtain ⟨before, last, short, continues, member⟩ := given
        cases before with
        | nil =>
            cases continues with
            | cons entity own unused known unvisited identified _ =>
                exact ⟨entity, ⟨own, unused⟩, _, ⟨known, unvisited, identified⟩, .inl member⟩
        | cons first before =>
            cases continues with
            | cons entity own unused known unvisited identified continues =>
                refine ⟨entity, ⟨own, unused⟩, _, ⟨known, unvisited, identified⟩, .inr ?_⟩
                refine ih.mpr ⟨before, last, Nat.lt_of_succ_lt_succ short, continues, ?_⟩
                rwa [List.append_assoc]

/-- What joins lead to from a model, with at most `hops` of them, is what stands at the end of the
paths from there. -/
theorem mem_ofJoins_iff_isPath {models : List SemanticModel} {hops : Nat} {model : SemanticModel}
    {element : Element} :
    element ∈ ofJoins models hops model [] [model.name] ↔ ∃ before last,
      (before ++ [last]).length ≤ hops ∧ Join.IsPath models model (before ++ [last]) ∧
        element.IsBehind before last := by
  rw [mem_ofJoins]
  refine exists₂_congr fun before last => ?_
  rw [List.length_append, List.length_singleton, Nat.succ_le_iff, Join.isPath_iff_continues,
    isBehind_iff, List.nil_append]

/-- **Elements behind joins.** What a measure can be grouped by through joins, apart from metrics,
is what stands at the end of the paths of joins from its model that are no longer than the reach.
All that it can be grouped by is in order, each element once. -/
theorem ofMeasure_joined (manifest : Manifest) (hops : Nat) (model : SemanticModel)
    (measure : Measure) :
    (∀ element, element ∈ ofMeasure manifest hops model measure ∧ .joined ∈ element.traits ∧
        element.item.kind ≠ .metric ↔ ∃ before last, (before ++ [last]).length ≤ hops ∧
          Join.IsPath manifest.models model (before ++ [last]) ∧ element.IsBehind before last) ∧
      (ofMeasure manifest hops model measure).Pairwise
        (fun first second => (compare first second).isLE = true) ∧
      (ofMeasure manifest hops model measure).Nodup := by
  refine ⟨fun element => ?_, pairwise_sortedDistinct _, nodup_sortedDistinct _⟩
  rw [← mem_ofJoins_iff_isPath, ofMeasure, mem_sortedDistinct, List.mem_append, List.mem_append,
    List.mem_append]
  constructor
  · intro given
    obtain ⟨((alone | time) | joins) | metric, joined, other⟩ := given
    · exact (not_joined_of_mem_ofModel alone joined).elim
    · exact (not_joined_of_mem_ofMetricTime time joined).elim
    · exact joins
    · exact (other (kind_of_mem_ofMetrics metric)).elim
  · intro joins
    obtain ⟨before, last, _, _, behind⟩ := mem_ofJoins_iff_isPath.mp joins
    refine ⟨.inl (.inr joins), ?_, behind.offered.kind_ne_metric⟩
    rw [behind.traits]
    exact List.mem_cons_self

end Element

end MetricQuery

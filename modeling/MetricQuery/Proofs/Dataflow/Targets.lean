import MetricQuery.Dataflow.Joining
import MetricQuery.Proofs.Element.Links

/-! # Which models are joined

The items that a model lacks come from one model for each entity in front of them. What a model
provides itself, what it needs through an entity, and which model is joined for it are said here as
conditions on entities and dimensions (`SemanticModel.Provides`, `SemanticModel.neededThrough`,
`Manifest.IsFirstJoinTarget`), apart from the tests that planning makes, which decide them
(`isOwn_iff`, `mem_linkGroups_missing`, `joinTarget?_eq_some_iff`).
-/

namespace MetricQuery

namespace SemanticModel

/-- Whether a model has a dimension or an entity of the name that an item has. -/
def HasElement (model : SemanticModel) : GroupByItem → Prop
  | .dimension name _ | .timeDimension name _ _ _ =>
    ∃ dimension ∈ model.dimensions, dimension.name = name
  | .entity name _ => ∃ entity ∈ model.entities, entity.name = name
  | .metric _ _ _ => False

/-- Whether a model is taken to provide an item itself: the time of the metric, and an element of
its own that stands behind no entity, or behind a single one that identifies the rows. -/
def Provides (model : SemanticModel) (item : GroupByItem) : Prop :=
  item.isMetricTime = true ∨ model.HasElement item ∧ (item.links = [] ∨
    ∃ entity ∈ model.entities, entity.kind ≠ .foreign ∧ item.links = [entity.name])

/-- Whether a model looks able to provide an item: it does so itself, or the first entity in front
of the item is one of its own. -/
def LooksAble (model : SemanticModel) (item : GroupByItem) : Prop :=
  model.Provides item ∨ ∃ entity ∈ model.entities, item.links.head? = some entity.name

/-- An entity is found exactly if a model has one of the name. -/
theorem isSome_entity?_iff {model : SemanticModel} {entity : String} :
    (model.entity? entity).isSome = true ↔ ∃ own ∈ model.entities, own.name = entity := by
  simp only [entity?, List.find?_isSome, beq_iff_eq]

private theorem isSome_dimension?_iff {model : SemanticModel} {name : String} :
    (model.dimension? name).isSome = true ↔
      ∃ dimension ∈ model.dimensions, dimension.name = name := by
  simp only [dimension?, List.find?_isSome, beq_iff_eq]

/-- The entities that identify the rows of a model are those that are not foreign to it. -/
theorem isIdentifiedBy_iff {model : SemanticModel} {entity : String} :
    model.isIdentifiedBy entity = true ↔
      ∃ own ∈ model.entities, own.kind ≠ .foreign ∧ own.name = entity := by
  simp only [isIdentifiedBy, identifyingEntities, EntityKind.isIdentifying, List.any_eq_true,
    List.mem_filter, bne_iff_ne, beq_iff_eq, and_assoc]

end SemanticModel

namespace Dataflow

/-- What reading a model provides is decided by its elements. -/
theorem isOwn_iff {model : SemanticModel} {item : GroupByItem} :
    isOwn model item = true ↔ model.Provides item := by
  have defined : defines model item = true ↔ model.HasElement item := by
    cases item with
    | dimension | timeDimension => exact SemanticModel.isSome_dimension?_iff
    | entity => exact SemanticModel.isSome_entity?_iff
    | metric => exact ⟨nofun, False.elim⟩
  rw [isOwn, Bool.or_eq_true, Bool.and_eq_true, defined, SemanticModel.Provides]
  refine or_congr_right (and_congr_right fun _ => ?_)
  rcases item.links with _ | ⟨first, _ | ⟨second, rest⟩⟩
  · simp
  · simp [SemanticModel.isIdentifiedBy_iff, @eq_comm _ first]
  · simp

instance (model : SemanticModel) (item : GroupByItem) : Decidable (model.Provides item) :=
  decidable_of_iff _ isOwn_iff

/-- The check refuses exactly the items the model does not provide. -/
theorem isOwn_eq_false_iff {model : SemanticModel} {item : GroupByItem} :
    isOwn model item = false ↔ ¬model.Provides item := by
  rw [← isOwn_iff, Bool.not_eq_true]

/-- Whether a model looks able to provide an item is decided by its elements. -/
theorem canProvide_iff {model : SemanticModel} {item : GroupByItem} :
    canProvide model item = true ↔ model.LooksAble item := by
  rw [canProvide, Bool.or_eq_true, isOwn_iff, SemanticModel.LooksAble]
  refine or_congr_right ?_
  cases item.links with
  | nil => simp
  | cons entity rest => simp [SemanticModel.isSome_entity?_iff, @eq_comm _ entity]

end Dataflow

/-! ## Items needed through an entity -/

/-- The items that a model does not provide itself and that stand behind an entity, in order and as
they are seen from behind it. Metrics are computed by themselves. -/
def SemanticModel.neededThrough (model : SemanticModel) (entity : String)
    (items : List GroupByItem) : List GroupByItem :=
  (items.filter fun item => item.kind ≠ .metric ∧ item.links.head? = some entity ∧
    ¬model.Provides item).map GroupByItem.afterFirstLink

namespace Dataflow

/-- The items that a model does not provide itself. -/
def missing (model : SemanticModel) (items : List GroupByItem) : List GroupByItem :=
  items.filter (!isOwn model ·)

/-- A model lacks what is needed and not its own. -/
theorem mem_missing {model : SemanticModel} {items : List GroupByItem} {item : GroupByItem} :
    item ∈ missing model items ↔ item ∈ items ∧ isOwn model item = false := by
  rw [missing, List.mem_filter, Bool.not_eq_true']

/-- There is a group for each entity that comes first in front of some item, with the items behind
it. -/
theorem mem_linkGroups {items : List GroupByItem} {group : LinkGroup} :
    group ∈ linkGroups items ↔
      (∃ item ∈ items, item.kind ≠ .metric ∧ item.links.head? = some group.entity) ∧
        group.items = (items.filter fun item => item.kind != .metric &&
          item.links.head? == some group.entity).map GroupByItem.afterFirstLink := by
  have linked : ∀ entity, items.filter (fun item => item.kind != .metric &&
      item.links.head? == some entity) =
      (items.filter fun item => item.kind != .metric && !item.links.isEmpty).filter
        fun item => item.links.head? == some entity := by
    intro entity
    rw [List.filter_filter]
    refine List.filter_congr fun item _ => ?_
    cases item.links <;> simp [Bool.and_comm]
  simp only [linkGroups, List.mem_map, List.mem_eraseDups, List.mem_filterMap, List.mem_filter]
  constructor
  · intro present
    obtain ⟨entity, ⟨item, ⟨member, kept⟩, first⟩, rfl⟩ := present
    refine ⟨⟨item, member, ?_, first⟩, by rw [linked]⟩
    exact bne_iff_ne.mp (Bool.and_eq_true_iff.mp kept).1
  · intro present
    obtain ⟨⟨item, member, kind, first⟩, same⟩ := present
    refine ⟨group.entity, ⟨item, ⟨member, ?_⟩, first⟩, ?_⟩
    · cases links : item.links with
      | nil => simp [links] at first
      | cons entity rest => simp [kind]
    · rw [← linked, ← same]

/-- The items of a group are those needed through its entity, seen from behind it. -/
theorem behind_mem_of_mem_linkGroups {items : List GroupByItem} {group : LinkGroup}
    (member : group ∈ linkGroups items) {item : GroupByItem} (among : item ∈ group.items) :
    item.behind group.entity ∈ items ∧ item.kind ≠ .metric := by
  rw [(mem_linkGroups.mp member).2] at among
  obtain ⟨outer, inside, rfl⟩ := List.mem_map.mp among
  simp only [List.mem_filter, Bool.and_eq_true, bne_iff_ne, beq_iff_eq] at inside
  obtain ⟨inside, kind, first⟩ := inside
  rw [GroupByItem.behind_afterFirstLink first, GroupByItem.afterFirstLink,
    GroupByItem.kind_withLinks]
  exact ⟨inside, kind⟩

/-- What stands behind an entity is in the group of the entity. -/
theorem exists_linkGroup {items : List GroupByItem} {item : GroupByItem} {entity : String}
    (member : item.behind entity ∈ items) (kind : item.kind ≠ .metric) :
    ∃ group ∈ linkGroups items, group.entity = entity ∧ item ∈ group.items := by
  refine ⟨⟨entity, (items.filter fun item => item.kind != .metric &&
    item.links.head? == some entity).map GroupByItem.afterFirstLink⟩, ?_, rfl, ?_⟩
  · refine mem_linkGroups.mpr ⟨⟨_, member, ?_, ?_⟩, rfl⟩
    · rwa [GroupByItem.kind_behind]
    · rw [GroupByItem.links_behind, List.head?_cons]
  · refine List.mem_map.mpr ⟨item.behind entity, ?_, GroupByItem.afterFirstLink_behind _ _⟩
    simp [member, kind]

/-- No group is empty. -/
theorem exists_mem_of_mem_linkGroups {items : List GroupByItem} {group : LinkGroup}
    (member : group ∈ linkGroups items) : ∃ item, item ∈ group.items := by
  obtain ⟨⟨outer, inside, kind, first⟩, same⟩ := mem_linkGroups.mp member
  refine ⟨outer.afterFirstLink, ?_⟩
  rw [same]
  refine List.mem_map_of_mem (List.mem_filter.mpr ⟨inside, ?_⟩)
  simp [kind, first]

/-- What a model lacks is grouped by the entities that something is needed through. -/
theorem mem_linkGroups_missing {model : SemanticModel} {items inner : List GroupByItem}
    {entity : String} : ⟨entity, inner⟩ ∈ linkGroups (missing model items) ↔
      inner = model.neededThrough entity items ∧ inner ≠ [] := by
  have needed : (missing model items).filter (fun item => item.kind != .metric &&
      item.links.head? == some entity) = items.filter fun item => item.kind ≠ .metric ∧
        item.links.head? = some entity ∧ ¬model.Provides item := by
    rw [missing, List.filter_filter]
    refine List.filter_congr fun item _ => Bool.eq_iff_iff.mpr ?_
    simp only [Bool.and_eq_true, bne_iff_ne, beq_iff_eq, Bool.not_eq_true', isOwn_eq_false_iff,
      decide_eq_true_eq, and_assoc]
  rw [mem_linkGroups, needed, SemanticModel.neededThrough, and_comm]
  refine and_congr_right fun same => ?_
  obtain rfl : inner = _ := same
  rw [ne_eq, List.map_eq_nil_iff, ← needed, List.filter_eq_nil_iff]
  simp only [Bool.and_eq_true, bne_iff_ne, beq_iff_eq, not_forall, not_not, exists_prop]

/-- What is needed through an entity is one of the groups. -/
theorem mem_linkGroups_neededThrough {model : SemanticModel} {items : List GroupByItem}
    {entity : String} (needed : model.neededThrough entity items ≠ []) :
    ⟨entity, model.neededThrough entity items⟩ ∈ linkGroups (missing model items) :=
  mem_linkGroups_missing.mpr ⟨rfl, needed⟩

end Dataflow

/-! ## Choosing models -/

/-- Whether a model can be joined to another one for items behind an entity: the entity is one of
the other model and identifies the rows of this one, which was not visited yet and looks able to
provide all the items. -/
structure SemanticModel.IsJoinTarget (source : SemanticModel) (visited : List String)
    (entity : String) (items : List GroupByItem) (target : SemanticModel) : Prop where
  shared : ∃ own ∈ source.entities, own.name = entity
  unvisited : target.name ∉ visited
  identified : ∃ own ∈ target.entities, own.kind ≠ .foreign ∧ own.name = entity
  able : ∀ item ∈ items, target.LooksAble item

/-- Whether a model is the first one of a manifest that can be joined. -/
def Manifest.IsFirstJoinTarget (manifest : Manifest) (source : SemanticModel)
    (visited : List String) (entity : String) (items : List GroupByItem)
    (target : SemanticModel) : Prop :=
  ∃ before after, manifest.models = before ++ target :: after ∧
    source.IsJoinTarget visited entity items target ∧
    ∀ earlier ∈ before, ¬source.IsJoinTarget visited entity items earlier

namespace Manifest.IsFirstJoinTarget

variable {manifest : Manifest} {source target : SemanticModel} {visited : List String}
  {entity : String} {items : List GroupByItem}

/-- The first model that can be joined is one of the manifest. -/
theorem mem (first : manifest.IsFirstJoinTarget source visited entity items target) :
    target ∈ manifest.models := by
  obtain ⟨before, after, models, _⟩ := first
  rw [models]
  exact List.mem_append_right _ List.mem_cons_self

/-- The first model that can be joined can be joined. -/
theorem isJoinTarget (first : manifest.IsFirstJoinTarget source visited entity items target) :
    source.IsJoinTarget visited entity items target := by
  obtain ⟨_, _, _, suits, _⟩ := first
  exact suits

end Manifest.IsFirstJoinTarget

namespace Dataflow

section

variable {catalog : Catalog} {source target : SemanticModel} {entity : String}
  {items : List GroupByItem} {visited : List String}

/-- Beside the entity of the model to be completed, the search tests all that is asked of a
target. -/
theorem suits_iff (shared : ∃ own ∈ source.entities, own.name = entity) :
    (!visited.contains target.name && target.isIdentifiedBy entity &&
      items.all (canProvide target)) = true ↔
      source.IsJoinTarget visited entity items target := by
  simp only [Bool.and_eq_true, Bool.not_eq_true', List.contains_eq_mem, decide_eq_false_iff_not,
    List.all_eq_true, SemanticModel.isIdentifiedBy_iff, canProvide_iff]
  constructor
  · rintro ⟨⟨unvisited, identified⟩, able⟩
    exact ⟨shared, unvisited, identified, able⟩
  · intro suits
    exact ⟨⟨suits.unvisited, suits.identified⟩, suits.able⟩

/-- On an entity that a model does not have nothing can be joined to it. -/
theorem not_isJoinTarget (other : source.entity? entity = none) :
    ¬source.IsJoinTarget visited entity items target := by
  intro suits
  have shared := SemanticModel.isSome_entity?_iff.mpr suits.shared
  rw [other] at shared
  exact nomatch shared

/-- The model that is joined is the first one that can be. -/
theorem joinTarget?_eq_some_iff :
    joinTarget? catalog source entity items visited = some target ↔
      catalog.manifest.IsFirstJoinTarget source visited entity items target := by
  rw [joinTarget?]
  cases found : source.entity? entity with
  | none =>
      exact ⟨nofun, fun first => (not_isJoinTarget found first.isJoinTarget).elim⟩
  | some own =>
      have shared := SemanticModel.isSome_entity?_iff.mp (Option.isSome_of_eq_some found)
      rw [if_neg nofun, List.find?_eq_some_iff_append, suits_iff shared]
      simp only [Bool.not_eq_true', ← Bool.not_eq_true, suits_iff shared]
      constructor
      · rintro ⟨suits, before, after, models, earlier⟩
        exact ⟨before, after, models, suits, earlier⟩
      · rintro ⟨before, after, models, suits, earlier⟩
        exact ⟨suits, before, after, models, earlier⟩

/-- No model is joined if none can be. -/
theorem joinTarget?_eq_none_iff :
    joinTarget? catalog source entity items visited = none ↔
      ∀ target ∈ catalog.manifest.models, ¬source.IsJoinTarget visited entity items target := by
  rw [joinTarget?]
  cases found : source.entity? entity with
  | none => exact ⟨fun _ target _ => not_isJoinTarget found, fun _ => rfl⟩
  | some own =>
      have shared := SemanticModel.isSome_entity?_iff.mp (Option.isSome_of_eq_some found)
      rw [if_neg nofun, List.find?_eq_none]
      simp only [suits_iff shared]

/-- A model that is chosen has passed all tests. -/
theorem of_joinTarget? (chosen : joinTarget? catalog source entity items visited = some target) :
    (source.entity? entity).isSome = true ∧ target ∈ catalog.manifest.models ∧
      target.name ∉ visited ∧ target.isIdentifiedBy entity = true ∧
      ∀ item ∈ items, canProvide target item = true := by
  have first := joinTarget?_eq_some_iff.mp chosen
  have suits := first.isJoinTarget
  exact ⟨SemanticModel.isSome_entity?_iff.mpr suits.shared, first.mem, suits.unvisited,
    SemanticModel.isIdentifiedBy_iff.mpr suits.identified,
    fun item among => canProvide_iff.mpr (suits.able item among)⟩

/-- A model that can be joined is the first one if it is the only one that the entity identifies. -/
theorem isFirstJoinTarget_of_only (known : target ∈ catalog.manifest.models)
    (suits : source.IsJoinTarget visited entity items target)
    (only : ∀ other ∈ catalog.manifest.models, other.isIdentifiedBy entity = true →
      other = target) : catalog.manifest.IsFirstJoinTarget source visited entity items target := by
  cases chosen : joinTarget? catalog source entity items visited with
  | none => exact (joinTarget?_eq_none_iff.mp chosen target known suits).elim
  | some other =>
      obtain ⟨_, knownOther, _, identified, _⟩ := of_joinTarget? chosen
      rw [only other knownOther identified] at chosen
      exact joinTarget?_eq_some_iff.mp chosen

end

/-! ## Models that are reached -/

/-- The models that are joined one behind the other for items of a first model, each with the models
visited on the way and the items that are needed from it. -/
inductive IsJoinedFor (manifest : Manifest) (model : SemanticModel) (items : List GroupByItem) :
    (source : SemanticModel) → (visited : List String) → (needed : List GroupByItem) → Prop where
  | first : IsJoinedFor manifest model items model [model.name] items
  | further {source target : SemanticModel} {visited : List String} {needed : List GroupByItem}
      {entity : String} (joined : IsJoinedFor manifest model items source visited needed)
      (lacks : source.neededThrough entity needed ≠ [])
      (chosen : manifest.IsFirstJoinTarget source visited entity
        (source.neededThrough entity needed) target) :
      IsJoinedFor manifest model items target (visited ++ [target.name])
        (source.neededThrough entity needed)

/-- Whether an error says that no model can be joined for the items that some joined model needs
through an entity: it is structural, and names the entity, the model and these items. -/
def LacksJoinTarget (manifest : Manifest) (model : SemanticModel) (items : List GroupByItem)
    (error : QueryError) : Prop :=
  ∃ source visited needed entity, IsJoinedFor manifest model items source visited needed ∧
    source.neededThrough entity needed ≠ [] ∧
    (∀ target ∈ manifest.models,
      ¬source.IsJoinTarget visited entity (source.neededThrough entity needed) target) ∧
    error = .noJoinTarget entity source.name
      ((source.neededThrough entity needed).map GroupByItem.qualifiedName) ∧
    error.sort = .structural ∧ error.detail = "no semantic model reachable through " ++
      Text.named entity ++ " from " ++ Text.named source.name ++ " provides " ++
        String.intercalate ", " ((source.neededThrough entity needed).map
          GroupByItem.qualifiedName)

end Dataflow

end MetricQuery

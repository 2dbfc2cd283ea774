import MetricQuery.Proofs.Catalog
import MetricQuery.Proofs.Element.Links

/-! # Where elements are defined

Behind a path of joins the elements of a measure are defined in a model that the last entity of the
path identifies (`Element.isTraced_of_mem_ofMeasure`). If each entity identifies at most one model,
an item is therefore defined in one place only (`Element.IsTraced.definedIn_eq`).
-/

namespace MetricQuery

/-- Whether each entity identifies at most one model. -/
def Manifest.IsUnambiguous (manifest : Manifest) : Prop :=
  ∀ left ∈ manifest.models, ∀ right ∈ manifest.models, ∀ entity,
    left.isIdentifiedBy entity = true → right.isIdentifiedBy entity = true → left = right

/-- Whether an item is an entity of a model, or a dimension behind an entity that identifies the
rows of the model. -/
def SemanticModel.HasLocal (model : SemanticModel) (item : GroupByItem) : Prop :=
  (∃ entity ∈ model.entities, item = .entity entity.name []) ∨
    (∃ entity ∈ model.identifyingEntities, item.links = [entity.name]) ∧
      ∃ dimension ∈ model.dimensions, dimension.Offers item

namespace Element

/-- The items of a model alone are those that it has itself. -/
theorem mem_items_ofModel {model : SemanticModel} {item : GroupByItem} :
    item ∈ (ofModel model).map Element.item ↔ model.HasLocal item := by
  simp only [ofModel, List.map_append, List.map_flatMap, List.mem_append, List.mem_flatMap,
    mem_items_ofDimensions]
  simp only [List.map_map, List.mem_map, Function.comp_apply]
  rw [SemanticModel.HasLocal, or_comm]
  refine or_congr ?_ ?_
  · exact exists_congr fun entity => and_congr_right fun _ => eq_comm
  · constructor
    · intro given
      obtain ⟨entity, identifying, behind, offered⟩ := given
      exact ⟨⟨entity, identifying, behind⟩, offered⟩
    · intro given
      obtain ⟨⟨entity, identifying, behind⟩, offered⟩ := given
      exact ⟨entity, identifying, behind, offered⟩

section

variable {model : SemanticModel} {links : List String} {traits : List ElementTrait}
  {element : Element}

/-- The grains and parts of a time are defined where the time is. -/
theorem definedIn_of_mem_ofTime {name : String} {stored : Grain} {definedIn : Option String}
    (member : element ∈ ofTime name stored links definedIn traits) :
    element.definedIn = definedIn := by
  rcases List.mem_append.mp member with truncated | extracted
  · obtain ⟨_, _, rfl⟩ := List.mem_map.mp truncated
    rfl
  · obtain ⟨_, _, rfl⟩ := List.mem_map.mp extracted
    rfl

/-- The dimensions of a model are defined in it. -/
theorem definedIn_of_mem_ofDimensions (member : element ∈ ofDimensions model links traits) :
    element.definedIn = some model.name := by
  obtain ⟨dimension, _, member⟩ := List.mem_flatMap.mp member
  split at member
  · exact definedIn_of_mem_ofTime member
  · rw [List.mem_singleton.mp member]

/-- What is listed for a model alone is defined in it. -/
theorem definedIn_of_mem_ofModel (member : element ∈ ofModel model) :
    element.definedIn = some model.name := by
  rcases List.mem_append.mp member with dimension | entity
  · obtain ⟨_, _, member⟩ := List.mem_flatMap.mp dimension
    exact definedIn_of_mem_ofDimensions member
  · obtain ⟨_, _, rfl⟩ := List.mem_map.mp entity
    rfl

/-- What is listed for the model behind a join is defined in it. -/
theorem definedIn_of_mem_ofTarget (member : element ∈ ofTarget model links) :
    element.definedIn = some model.name := by
  rcases List.mem_append.mp member with dimension | entity
  · exact definedIn_of_mem_ofDimensions dimension
  · obtain ⟨_, _, rfl⟩ := List.mem_map.mp entity
    rfl

end

/-- Whether an item is defined in a place that fits how it is reached from a model: a metric with
the measure of a metric of its name, an entity without links in the model itself, and what is behind
links in a model that the last of them identifies. -/
def IsTraced (manifest : Manifest) (model : SemanticModel) (definedIn : Option String) :
    GroupByItem → Prop
  | .metric name _ _ => ∃ metric ∈ manifest.metrics, metric.name = name ∧
    definedIn = (ownerOf manifest.models metric).map SemanticModel.name
  | item =>
    match item.links.getLast? with
    | none => definedIn = if item.kind = .entity then some model.name else none
    | some entity => ∃ target ∈ manifest.models, target.isIdentifiedBy entity = true ∧
      definedIn = some target.name

variable {manifest : Manifest} {model : SemanticModel}

/-- An item behind an entity is traced to a model that the entity identifies. -/
theorem IsTraced.of_identified {definedIn : Option String} {item : GroupByItem}
    (other : item.kind ≠ .metric) {entity : String} (last : item.links.getLast? = some entity)
    {target : SemanticModel} (known : target ∈ manifest.models)
    (identified : target.isIdentifiedBy entity = true) (defined : definedIn = some target.name) :
    IsTraced manifest model definedIn item := by
  cases item with
  | metric => exact (other rfl).elim
  | _ =>
      simp only [IsTraced, last]
      exact ⟨target, known, identified, defined⟩

private theorem isTraced_of_mem_ofModel (known : model ∈ manifest.models) {element : Element}
    (member : element ∈ ofModel model) :
    IsTraced manifest model element.definedIn element.item := by
  have defined := definedIn_of_mem_ofModel member
  rcases List.mem_append.mp member with dimension | entity
  · obtain ⟨entity, identifying, member⟩ := List.mem_flatMap.mp dimension
    obtain ⟨links, own⟩ := mem_items_ofDimensions.mp (List.mem_map_of_mem member)
    have last : element.item.links.getLast? = some entity.name := by rw [links]; rfl
    refine .of_identified (SemanticModel.Offers.kind_ne_metric (.inl own)) last known ?_ defined
    exact List.any_eq_true.mpr ⟨entity, identifying, beq_self_eq_true _⟩
  · obtain ⟨entity, _, rfl⟩ := List.mem_map.mp entity
    rfl

private theorem isTraced_of_mem_ofMetricTime {measure : Measure} {element : Element}
    (member : element ∈ ofMetricTime model measure) :
    IsTraced manifest model element.definedIn element.item := by
  unfold ofMetricTime at member
  split at member
  · exact nomatch member
  · obtain ⟨grain, part, _, same⟩ := mem_items_ofTime.mp (List.mem_map_of_mem member)
    rw [same, definedIn_of_mem_ofTime member]
    rfl

/-- The last entity of a path identifies the model that the path leads to, whichever model it starts
from. -/
theorem isTraced_of_mem_ofJoins {hops : Nat} {source : SemanticModel} {path visited : List String}
    {element : Element} (member : element ∈ ofJoins manifest.models hops source path visited) :
    IsTraced manifest model element.definedIn element.item := by
  induction hops generalizing source path visited with
  | zero => exact nomatch member
  | succ hops ih =>
      obtain ⟨entity, _, member⟩ := List.mem_flatMap.mp member
      obtain ⟨target, reached, member⟩ := List.mem_flatMap.mp member
      obtain ⟨known, usable⟩ := List.mem_filter.mp reached
      rcases List.mem_append.mp member with here | behind
      · obtain ⟨links, offered, _⟩ := offers_of_mem_ofTarget (List.mem_map_of_mem here)
        refine .of_identified offered.kind_ne_metric ?_ known (Bool.and_eq_true_iff.mp usable).2
          (definedIn_of_mem_ofTarget here)
        rw [links, List.getLast?_concat]
      · exact ih behind

private theorem isTraced_of_mem_ofMetrics {element : Element}
    (member : element ∈ ofMetrics manifest.models manifest.metrics model) :
    IsTraced manifest model element.definedIn element.item := by
  obtain ⟨entity, _, member⟩ := List.mem_flatMap.mp member
  obtain ⟨metric, listed, made⟩ := List.mem_filterMap.mp member
  have known := (List.mem_filter.mp listed).1
  cases owned : ownerOf manifest.models metric with
  | none =>
      rw [owned] at made
      cases made
  | some owner =>
      simp only [owned] at made
      split at made
      · obtain ⟨⟩ := made
        exact ⟨metric, known, rfl, by rw [owned]; rfl⟩
      · cases made

/-- Whatever is listed for a measure is traced to the model that defines it. -/
theorem isTraced_of_mem_ofMeasure (known : model ∈ manifest.models) {hops : Nat}
    {measure : Measure} {element : Element}
    (member : element ∈ ofMeasure manifest hops model measure) :
    IsTraced manifest model element.definedIn element.item := by
  rw [ofMeasure, mem_sortedDistinct, List.mem_append, List.mem_append, List.mem_append] at member
  rcases member with ((alone | time) | joined) | metric
  · exact isTraced_of_mem_ofModel known alone
  · exact isTraced_of_mem_ofMetricTime time
  · exact isTraced_of_mem_ofJoins joined
  · exact isTraced_of_mem_ofMetrics metric

/-- If an entity identifies one model only, an item is defined in one place only. -/
theorem IsTraced.definedIn_eq (unambiguous : manifest.IsUnambiguous)
    (distinct : (manifest.metrics.map Metric.name).Nodup) {first second : Option String}
    {item : GroupByItem} (left : IsTraced manifest model first item)
    (right : IsTraced manifest model second item) : first = second := by
  cases item with
  | metric name links subquery =>
      obtain ⟨metric, known, named, rfl⟩ := left
      obtain ⟨other, knownOther, same, rfl⟩ := right
      rw [List.inj_on_of_nodup_map distinct known knownOther (named.trans same.symm)]
  | _ =>
      simp only [IsTraced] at left right
      split at left <;> rename_i last <;> rw [last] at right
      · exact left.trans right.symm
      · obtain ⟨target, known, identified, rfl⟩ := left
        obtain ⟨other, knownOther, identifiedOther, rfl⟩ := right
        rw [unambiguous target known other knownOther _ identified identifiedOther]

end Element

end MetricQuery

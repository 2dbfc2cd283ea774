import MetricQuery.Proofs.Catalog
import MetricQuery.Proofs.Collection.Interleaving
import MetricQuery.Proofs.Element.Defining

/-! # Extended manifests

A manifest with further models and metrics under names of their own (`Manifest.Extends`). What is
found by name in the original is found in the extended manifest as well, a measure of the original
can be grouped by the same elements (`Manifest.Extends.elementsOf_eq`), and what can be listed
without a measure only becomes more (`Manifest.Extends.filter_elementsWithoutMetrics`).
-/

namespace MetricQuery

private theorem Catalog.name_of_model? {catalog : Catalog} {name : String} {model : SemanticModel}
    (found : catalog.model? name = some model) : model.name = name := by
  rw [model?, List.findRev?_eq_find?_reverse] at found
  simpa using List.find?_some found

/-- Whether an item is listed without a measure. -/
theorem Catalog.offers_elementsWithoutMetrics_iff {catalog : Catalog} {item : GroupByItem} :
    Scope.offers catalog.elementsWithoutMetrics item = true ↔
      ∃ model ∈ catalog.manifest.models, model.HasLocal item := by
  simp only [Scope.offers, List.any_eq_true, beq_iff_eq, elementsWithoutMetrics,
    Element.withoutMeasure, mem_sortedDistinct, List.mem_flatMap, ← Element.mem_items_ofModel,
    List.mem_map]
  constructor
  · rintro ⟨element, ⟨model, known, own⟩, same⟩
    exact ⟨model, known, element, own, same⟩
  · rintro ⟨model, known, element, own, same⟩
    exact ⟨element, ⟨model, known, own⟩, same⟩

namespace Manifest

/-- Whether a manifest is a base with further models and metrics put in at any places: nothing
further has a name that the base has for something of the same kind, and the further metrics
aggregate further measures only. -/
structure Extends (base further whole : Manifest) : Prop where
  models : Interleaves base.models further.models whole.models
  metrics : Interleaves base.metrics further.metrics whole.metrics
  newModels : ∀ name ∈ further.modelNames, name ∉ base.modelNames
  newEntities : ∀ name ∈ further.entityNames, name ∉ base.entityNames
  newDimensions : ∀ name ∈ further.dimensionNames, name ∉ base.dimensionNames
  newMeasures : ∀ name ∈ further.measureNames, name ∉ base.measureNames
  newMetrics : ∀ name ∈ further.metricNames, name ∉ base.metricNames
  aggregated : ∀ metric ∈ further.metrics, ∀ input ∈ metric.inputMeasures,
    input.name ∈ further.measureNames

namespace Extends

variable {base further whole : Manifest} {hops : Nat} {model other : SemanticModel}

/-! ## Names -/

/-- A metric of the original is found in the extended manifest. -/
theorem metric?_eq (grown : base.Extends further whole) {name : String} {metric : Metric}
    (found : (Catalog.mk base hops).metric? name = some metric) :
    (Catalog.mk whole hops).metric? name = some metric := by
  obtain ⟨known, named⟩ := Catalog.of_metric? found
  rw [← found]
  refine findRev?_eq_of_filter_eq (grown.metrics.filter_eq fun new among => ?_)
  refine beq_eq_false_iff_ne.mpr fun same => ?_
  exact grown.newMetrics _ (List.mem_map_of_mem among)
    (same.trans named.symm ▸ List.mem_map_of_mem known)

/-- A model of the original is found in the extended manifest. -/
theorem model?_eq (grown : base.Extends further whole) {name : String}
    (found : (Catalog.mk base hops).model? name = some model) :
    (Catalog.mk whole hops).model? name = some model := by
  have known := Catalog.mem_of_model? found
  have named := Catalog.name_of_model? found
  rw [← found]
  refine findRev?_eq_of_filter_eq (grown.models.filter_eq fun new among => ?_)
  refine beq_eq_false_iff_ne.mpr fun same => ?_
  exact grown.newModels _ (List.mem_map_of_mem among)
    (same.trans named.symm ▸ List.mem_map_of_mem known)

/-- A measure of the original is found in the extended manifest. -/
theorem measure?_eq (grown : base.Extends further whole) {name : String}
    {owned : SemanticModel × Measure}
    (found : (Catalog.mk base hops).measure? name = some owned) :
    (Catalog.mk whole hops).measure? name = some owned := by
  obtain ⟨known, own, named⟩ := Catalog.of_measure? found
  rw [← found]
  apply findRev?_eq_of_filter_eq
  rw [Catalog.measures, Catalog.measures, List.filter_flatMap, List.filter_flatMap]
  refine grown.models.flatMap_eq fun new among => ?_
  refine List.filter_eq_nil_iff.mpr fun pair inside same => ?_
  obtain ⟨measure, isNew, rfl⟩ := List.mem_map.mp inside
  exact grown.newMeasures _ (mem_measureNames among isNew)
    ((beq_iff_eq.mp same).trans named.symm ▸ mem_measureNames known own)

/-- An extended manifest allows for no less depth. -/
theorem metricDepth_le (grown : base.Extends further whole) :
    (Catalog.mk base hops).metricDepth ≤ (Catalog.mk whole hops).metricDepth := by
  have fewer : base.metrics.length ≤ whole.metrics.length := by
    rw [grown.metrics.length_eq]
    omega
  exact Nat.mul_le_mul (Nat.add_le_add_right fewer 1) (Nat.add_le_add_right fewer 2)

/-! ## Elements of a measure -/

/-- A further model has no entity of the original. -/
theorem not_mem_entityNames (grown : base.Extends further whole) (known : model ∈ base.models)
    {entity : Entity} (own : entity ∈ model.entities) (new : other ∈ further.models) :
    ∀ another ∈ other.entities, another.name ≠ entity.name := by
  intro another inside same
  exact grown.newEntities _ (mem_entityNames new inside) (same ▸ mem_entityNames known own)

/-- No entity of the original identifies a further model. -/
theorem isIdentifiedBy_eq_false (grown : base.Extends further whole) (known : model ∈ base.models)
    {entity : Entity} (own : entity ∈ model.entities) (new : other ∈ further.models) :
    other.isIdentifiedBy entity.name = false := by
  refine List.any_eq_false.mpr fun another inside same => ?_
  exact grown.not_mem_entityNames known own new another (List.mem_of_mem_filter inside)
    (beq_iff_eq.mp same)

private theorem entity?_eq_none (grown : base.Extends further whole) (known : model ∈ base.models)
    {entity : Entity} (own : entity ∈ model.entities) (new : other ∈ further.models) :
    other.entity? entity.name = none := by
  refine List.find?_eq_none.mpr fun another inside same => ?_
  exact grown.not_mem_entityNames known own new another inside (beq_iff_eq.mp same)

/-- No further model has an entity to join on from a model of the base. -/
theorem ofJoins_eq (grown : base.Extends further whole) (known : model ∈ base.models)
    (path visited : List String) :
    Element.ofJoins whole.models hops model path visited =
      Element.ofJoins base.models hops model path visited := by
  induction hops generalizing model path visited with
  | zero => rfl
  | succ hops ih =>
      rw [Element.ofJoins, Element.ofJoins]
      refine List.flatMap_congr fun entity usable => ?_
      have own := List.mem_of_mem_filter usable
      have targets : whole.models.filter (fun target =>
          !visited.contains target.name && target.isIdentifiedBy entity.name) =
          base.models.filter fun target =>
            !visited.contains target.name && target.isIdentifiedBy entity.name := by
        refine grown.models.filter_eq fun new among => ?_
        rw [grown.isIdentifiedBy_eq_false known own among, Bool.and_false]
      rw [targets]
      refine List.flatMap_congr fun target reached => ?_
      simp only [ih (List.mem_of_mem_filter reached)]

/-- A measure that a model has is named in the manifest. -/
theorem mem_measureNames_of_isSome {manifest : Manifest} (known : model ∈ manifest.models)
    {name : String} (defined : (model.measure? name).isSome = true) :
    name ∈ manifest.measureNames := by
  obtain ⟨measure, found⟩ := Option.isSome_iff_exists.mp defined
  have named : measure.name = name := by simpa using List.find?_some found
  exact named ▸ mem_measureNames known (List.mem_of_find?_eq_some found)

/-- The model with the measure of a metric stays the first one that has it. A measure that the base
lacks may have come with a further model. -/
theorem ownerOf_cases (grown : base.Extends further whole) (metric : Metric) :
    Element.ownerOf whole.models metric = Element.ownerOf base.models metric ∨
      Element.ownerOf base.models metric = none ∧
        ∃ owner ∈ further.models, Element.ownerOf whole.models metric = some owner := by
  unfold Element.ownerOf
  split
  · exact .inl rfl
  · rename_i input _ _
    cases found : base.models.find? fun model => (model.measure? input.name).isSome with
    | some owner =>
        have owns : (owner.measure? input.name).isSome = true := by
          simpa using List.find?_some found
        left
        rw [← found]
        refine find?_eq_of_filter_eq (grown.models.filter_eq fun new among => ?_)
        refine Bool.eq_false_iff.mpr fun defined => ?_
        exact grown.newMeasures _ (mem_measureNames_of_isSome among defined)
          (mem_measureNames_of_isSome (List.mem_of_find?_eq_some found) owns)
    | none =>
        cases extended : whole.models.find? fun model => (model.measure? input.name).isSome with
        | none => exact .inl rfl
        | some owner =>
            have owns : (owner.measure? input.name).isSome = true := by
              simpa using List.find?_some extended
            refine .inr ⟨rfl, owner, ?_, rfl⟩
            refine (grown.models.mem_iff.mp (List.mem_of_find?_eq_some extended)).resolve_left ?_
            exact fun known => List.find?_eq_none.mp found owner known owns

private theorem ownerOf_eq_none (grown : base.Extends further whole) {metric : Metric}
    (new : metric ∈ further.metrics) : Element.ownerOf base.models metric = none := by
  unfold Element.ownerOf
  split
  · rfl
  · rename_i input rest measured
    refine List.find?_eq_none.mpr fun owner known defined => ?_
    have listed : input ∈ metric.inputMeasures := measured ▸ List.mem_cons_self
    exact grown.newMeasures _ (grown.aggregated metric new input listed)
      (mem_measureNames_of_isSome known defined)

/-- Metrics per value of an entity of the base are computed from models of the base. -/
theorem ofMetrics_eq (grown : base.Extends further whole) (known : model ∈ base.models) :
    Element.ofMetrics whole.models whole.metrics model =
      Element.ofMetrics base.models base.metrics model := by
  refine List.flatMap_congr fun entity own => ?_
  have absent : ∀ owner ∈ further.models, ¬ (owner.entity? entity.name).isSome = true := by
    intro owner new
    rw [grown.entity?_eq_none known own new]
    exact Bool.false_ne_true
  refine (grown.metrics.filter _).filterMap_eq (fun metric _ => ?_) fun metric new => ?_
  · rcases grown.ownerOf_cases metric with same | ⟨none, owner, new, extended⟩
    · rw [same]
    · rw [none, extended]
      exact if_neg (absent owner new)
  · have none := grown.ownerOf_eq_none (List.mem_of_mem_filter new)
    rcases grown.ownerOf_cases metric with same | ⟨_, owner, new, extended⟩
    · rw [same, none]
    · rw [extended]
      exact if_neg (absent owner new)

/-- A measure of the base can be grouped by the same elements. -/
theorem elementsOf_eq (grown : base.Extends further whole) {name : String}
    {owned : SemanticModel × Measure} (found : (Catalog.mk base hops).measure? name = some owned) :
    (Catalog.mk whole hops).elementsOf name = (Catalog.mk base hops).elementsOf name := by
  obtain ⟨known, _⟩ := Catalog.of_measure? found
  simp only [Catalog.elementsOf, found, grown.measure?_eq found, Element.ofMeasure,
    grown.ofJoins_eq known, grown.ofMetrics_eq known]

/-! ## Elements without a measure -/

/-- What a further model offers without a join is nothing that a model of the base offers so. -/
theorem not_hasLocal (grown : base.Extends further whole) (known : model ∈ base.models)
    (new : other ∈ further.models) {item : GroupByItem} (has : model.HasLocal item) :
    ¬ other.HasLocal item := by
  intro also
  rcases has with ⟨entity, own, rfl⟩ | ⟨⟨entity, identifying, behind⟩, _⟩
  · rcases also with ⟨another, inside, same⟩ | ⟨⟨another, _, linked⟩, _⟩
    · obtain ⟨named, _⟩ := GroupByItem.entity.inj same
      exact grown.not_mem_entityNames known own new another inside named.symm
    · exact nomatch linked
  · rcases also with ⟨another, _, rfl⟩ | ⟨⟨another, inside, linked⟩, _⟩
    · exact nomatch behind
    · have named := (List.cons.inj (linked.symm.trans behind)).1
      exact grown.not_mem_entityNames known (List.mem_of_mem_filter identifying) new another
        (List.mem_of_mem_filter inside) named

/-- Only models of the base list an item of the base without a measure. -/
theorem mem_elementsWithoutMetrics_iff (grown : base.Extends further whole) {element : Element}
    (known : model ∈ base.models) (has : model.HasLocal element.item) :
    element ∈ (Catalog.mk whole hops).elementsWithoutMetrics ↔
      element ∈ (Catalog.mk base hops).elementsWithoutMetrics := by
  simp only [Catalog.elementsWithoutMetrics, Element.withoutMeasure, mem_sortedDistinct,
    List.mem_flatMap]
  constructor
  · rintro ⟨origin, listed, own⟩
    refine ⟨origin, (grown.models.mem_iff.mp listed).resolve_right fun new => ?_, own⟩
    exact grown.not_hasLocal known new has (Element.mem_items_ofModel.mp (List.mem_map_of_mem own))
  · rintro ⟨origin, listed, own⟩
    exact ⟨origin, grown.models.mem_iff.mpr (.inl listed), own⟩

/-- What is listed without a measure for an item of the base is the same. -/
theorem filter_elementsWithoutMetrics (grown : base.Extends further whole) {item : GroupByItem}
    (known : model ∈ base.models) (has : model.HasLocal item) :
    (Catalog.mk whole hops).elementsWithoutMetrics.filter (·.item == item) =
      (Catalog.mk base hops).elementsWithoutMetrics.filter (·.item == item) := by
  refine filter_sortedDistinct_eq fun element same => ?_
  have listed : element ∈ (Catalog.mk whole hops).elementsWithoutMetrics ↔ _ :=
    grown.mem_elementsWithoutMetrics_iff known (beq_iff_eq.mp same ▸ has)
  rwa [Catalog.elementsWithoutMetrics, Catalog.elementsWithoutMetrics, Element.withoutMeasure,
    Element.withoutMeasure, mem_sortedDistinct, mem_sortedDistinct] at listed

end Extends

end Manifest

end MetricQuery

import MetricQuery.Proofs.Element.Links
import MetricQuery.Proofs.Item.Leading

/-! # Names of offered items

Items take their names from the manifest. If the names there are plain, then so are those of every
item that a measure offers (`Catalog.isNamed_of_mem_elementsOf`) and of every item that is listed
without a measure (`Catalog.isNamed_of_mem_elementsWithoutMetrics`).
-/

namespace MetricQuery

open DunderedName (IsPlain)

/-- Whether the names that items take from a manifest are plain. -/
structure Manifest.IsNamed (manifest : Manifest) : Prop where
  dimensions : ∀ model ∈ manifest.models, ∀ dimension ∈ model.dimensions, IsPlain dimension.name
  entities : ∀ model ∈ manifest.models, ∀ entity ∈ model.entities, IsPlain entity.name
  metrics : ∀ metric ∈ manifest.metrics, IsPlain metric.name

instance (manifest : Manifest) : Decidable manifest.IsNamed :=
  decidable_of_iff
    ((∀ model ∈ manifest.models, ∀ dimension ∈ model.dimensions, IsPlain dimension.name) ∧
      (∀ model ∈ manifest.models, ∀ entity ∈ model.entities, IsPlain entity.name) ∧
      ∀ metric ∈ manifest.metrics, IsPlain metric.name)
    ⟨fun ⟨dimensions, entities, metrics⟩ => ⟨dimensions, entities, metrics⟩,
      fun named => ⟨named.dimensions, named.entities, named.metrics⟩⟩

variable {manifest : Manifest}

/-- What a dimension with a plain name offers behind plain links is well named. -/
theorem Dimension.Offers.isNamed {dimension : Dimension} {item : GroupByItem}
    (offers : dimension.Offers item) (plain : IsPlain dimension.name)
    (links : ∀ link ∈ item.links, IsPlain link) : item.IsNamed := by
  cases item with
  | dimension name _ =>
      obtain ⟨rfl, -⟩ := offers
      exact ⟨plain, links, nofun⟩
  | timeDimension name _ grain part =>
      obtain ⟨rfl, -⟩ := offers
      exact ⟨plain, links, nofun⟩
  | _ => exact offers.elim

/-- What a well named model offers behind plain links is well named. -/
theorem SemanticModel.Offers.isNamed {model : SemanticModel} {item : GroupByItem}
    (offers : model.Offers item) (named : manifest.IsNamed) (known : model ∈ manifest.models)
    (links : ∀ link ∈ item.links, IsPlain link) : item.IsNamed := by
  rcases offers with ⟨dimension, own, offers⟩ | ⟨entity, own, same⟩
  · exact offers.isNamed (named.dimensions model known dimension own) links
  · rw [same]
    exact ⟨named.entities model known entity own, links, nofun⟩

/-- What a well named model offers when it is read is well named. -/
theorem SemanticModel.OffersAlone.isNamed {model : SemanticModel} {item : GroupByItem}
    (offers : model.OffersAlone item) (named : manifest.IsNamed)
    (known : model ∈ manifest.models) : item.IsNamed := by
  rcases offers with ⟨links, offers⟩ | ⟨⟨entity, identifying, links⟩, offers⟩
  · refine offers.isNamed named known ?_
    rw [links]
    exact nofun
  · have own := (List.mem_filter.mp identifying).1
    refine SemanticModel.Offers.isNamed (.inl offers) named known ?_
    rw [links]
    exact List.forall_mem_singleton.mpr (named.entities model known entity own)

/-- One more join adds an entity to the links of items other than metrics. -/
theorem GroupByItem.IsNamed.behind {item : GroupByItem} (named : item.IsNamed)
    (other : item.kind ≠ .metric) {entity : String} (plain : IsPlain entity) :
    (item.behind entity).IsNamed where
  name := (name_withLinks _ item).symm ▸ named.name
  links := by
    rw [links_behind]
    exact List.forall_mem_cons.mpr ⟨plain, named.links⟩
  subquery := by
    have none : (item.behind entity).subqueryLinks = none :=
      subqueryLinks_eq_none_iff.mpr ((kind_withLinks _ item).symm ▸ other)
    rw [none]
    exact nofun

/-- In a well named manifest joins lead to well named items. -/
theorem Joins.isNamed {source : SemanticModel} {path visited : List String} {item : GroupByItem}
    (joins : Joins manifest.models source path visited item) (named : manifest.IsNamed)
    (known : source ∈ manifest.models) : item.IsNamed := by
  induction joins with
  | target entity target own _ reached _ _ plain offered _ =>
      have isNamed := offered.isNamed named reached (by rw [plain]; exact nofun)
      exact isNamed.behind offered.kind_ne_metric (named.entities _ known entity own)
  | further entity target own _ reached _ _ further ih =>
      exact (ih reached).behind further.kind_ne_metric (named.entities _ known entity own)

/-- In a well named manifest whatever a measure offers is well named. -/
theorem Element.Offered.isNamed {model : SemanticModel} {measure : Measure} {item : GroupByItem}
    (offered : Offered manifest model measure item) (named : manifest.IsNamed)
    (known : model ∈ manifest.models) : item.IsNamed := by
  cases offered with
  | alone offered => exact offered.isNamed named known
  | time along offered =>
      have plain : IsPlain metricTimeName := by decide
      exact ⟨plain, nofun, nofun⟩
  | joined joins => exact joins.isNamed named known
  | metric entity metric owner own given _ _ _ =>
      refine ⟨named.metrics metric given, ?_, ?_⟩
      · exact List.forall_mem_singleton.mpr (named.entities model known entity own)
      · rintro _ ⟨⟩
        exact ⟨entity.name, rfl, rfl⟩

namespace Catalog

variable {catalog : Catalog} {element : Element}

/-- In a well named manifest whatever is listed for a measure is well named. -/
theorem isNamed_of_mem_elementsOf (named : catalog.manifest.IsNamed) {measure : String}
    (among : element ∈ catalog.elementsOf measure) : element.item.IsNamed := by
  cases found : catalog.measure? measure with
  | none =>
      rw [elementsOf, found] at among
      cases among
  | some owned =>
      have offers : Scope.offers (catalog.elementsOf measure) element.item = true :=
        List.any_eq_true.mpr ⟨element, among, beq_self_eq_true _⟩
      exact (Element.offered_of_offers found offers).isNamed named (of_measure? found).1

/-- In a well named manifest whatever is listed without a measure is well named. -/
theorem isNamed_of_mem_elementsWithoutMetrics (named : catalog.manifest.IsNamed)
    (among : element ∈ catalog.elementsWithoutMetrics) : element.item.IsNamed := by
  obtain ⟨model, known, own⟩ := List.mem_flatMap.mp (mem_sortedDistinct.mp among)
  exact (Element.offersAlone_of_mem_ofModel (List.mem_map_of_mem own)).isNamed named known

end Catalog

end MetricQuery

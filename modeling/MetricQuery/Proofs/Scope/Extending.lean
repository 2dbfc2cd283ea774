import MetricQuery.Proofs.Element.Extending
import MetricQuery.Proofs.Following
import MetricQuery.Proofs.Scope.Resolution

/-! # Scopes over extended manifests

The scope of a query for metrics is the same over an extended manifest. That of a query without
metrics offers more, but whatever a reference has been found to mean before it still means
(`Scope.Refinds`, `Manifest.Extends.exists_refinds`): nothing further has the name of what was found
and few enough links to be preferred to it.
-/

namespace MetricQuery

namespace Scope

/-- Whether a scope finds what another one finds, in the same way, and still offers it in the same
order. -/
structure Refinds (scope other : Scope) : Prop where
  step : other.step = scope.step
  resolve : ∀ limit pattern input item,
    (scope.resolve limit pattern input).outcome = .resolved item →
      other.resolve limit pattern input = scope.resolve limit pattern input
  allowed : ∀ allowed : List GroupByItem, (∀ item ∈ allowed, item ∈ scope.items) →
    GroupByItem.amongAllowed allowed other.items = GroupByItem.amongAllowed allowed scope.items

/-- A scope finds again what it finds. -/
theorem Refinds.refl (scope : Scope) : scope.Refinds scope :=
  ⟨rfl, fun _ _ _ _ _ => rfl, fun _ _ => rfl⟩

/-- The scope of a query without metrics. -/
def withoutMetrics (catalog : Catalog) (filters : List String) : Scope :=
  let listed := node 0 .noMetrics catalog.elementsWithoutMetrics []
  node 1 (.query [] filters) (union [listed]) [listed]

/-- Without metrics the scope is that of the listed items. -/
theorem ofQuery_nil (catalog : Catalog) (filters : List String) :
    ofQuery catalog [] filters = .ok (withoutMetrics catalog filters) := rfl

private theorem mem_elements_withoutMetrics {catalog : Catalog} {filters : List String}
    {element : Element} : element ∈ (withoutMetrics catalog filters).elements ↔
      element ∈ catalog.elementsWithoutMetrics := by
  rw [withoutMetrics, elements, union, mem_sortedDistinct, List.flatMap_singleton]
  rfl

/-- Without metrics the items are those local to some model. -/
theorem mem_items_withoutMetrics {catalog : Catalog} {filters : List String} {item : GroupByItem} :
    item ∈ (withoutMetrics catalog filters).items ↔
      ∃ model ∈ catalog.manifest.models, model.HasLocal item := by
  rw [← Catalog.offers_elementsWithoutMetrics_iff, items, mem_items]
  simp only [offers, List.any_eq_true, mem_elements_withoutMetrics]

/-- A dimension is listed behind an entity that is listed as well, so that a match never has more
links than another item that a model can list. -/
theorem length_links_le_of_mem_matching {catalog : Catalog} {filters : List String}
    {pattern : ItemPattern} {item rival : GroupByItem}
    (matched : item ∈ pattern.matching (withoutMetrics catalog filters).items)
    {other : SemanticModel} (has : other.HasLocal rival)
    (kind : pattern.acceptsKind rival = true) (links : pattern.acceptsLinks rival = true) :
    item.links.length ≤ rival.links.length := by
  obtain ⟨reached, _, least⟩ := ItemPattern.mem_matching.mp matched
  obtain ⟨inside, _⟩ := ItemPattern.mem_reachable.mp reached
  obtain ⟨model, known, own⟩ := mem_items_withoutMetrics.mp inside
  rcases own with ⟨entity, _, rfl⟩ | ⟨⟨entity, identifying, behind⟩, _⟩
  · exact Nat.zero_le _
  · rcases has with ⟨another, _, rfl⟩ | ⟨⟨another, _, linked⟩, _⟩
    · have own := List.mem_of_mem_filter identifying
      have alone : .entity entity.name [] ∈ (withoutMetrics catalog filters).items :=
        mem_items_withoutMetrics.mpr ⟨model, known, .inl ⟨entity, own, rfl⟩⟩
      exact least (.entity entity.name []) (ItemPattern.mem_reachable.mpr ⟨alone, kind, links⟩)
    · rw [behind, linked]
      exact Nat.le_refl 1

end Scope

namespace Manifest.Extends

variable {base further whole : Manifest} {hops : Nat}

/-! ## Scopes of metrics -/

private theorem ofMeasure_follows (grown : base.Extends further whole) (metric measure : String) :
    FollowsFrom (Scope.ofMeasure ⟨base, hops⟩ metric measure)
      (Scope.ofMeasure ⟨whole, hops⟩ metric measure) := by
  cases found : (Catalog.mk base hops).measure? measure with
  | none =>
      rw [Scope.ofMeasure, found]
      exact fun state => .error _ _
  | some owned =>
      rw [Scope.ofMeasure, Scope.ofMeasure, found, grown.measure?_eq found,
        grown.elementsOf_eq found]
      exact .refl _

private theorem ofMetric_follows (grown : base.Extends further whole) {depth deeper : Nat}
    (bound : depth ≤ deeper) (name : String) (place : Option InputPlace) :
    FollowsFrom (Scope.ofMetric ⟨base, hops⟩ depth name place)
      (Scope.ofMetric ⟨whole, hops⟩ deeper name place) := by
  induction depth generalizing deeper name place with
  | zero => exact fun state => .error _ _
  | succ depth ih =>
      obtain ⟨deeper, rfl⟩ := Nat.exists_eq_succ_of_ne_zero (Nat.ne_zero_of_lt bound)
      cases found : (Catalog.mk base hops).metric? name with
      | none =>
          rw [Scope.ofMetric, found]
          exact fun state => .error _ _
      | some metric =>
          simp only [Scope.ofMetric, found, grown.metric?_eq found]
          refine (FollowsFrom.mapM fun input _ => grown.ofMeasure_follows _ _).bind fun _ => ?_
          refine (FollowsFrom.mapM fun numbered _ => ?_).bind fun _ => .refl _
          exact ih (Nat.le_of_succ_le_succ bound) _ _

/-- A query for metrics has the same scope. -/
theorem ofQuery_follows (grown : base.Extends further whole) {metrics : List String}
    (some : metrics ≠ []) (filters : List String) :
    Follows (Scope.ofQuery ⟨base, hops⟩ metrics filters)
      (Scope.ofQuery ⟨whole, hops⟩ metrics filters) := by
  have inputs : FollowsFrom (Scope.queryInputs ⟨base, hops⟩ metrics)
      (Scope.queryInputs ⟨whole, hops⟩ metrics) := by
    unfold Scope.queryInputs
    rw [if_neg (by simpa using some), if_neg (by simpa using some)]
    exact .mapM fun metric _ => grown.ofMetric_follows grown.metricDepth_le metric none
  exact (inputs.bind fun _ => .refl _) 0 |>.map Prod.fst

/-! ## Scopes without metrics -/

/-- What a further model lists has another name than what is listed with as many links. -/
theorem name_ne_of_hasLocal (grown : base.Extends further whole) {model other : SemanticModel}
    (known : model ∈ base.models) (new : other ∈ further.models) {item rival : GroupByItem}
    (has : model.HasLocal item) (also : other.HasLocal rival)
    (level : rival.links.length = item.links.length) : rival.name ≠ item.name := by
  intro same
  rcases has with ⟨entity, own, rfl⟩ | ⟨⟨_, _, behind⟩, dimension, own, offers⟩
  · rcases also with ⟨another, inside, rfl⟩ | ⟨⟨_, _, linked⟩, _⟩
    · exact grown.not_mem_entityNames known own new another inside same
    · rw [linked] at level
      exact nomatch level
  · rcases also with ⟨another, _, rfl⟩ | ⟨_, another, inside, also⟩
    · rw [behind] at level
      exact nomatch level
    · rw [Dimension.name_of_offers offers, Dimension.name_of_offers also] at same
      exact grown.newDimensions _ (mem_dimensionNames new inside)
        (same ▸ mem_dimensionNames known own)

variable {filters : List String}

/-- An item listed without metrics before an extension is listed behind it. -/
theorem mem_items_withoutMetrics (grown : base.Extends further whole) {item : GroupByItem}
    (listed : item ∈ (Scope.withoutMetrics ⟨base, hops⟩ filters).items) :
    item ∈ (Scope.withoutMetrics ⟨whole, hops⟩ filters).items := by
  obtain ⟨model, known, has⟩ := Scope.mem_items_withoutMetrics.mp listed
  exact Scope.mem_items_withoutMetrics.mpr ⟨model, grown.models.mem_iff.mpr (.inl known), has⟩

/-- If something matches then nothing further does. -/
theorem matching_eq (grown : base.Extends further whole) {pattern : ItemPattern}
    {item : GroupByItem}
    (matched : item ∈ pattern.matching (Scope.withoutMetrics ⟨base, hops⟩ filters).items) :
    pattern.matching (Scope.withoutMetrics ⟨whole, hops⟩ filters).items =
      pattern.matching (Scope.withoutMetrics ⟨base, hops⟩ filters).items := by
  have ascending : ∀ scope : Scope, (pattern.matching scope.items).Pairwise
      fun first second => (compare first second).isLE = true :=
    fun scope => ((pairwise_sortedDistinct _).filter _).filter _
  have distinct : ∀ scope : Scope, (pattern.matching scope.items).Nodup :=
    fun scope => ItemPattern.nodup_matching (nodup_sortedDistinct _)
  have widen : ∀ {rival : GroupByItem},
      rival ∈ pattern.reachable (Scope.withoutMetrics ⟨base, hops⟩ filters).items →
        rival ∈ pattern.reachable (Scope.withoutMetrics ⟨whole, hops⟩ filters).items := by
    intro rival reached
    obtain ⟨listed, accepted⟩ := ItemPattern.mem_reachable.mp reached
    exact ItemPattern.mem_reachable.mpr ⟨grown.mem_items_withoutMetrics listed, accepted⟩
  refine eq_of_mem_iff (ascending _) (ascending _) (distinct _) (distinct _) fun other => ?_
  constructor
  · intro matching
    obtain ⟨reached, agrees, least⟩ := ItemPattern.mem_matching.mp matching
    obtain ⟨listed, kind, links⟩ := ItemPattern.mem_reachable.mp reached
    obtain ⟨another, among, also⟩ := Scope.mem_items_withoutMetrics.mp listed
    have known : another ∈ base.models := by
      refine (grown.models.mem_iff.mp among).resolve_right fun new => ?_
      obtain ⟨itemReached, itemAgrees, _⟩ := ItemPattern.mem_matching.mp matched
      obtain ⟨model, known, has⟩ :=
        Scope.mem_items_withoutMetrics.mp (ItemPattern.mem_reachable.mp itemReached).1
      have level := Nat.le_antisymm (least item (widen itemReached))
        (Scope.length_links_le_of_mem_matching matched also kind links)
      exact grown.name_ne_of_hasLocal known new has also level
        ((ItemPattern.name_of_agrees agrees).trans (ItemPattern.name_of_agrees itemAgrees).symm)
    refine ItemPattern.mem_matching.mpr ⟨ItemPattern.mem_reachable.mpr ⟨?_, kind, links⟩, agrees,
      fun rival reached => least rival (widen reached)⟩
    exact Scope.mem_items_withoutMetrics.mpr ⟨another, known, also⟩
  · intro matching
    obtain ⟨reached, agrees, _⟩ := ItemPattern.mem_matching.mp matching
    refine ItemPattern.mem_matching.mpr ⟨widen reached, agrees, fun rival reached => ?_⟩
    obtain ⟨listed, kind, links⟩ := ItemPattern.mem_reachable.mp reached
    obtain ⟨another, _, also⟩ := Scope.mem_items_withoutMetrics.mp listed
    exact Scope.length_links_le_of_mem_matching matching also kind links

/-- Without metrics, a reference still means what it meant. -/
theorem refinds_withoutMetrics (grown : base.Extends further whole) :
    (Scope.withoutMetrics ⟨base, hops⟩ filters).Refinds
      (Scope.withoutMetrics ⟨whole, hops⟩ filters) := by
  refine ⟨rfl, fun limit pattern input item found => ?_, fun allowed listed => ?_⟩
  · obtain ⟨preferred, _⟩ := Scope.resolve_eq_resolved_iff.mp found
    have again : ((Scope.withoutMetrics ⟨whole, hops⟩ filters).resolve limit pattern
        input).outcome = .resolved item := by
      refine Scope.resolve_eq_resolved_iff.mpr ⟨?_, nofun⟩
      rwa [Resolution.IsPreferred, grown.matching_eq preferred.1]
    obtain ⟨model, known, has⟩ := Scope.mem_items_withoutMetrics.mp
      (ItemPattern.mem_reachable.mp (ItemPattern.mem_matching.mp preferred.1).1).1
    rw [Scope.resolve_eq_of_resolved again, Scope.resolve_eq_of_resolved found]
    congr 1
    refine filter_sortedDistinct_eq fun element same => ?_
    rw [List.flatMap_singleton, List.flatMap_singleton]
    exact grown.mem_elementsWithoutMetrics_iff known (beq_iff_eq.mp same ▸ has)
  · refine filter_sortedDistinct_eq fun item among => ?_
    have here := listed item (List.contains_iff_mem.mp among)
    exact iff_of_true (mem_sortedDistinct.mp (grown.mem_items_withoutMetrics here))
      (mem_sortedDistinct.mp here)

/-- The scope of a query still finds whatever it found. -/
theorem exists_refinds (grown : base.Extends further whole) {metrics : List String} {scope : Scope}
    (built : Scope.ofQuery ⟨base, hops⟩ metrics filters = .ok scope) :
    ∃ other, Scope.ofQuery ⟨whole, hops⟩ metrics filters = .ok other ∧ scope.Refinds other := by
  by_cases none : metrics = []
  · subst none
    obtain ⟨⟩ := built
    exact ⟨_, rfl, grown.refinds_withoutMetrics⟩
  · exact ⟨scope, grown.ofQuery_follows none filters scope built, .refl scope⟩

end Manifest.Extends

end MetricQuery

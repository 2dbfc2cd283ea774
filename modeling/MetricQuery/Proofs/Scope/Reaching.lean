import MetricQuery.Proofs.Collection.Interleaving
import MetricQuery.Proofs.Element.Joining
import MetricQuery.Proofs.Following
import MetricQuery.Proofs.Scope.Resolution

/-! # Scopes under a shorter reach

With a shorter reach of joins the scope of a query is the same, but for elements behind more links
than the reach (`Scope.ofQuery_within`). Items behind more links are neither preferred to what has
been found nor the same item, so that whatever is found with a reach is found with every longer one
(`Scope.ofQuery_keepsFinding`).
-/

namespace MetricQuery

/-! ## Elements -/

namespace Element

/-- Whether an element stands behind at most so many links. -/
def isWithin (reach : Nat) (element : Element) : Bool := element.item.links.length ≤ reach

variable {manifest : Manifest} {model : SemanticModel} {measure : Measure} {element : Element}
  {reach further : Nat}

/-- An element is within reach when its item has no more links than that. -/
theorem isWithin_iff : element.isWithin reach = true ↔ element.item.links.length ≤ reach :=
  decide_eq_true_iff

/-- A model's own elements are within every reach. -/
theorem isWithin_of_mem_ofModel (some : 1 ≤ reach) (member : element ∈ ofModel model) :
    element.isWithin reach = true := by
  rw [isWithin_iff]
  rcases mem_items_ofModel.mp (List.mem_map_of_mem member) with ⟨_, _, same⟩ | ⟨⟨_, _, links⟩, _⟩
  · rw [same]
    exact Nat.zero_le reach
  · rw [links]
    exact some

private theorem isWithin_of_mem_ofMetricTime (member : element ∈ ofMetricTime model measure) :
    element.isWithin reach = true := by
  unfold ofMetricTime at member
  split at member
  · exact nomatch member
  · obtain ⟨_, _, _, same⟩ := mem_items_ofTime.mp (List.mem_map_of_mem member)
    rw [isWithin_iff, same]
    exact Nat.zero_le reach

private theorem isWithin_of_mem_ofMetrics (some : 1 ≤ reach)
    (member : element ∈ ofMetrics manifest.models manifest.metrics model) :
    element.isWithin reach = true := by
  obtain ⟨entity, _, member⟩ := List.mem_flatMap.mp member
  obtain ⟨metric, _, made⟩ := List.mem_filterMap.mp member
  split at made
  · cases made
  · split at made
    · obtain ⟨⟩ := made
      exact isWithin_iff.mpr some
    · cases made

/-- With a shorter reach, joins lead to what has no more links. -/
theorem mem_ofJoins_within {models : List SemanticModel} (longer : reach ≤ further) :
    element ∈ ofJoins models reach model [] [model.name] ↔
      element ∈ ofJoins models further model [] [model.name] ∧ element.isWithin reach = true := by
  have length : ∀ {before : List Join} {last : Join}, element.IsBehind before last →
      element.item.links.length = (before ++ [last]).length := fun behind => by
    rw [behind.links, Join.links, List.length_map]
  rw [mem_ofJoins_iff_isPath, mem_ofJoins_iff_isPath, isWithin_iff]
  constructor
  · intro given
    obtain ⟨before, last, short, path, behind⟩ := given
    exact ⟨⟨before, last, short.trans longer, path, behind⟩, length behind ▸ short⟩
  · intro given
    obtain ⟨⟨before, last, _, path, behind⟩, short⟩ := given
    exact ⟨before, last, length behind ▸ short, path, behind⟩

/-- With a shorter reach, a measure can be grouped by what has no more links. -/
theorem ofMeasure_within (some : 1 ≤ reach) (longer : reach ≤ further) :
    ofMeasure manifest reach model measure =
      (ofMeasure manifest further model measure).filter (isWithin reach) := by
  refine sortedDistinct_eq_filter fun element => ?_
  simp only [List.mem_append, or_and_right, mem_ofJoins_within longer]
  refine or_congr (or_congr_left (or_congr ?_ ?_)) ?_
  · exact (and_iff_left_of_imp (isWithin_of_mem_ofModel some)).symm
  · exact (and_iff_left_of_imp isWithin_of_mem_ofMetricTime).symm
  · exact (and_iff_left_of_imp (isWithin_of_mem_ofMetrics some)).symm

end Element

/-! ## Catalogs -/

namespace Catalog

variable {manifest : Manifest} {reach further : Nat}

private theorem elementsOf_within (some : 1 ≤ reach) (longer : reach ≤ further) (measure : String) :
    (Catalog.mk manifest reach).elementsOf measure =
      ((Catalog.mk manifest further).elementsOf measure).filter (Element.isWithin reach) := by
  have same : (Catalog.mk manifest reach).measure? measure =
      (Catalog.mk manifest further).measure? measure := rfl
  rw [elementsOf, elementsOf, same]
  cases (Catalog.mk manifest further).measure? measure with
  | none => rfl
  | some owned => exact Element.ofMeasure_within some longer

/-- Without a measure nothing is behind more than one link. -/
theorem elementsWithoutMetrics_within (some : 1 ≤ reach) :
    (Catalog.mk manifest reach).elementsWithoutMetrics =
      ((Catalog.mk manifest further).elementsWithoutMetrics).filter (Element.isWithin reach) := by
  refine (List.filter_eq_self.mpr fun element member => ?_).symm
  obtain ⟨model, _, own⟩ := List.mem_flatMap.mp (mem_sortedDistinct.mp member)
  exact Element.isWithin_of_mem_ofModel some own

end Catalog

/-! ## Scopes -/

namespace Scope

mutual

/-- A scope without the elements behind more than so many links. -/
def within (reach : Nat) : Scope → Scope
  | node id kind elements inputs =>
    node id kind (elements.filter (Element.isWithin reach)) (withinAll reach inputs)

/-- Several scopes, each with what is within reach. -/
def withinAll (reach : Nat) : List Scope → List Scope
  | [] => []
  | scope :: rest => within reach scope :: withinAll reach rest

end

private theorem withinAll_eq_map (reach : Nat) (scopes : List Scope) :
    withinAll reach scopes = scopes.map (within reach) := by
  induction scopes with
  | nil => rw [withinAll, List.map_nil]
  | cons scope rest ih => rw [withinAll, ih, List.map_cons]

variable {manifest : Manifest} {reach further : Nat} {scope : Scope}

/-- The elements kept are those within reach. -/
theorem elements_within : (scope.within reach).elements =
    scope.elements.filter (Element.isWithin reach) := by
  cases scope
  rw [within, elements, elements]

private theorem id_within : (scope.within reach).id = scope.id := by
  cases scope
  rw [within, id, id]

private theorem kind_within : (scope.within reach).kind = scope.kind := by
  cases scope
  rw [within, kind, kind]

mutual

/-- The nodes stay, each with what is within reach. -/
theorem nodes_within : (scope : Scope) →
    (scope.within reach).nodes = scope.nodes.map (within reach)
  | node id kind elements inputs => by
    rw [nodes, List.map_append, ← nodesOf_withinAll inputs, List.map_singleton, within, nodes]

/-- The nodes of several scopes stay, each with what is within reach. -/
theorem nodesOf_withinAll : (scopes : List Scope) →
    nodesOf (withinAll reach scopes) = (nodesOf scopes).map (within reach)
  | [] => by rw [withinAll, nodesOf, List.map_nil]
  | scope :: rest => by
    rw [withinAll, nodesOf, nodesOf, List.map_append, nodes_within scope, nodesOf_withinAll rest]

end

/-- A measure below a node, without the elements behind more than so many links. -/
def ReachedMeasure.within (reach : Nat) (reached : ReachedMeasure) : ReachedMeasure :=
  { reached with elements := reached.elements.filter (Element.isWithin reach) }

mutual

/-- The measures behind a scope stay, each with what is within reach. -/
theorem measuresBehind_within (path : ScopePath) : (scope : Scope) →
    (scope.within reach).measuresBehind path =
      (scope.measuresBehind path).map (ReachedMeasure.within reach)
  | node id kind elements inputs => by
    rw [within]
    cases kind <;> simp only [measuresBehind, measuresOfBehind_withinAll _ inputs, List.map_cons,
      ReachedMeasure.within]

/-- The measures behind several scopes stay, each with what is within reach. -/
theorem measuresOfBehind_withinAll (path : ScopePath) : (scopes : List Scope) →
    measuresOfBehind path (withinAll reach scopes) =
      (measuresOfBehind path scopes).map (ReachedMeasure.within reach)
  | [] => by rw [withinAll, measuresOfBehind, List.map_nil]
  | scope :: rest => by
    rw [withinAll, measuresOfBehind, measuresOfBehind, List.map_append,
      measuresBehind_within path scope, measuresOfBehind_withinAll path rest]

end

/-- Restricting before or after the union is the same. -/
theorem union_within (inputs : List Scope) : union (inputs.map (within reach)) =
    (union inputs).filter (Element.isWithin reach) := by
  refine sortedDistinct_eq_filter fun element => ?_
  simp only [List.flatMap_map, elements_within, List.mem_flatMap, List.mem_filter, ← and_assoc,
    exists_and_right]

/-! ## Building -/

/-- A node made of restricted parts is the restricted node. -/
theorem create_within (kind : ScopeKind) (elements : List Element) (inputs : List Scope) :
    create kind (elements.filter (Element.isWithin reach)) (inputs.map (within reach)) =
      within reach <$> create kind elements inputs := by
  simp only [create, map_bind, map_pure, within, withinAll_eq_map]

/-- A measure's scope over a shorter reach is the one over a longer reach, restricted. -/
theorem ofMeasure_within (some : 1 ≤ reach) (longer : reach ≤ further) (metric measure : String) :
    ofMeasure ⟨manifest, reach⟩ metric measure =
      within reach <$> ofMeasure ⟨manifest, further⟩ metric measure := by
  have same : (Catalog.mk manifest reach).measure? measure =
      (Catalog.mk manifest further).measure? measure := rfl
  rw [ofMeasure, ofMeasure, same, Catalog.elementsOf_within some longer]
  cases (Catalog.mk manifest further).measure? measure with
  | none => rfl
  | some owned => exact create_within (.measure measure) _ []

/-- By induction on how deep metrics can be nested. -/
theorem ofMetric_within (some : 1 ≤ reach) (longer : reach ≤ further) (depth : Nat)
    (name : String) (place : Option InputPlace) :
    ofMetric ⟨manifest, reach⟩ depth name place =
      within reach <$> ofMetric ⟨manifest, further⟩ depth name place := by
  induction depth generalizing name place with
  | zero => rfl
  | succ depth ih =>
      have same : (Catalog.mk manifest reach).metric? name =
          (Catalog.mk manifest further).metric? name := rfl
      rw [ofMetric, ofMetric, same]
      cases (Catalog.mk manifest further).metric? name with
      | none => rfl
      | some metric =>
          simp only [ofMeasure_within some longer, ih, mapM_map, map_bind, bind_map_left,
            ← List.map_append, union_within, create_within]

private theorem queryInputs_within (some : 1 ≤ reach) (longer : reach ≤ further)
    (metrics : List String) :
    queryInputs ⟨manifest, reach⟩ metrics =
      List.map (within reach) <$> queryInputs ⟨manifest, further⟩ metrics := by
  unfold queryInputs
  split
  · rw [Catalog.elementsWithoutMetrics_within some]
    exact (congrArg (· >>= fun node => pure [node]) (create_within .noMetrics _ [])).trans rfl
  · rw [← mapM_map]
    exact mapM_congr fun metric _ => ofMetric_within some longer _ metric none

/-- With a shorter reach the scope of a query lacks what is behind more links, and nothing else. -/
theorem ofQuery_within (some : 1 ≤ reach) (longer : reach ≤ further)
    (metrics filters : List String) :
    ofQuery ⟨manifest, reach⟩ metrics filters =
      within reach <$> ofQuery ⟨manifest, further⟩ metrics filters := by
  have built : buildQuery ⟨manifest, reach⟩ metrics filters =
      within reach <$> buildQuery ⟨manifest, further⟩ metrics filters := by
    simp only [buildQuery, queryInputs_within some longer, bind_map_left, union_within,
      create_within, map_bind]
  simp only [ofQuery, built, StateT.run'_eq, StateT.run_map, Functor.map_map]

/-! ## Finding -/

variable {limit : Nat} {pattern : ItemPattern} {input : String} {item other : GroupByItem}

/-- The items kept are those with no more links than the reach. -/
theorem mem_items_within :
    item ∈ (scope.within reach).items ↔ item ∈ scope.items ∧ item.links.length ≤ reach := by
  simp only [items, mem_items, offers, elements_within, List.any_filter, List.any_eq_true,
    Bool.and_eq_true, beq_iff_eq, Element.isWithin_iff]
  constructor
  · intro given
    obtain ⟨element, among, short, rfl⟩ := given
    exact ⟨⟨element, among, rfl⟩, short⟩
  · intro given
    obtain ⟨⟨element, among, rfl⟩, short⟩ := given
    exact ⟨element, among, short, rfl⟩

/-- Whatever matches with a shorter reach has the fewest links with any reach, so that nothing
behind more links matches. -/
theorem mem_matching_within (found : item ∈ pattern.matching (scope.within reach).items) :
    other ∈ pattern.matching (scope.within reach).items ↔ other ∈ pattern.matching scope.items := by
  have mem_reachable : ∀ {rival : GroupByItem},
      rival ∈ pattern.reachable (scope.within reach).items ↔
        rival ∈ pattern.reachable scope.items ∧ rival.links.length ≤ reach := by
    intro rival
    rw [ItemPattern.mem_reachable, ItemPattern.mem_reachable, mem_items_within, and_right_comm]
  obtain ⟨reached, -, fewest⟩ := ItemPattern.mem_matching.mp found
  obtain ⟨inside, short⟩ := mem_reachable.mp reached
  rw [ItemPattern.mem_matching, ItemPattern.mem_matching, mem_reachable]
  constructor
  · intro matched
    obtain ⟨⟨present, near⟩, agrees, least⟩ := matched
    refine ⟨present, agrees, fun rival among => ?_⟩
    by_cases reachable : rival.links.length ≤ reach
    · exact least rival (mem_reachable.mpr ⟨among, reachable⟩)
    · exact near.trans (Nat.le_of_not_le reachable)
  · intro matched
    obtain ⟨present, agrees, least⟩ := matched
    exact ⟨⟨present, (least item inside).trans short⟩, agrees,
      fun rival among => least rival (mem_reachable.mp among).1⟩

/-- What is found with a shorter reach is found in the same way with a longer one. -/
theorem resolve_within
    (found : ((scope.within reach).resolve limit pattern input).outcome = .resolved item) :
    scope.resolve limit pattern input = (scope.within reach).resolve limit pattern input := by
  obtain ⟨⟨matched, stands⟩, everywhere⟩ := resolve_eq_resolved_iff.mp found
  have short : item.links.length ≤ reach := (mem_items_within.mp
    (ItemPattern.mem_reachable.mp (ItemPattern.mem_matching.mp matched).1).1).2
  have again : (scope.resolve limit pattern input).outcome = .resolved item := by
    refine resolve_eq_resolved_iff.mpr ⟨⟨(mem_matching_within matched).mp matched,
      fun other among => stands other ((mem_matching_within matched).mpr among)⟩, ?_⟩
    intro reached among
    rw [measures, measuresBehind_within, List.forall_mem_map] at everywhere
    obtain ⟨element, offered, same⟩ := List.any_eq_true.mp (everywhere reached among)
    exact List.any_eq_true.mpr ⟨element, List.mem_of_mem_filter offered, same⟩
  rw [resolve_eq_of_resolved found, resolve_eq_of_resolved again, elements_within,
    List.filter_filter]
  congr 1
  refine List.filter_congr fun element _ => ?_
  by_cases same : element.item = item
  · rw [Element.isWithin_iff.mpr (same ▸ short), Bool.and_true]
  · rw [beq_eq_false_iff_ne.mpr same, Bool.false_and]

/-- Whether a node finds in the same way, and without issues, whatever another one finds. -/
structure KeepsFinding (node wide : Scope) : Prop where
  id : wide.id = node.id
  kind : wide.kind = node.kind
  resolve : ∀ limit pattern input item,
    (node.resolve limit pattern input).outcome = .resolved item →
      wide.resolve limit pattern input = node.resolve limit pattern input ∧
        (wide.resolve limit pattern input).issues = []

/-- With a longer reach a query still has a scope, of the same nodes, and whatever a reference has
been found to mean at a node it still means there. -/
theorem ofQuery_keepsFinding (some : 1 ≤ reach) (longer : reach ≤ further)
    {metrics filters : List String}
    (built : ofQuery ⟨manifest, reach⟩ metrics filters = .ok scope) :
    ∃ wider, ofQuery ⟨manifest, further⟩ metrics filters = .ok wider ∧
      List.Forall₂ KeepsFinding scope.nodes wider.nodes := by
  rw [ofQuery_within some longer] at built
  obtain ⟨wider, again, rfl⟩ := map_eq_ok.mp built
  refine ⟨wider, again, ?_⟩
  rw [nodes_within, List.forall₂_map_left_iff]
  refine List.forall₂_same.mpr fun node _ => ⟨id_within.symm, kind_within.symm, ?_⟩
  intro limit pattern input item found
  have same := resolve_within found
  exact ⟨same, same ▸ congrArg Resolution.issues (resolve_eq_of_resolved found)⟩

/-- Orders of customers, who live in areas; both customers and areas have a region. -/
def areasManifest : Manifest :=
  ⟨[⟨"orders", "shop.orders", none, [⟨"customer", .foreign, none⟩], [],
      [⟨"amount", .sum, none, none⟩], none⟩,
    ⟨"customers", "shop.customers", none, [⟨"customer", .primary, none⟩, ⟨"area", .foreign, none⟩],
      [⟨"region", .categorical, none, none⟩], [], none⟩,
    ⟨"areas", "shop.areas", none, [⟨"area", .primary, none⟩],
      [⟨"region", .categorical, none, none⟩], [], none⟩],
    [⟨"revenue", .simple, ⟨some ⟨"amount", none⟩, none, none, none, []⟩, none, none⟩]⟩

/-- Any dimension that is a region. -/
def anyRegion : ItemPattern := ⟨[.dimension], "region", [], none, none, none⟩

/-- The region of a customer is still found where two joins reach the region of the area too. -/
theorem ofQuery_keepsFinding_region : ∃ scope wider,
    ofQuery ⟨areasManifest, 1⟩ ["revenue"] [] = .ok scope ∧
    ofQuery ⟨areasManifest, 2⟩ ["revenue"] [] = .ok wider ∧
    anyRegion.reachable scope.items = [.dimension "region" ["customer"]] ∧
    anyRegion.reachable wider.items =
      [.dimension "region" ["customer"], .dimension "region" ["customer", "area"]] ∧
    List.Forall₂ KeepsFinding scope.nodes wider.nodes := by
  obtain ⟨scope, built, one⟩ : ∃ scope, ofQuery ⟨areasManifest, 1⟩ ["revenue"] [] = .ok scope ∧
      anyRegion.reachable scope.items = [.dimension "region" ["customer"]] := ⟨_, rfl, by decide⟩
  obtain ⟨wider, again, keeps⟩ := ofQuery_keepsFinding (by decide : 1 ≤ 1) (by decide : 1 ≤ 2) built
  have two : anyRegion.reachable wider.items =
      [.dimension "region" ["customer"], .dimension "region" ["customer", "area"]] := by
    obtain ⟨⟩ := again
    decide
  exact ⟨scope, wider, built, again, one, two, keeps⟩

end Scope

end MetricQuery

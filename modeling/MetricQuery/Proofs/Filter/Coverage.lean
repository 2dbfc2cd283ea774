import MetricQuery.Proofs.Filter.Gathering
import MetricQuery.Proofs.Scope.Feeding

/-! # What is known about the filters of a scope

Going through a scope without a failure leaves one meaning for each reference in each filter
declared there, and this is offered by every measure of the metrics that the filter is about
(`FilterLookup.Gathers.isSettled`).
-/

namespace MetricQuery

private theorem LocatedFilters.metrics_of_mem_atKind {catalog : Catalog} {kind : ScopeKind}
    {located : LocatedFilters} (member : located ∈ atKind catalog kind) :
    located.location.metrics = kind.metrics := by
  cases kind with
  | measure name => exact nomatch member
  | noMetrics => exact nomatch member
  | query metrics filters =>
      rw [List.mem_singleton.mp member]
      rfl
  | metric name place =>
      obtain ⟨_, _, ⟨_, rfl⟩ | ⟨_, _, rfl⟩⟩ := mem_atKind_metric.mp member
      · rfl
      · rfl

namespace FilterLookup

open ReferenceMemo (Ensures)

variable {catalog : Catalog} {scope : Scope}

/-- Whether it is known what each reference in a template at a location means. -/
def Knows (lookup : FilterLookup) (location : FilterLocation) (template : String) : Prop :=
  ∃ references, Template.references template = .ok references ∧
    ∀ reference ∈ references, ⟨location, reference⟩ ∈ lookup.findings.map FilterFinding.key

/-- A lookup without errors knows every filter declared at a node it gathers. -/
theorem Gathers.knows {limit : Nat} {lookup : FilterLookup} {nodes : List PlacedNode}
    (gathers : Gathers catalog limit lookup nodes) (fine : lookup.hasErrors = false)
    {placed : PlacedNode} (among : placed ∈ nodes) {location : FilterLocation} {template : String}
    (declared : placed.node.kind.Declares catalog location template) :
    lookup.Knows location template := by
  obtain ⟨located, member, rfl, inside⟩ := LocatedFilters.declares_iff.mp declared
  cases read : Template.references template with
  | error error =>
      have failed := gathers.hasErrors_iff.mpr ⟨placed, among, .unreadable declared read⟩
      rw [fine] at failed
      exact nomatch failed
  | ok references =>
      refine ⟨references, read, fun reference mentioned => ?_⟩
      exact gathers.known fine placed among _ (.intro member inside read mentioned)

/-- A lookup over the whole scope knows every filter declared at any of its nodes. -/
theorem Gathers.knows_of_mem_nodes {limit : Nat} {lookup : FilterLookup}
    (gathers : Gathers catalog limit lookup scope.placed) (fine : lookup.hasErrors = false)
    (ended : scope.Ended) : ∀ node ∈ scope.nodes, ∀ location template,
      node.kind.Declares catalog location template → lookup.Knows location template := by
  rw [← ended.map_node_placedBehind []]
  exact List.forall_mem_map.mpr fun _ among _ _ declared => gathers.knows fine among declared

/-- What is found is found for a reference in a filter that some node declares. -/
theorem Gathers.exists_declaration {limit : Nat} {lookup : FilterLookup}
    (gathers : Gathers catalog limit lookup scope.placed) (ended : scope.Ended)
    {finding : FilterFinding} (member : finding ∈ lookup.findings) :
    ∃ node ∈ scope.nodes, ∃ template references,
      node.kind.Declares catalog finding.key.location template ∧
      Template.references template = .ok references ∧ finding.key.reference ∈ references := by
  obtain ⟨placed, isPlaced, finds⟩ := gathers.exists_finds member
  have inside : placed.node ∈ scope.nodes := by
    rw [← ended.map_node_placedBehind []]
    exact List.mem_map_of_mem isPlaced
  obtain ⟨declared, among, read, mentioned⟩ := finds
  have declares := LocatedFilters.declares_iff.mpr ⟨_, declared, rfl, among⟩
  exact ⟨placed.node, inside, _, _, declares, read, mentioned⟩

/-- Whether each reference in filters has one meaning, offered by the metrics that the filter is
about. -/
structure IsSettled (catalog : Catalog) (lookup : FilterLookup) : Prop where
  distinct : (lookup.findings.map FilterFinding.key).Nodup
  offered : ∀ finding ∈ lookup.findings, ∃ item, finding.item = some item ∧
    ∀ metric ∈ finding.key.location.metrics, catalog.Offers metric item

/-- What is found at a node for a reference is offered by the metrics of the node. -/
theorem offers_of_finds {metrics filters : List String}
    (ok : Scope.ofQuery catalog metrics filters = .ok scope) {limit : Nat} {placed : PlacedNode}
    (inside : placed.node ∈ scope.nodes) {finding : FilterFinding}
    (finds : placed.Finds catalog limit finding)
    (fine : finding.isFailure = false) : ∃ item, finding.item = some item ∧
      ∀ metric ∈ finding.key.location.metrics, catalog.Offers metric item := by
  obtain ⟨declared, _, _, _⟩ := finds
  rw [FilterFinding.isFailure, find, Issues.hasErrors_below] at fine
  obtain ⟨item, resolved⟩ := Scope.exists_resolved_of_hasErrors fine
  refine ⟨item, by rw [find, resolved]; rfl, fun metric member => ?_⟩
  apply Scope.offers_of_resolved ok inside resolved metric
  rwa [find, LocatedFilters.metrics_of_mem_atKind declared] at member

/-- What is found for a reference has its name and is of a kind that it can mean. -/
theorem named_of_finds {limit : Nat} {placed : PlacedNode} {finding : FilterFinding}
    (finds : placed.Finds catalog limit finding) {item : GroupByItem}
    (isItem : finding.item = some item) : item.name = finding.key.reference.name ∧
      item.kind ∈ ItemPattern.kindsOf finding.key.reference := by
  obtain ⟨_, _, _, _⟩ := finds
  have resolved := Outcome.eq_resolved isItem
  have preferred := (Scope.resolve_eq_resolved_iff.mp resolved).1
  obtain ⟨reached, agrees, _⟩ := ItemPattern.mem_matching.mp preferred.1
  simp only [ItemPattern.agrees, Bool.and_eq_true, beq_iff_eq] at agrees
  exact ⟨agrees.1.1.1, List.contains_iff_mem.mp (ItemPattern.mem_reachable.mp reached).2.1⟩

/-- Without an error it is settled what the filters of a query mean. -/
theorem Gathers.isSettled {metrics filters : List String}
    (ok : Scope.ofQuery catalog metrics filters = .ok scope) {limit : Nat} {lookup : FilterLookup}
    (gathers : Gathers catalog limit lookup scope.placed) (fine : lookup.hasErrors = false)
    (distinct : (lookup.findings.map FilterFinding.key).Nodup) : lookup.IsSettled catalog := by
  have placed : scope.placed.map PlacedNode.node = scope.nodes :=
    (Scope.ended_of_ofQuery ok).map_node_placedBehind []
  refine ⟨distinct, fun finding member => ?_⟩
  obtain ⟨node, among, finds⟩ := gathers.exists_finds member
  exact offers_of_finds ok (placed ▸ List.mem_map_of_mem among) finds
    (Bool.not_eq_true _ ▸ List.any_eq_false.mp (Bool.or_eq_false_iff.mp fine).1 finding member)

end FilterLookup

end MetricQuery

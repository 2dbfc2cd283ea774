import MetricQuery.Proofs.Element.Defining
import MetricQuery.Proofs.Scope.Resolution

/-! # Models behind a found item

At the node of a measure a reference is looked up among the items that are offered, whichever models
they come from. The elements of a found item are all that the measure has for it, so that they name
the models that contribute the item, one or more (`Scope.resolve_measure`).
-/

namespace MetricQuery

/-- Whether a model contributes an item to the elements of a measure. -/
def Catalog.Contributes (catalog : Catalog) (measure model : String) (item : GroupByItem) : Prop :=
  ∃ element ∈ catalog.elementsOf measure, element.item = item ∧ element.definedIn = some model

private theorem Catalog.definedIn_eq_of_mem_elementsOf {catalog : Catalog}
    (unambiguous : catalog.manifest.IsUnambiguous)
    (distinct : (catalog.manifest.metrics.map Metric.name).Nodup) {measure : String}
    {first second : Element} (left : first ∈ catalog.elementsOf measure)
    (right : second ∈ catalog.elementsOf measure) (same : first.item = second.item) :
    first.definedIn = second.definedIn := by
  cases found : catalog.measure? measure with
  | none =>
      rw [elementsOf, found] at left
      cases left
  | some owned =>
      obtain ⟨known, -⟩ := of_measure? found
      simp only [elementsOf, found] at left right
      have traced := Element.isTraced_of_mem_ofMeasure known left
      rw [same] at traced
      exact traced.definedIn_eq unambiguous distinct (Element.isTraced_of_mem_ofMeasure known right)

namespace Scope

open Resolution

/-- The node of a measure offers the elements of the measure. -/
theorem eq_leaf_of_ofMetric {catalog : Catalog} {depth : Nat} {name : String}
    {place : Option InputPlace} {before after : Nat} {scope : Scope}
    (ok : ofMetric catalog depth name place before = .ok (scope, after)) {other : Scope}
    (member : other ∈ scope.nodes) {measure : String} (leaf : other.kind = .measure measure) :
    ∃ id, other = node id (.measure measure) (catalog.elementsOf measure) [] := by
  induction depth generalizing name place before after scope with
  | zero => exact nomatch ok
  | succ depth ih =>
      obtain ⟨metric, id, measures, metrics, _, rfl, fromMeasures, fromMetrics⟩ := of_ofMetric ok
      rcases mem_nodes.mp member with ⟨input, among, inside⟩ | rfl
      · rcases List.mem_append.mp among with among | among
        · obtain ⟨_, _, _, _, created⟩ := exists_left_of_forall₂ fromMeasures among
          obtain ⟨_, number, rfl⟩ := of_ofMeasure created
          rw [nodes, nodesOf, List.nil_append, List.mem_singleton] at inside
          rw [inside] at leaf ⊢
          obtain ⟨⟩ := leaf
          exact ⟨number, rfl⟩
        · obtain ⟨_, _, _, _, created⟩ := exists_left_of_forall₂ fromMetrics among
          exact ih created inside
      · cases leaf

private theorem eq_leaf_of_ofQuery {catalog : Catalog} {metrics filters : List String}
    {scope : Scope}
    (ok : ofQuery catalog metrics filters = .ok scope) {other : Scope}
    (member : other ∈ scope.nodes) {measure : String} (leaf : other.kind = .measure measure) :
    ∃ id, other = node id (.measure measure) (catalog.elementsOf measure) [] := by
  by_cases none : metrics = []
  · subst none
    obtain ⟨⟩ := ok
    rcases mem_nodes.mp member with ⟨input, among, inside⟩ | rfl
    · rw [List.mem_singleton.mp among] at inside
      rcases mem_nodes.mp inside with ⟨_, absent, _⟩ | rfl
      · exact (List.not_mem_nil absent).elim
      · exact nomatch leaf
    · exact nomatch leaf
  · obtain ⟨id, inputs, rfl, created⟩ := of_ofQuery none ok
    rcases mem_nodes.mp member with ⟨input, among, inside⟩ | rfl
    · obtain ⟨_, _, _, _, created⟩ := exists_left_of_forall₂ created among
      exact eq_leaf_of_ofMetric created inside leaf
    · exact nomatch leaf

/-- **Where a found item is defined.** At the node of a measure a reference is found exactly if one
item stands for all matches among the items of the measure, regardless of the models that they come
from. The elements that come with the item name each model that contributes it, and no other. They
agree on a single one if each entity identifies at most one model. -/
theorem resolve_measure {catalog : Catalog} {metrics filters : List String} {scope : Scope}
    (built : ofQuery catalog metrics filters = .ok scope) {node : Scope}
    (member : node ∈ scope.nodes) {measure : String} (leaf : node.kind = .measure measure)
    (limit : Nat) (pattern : ItemPattern) (input : String) (item : GroupByItem) :
    ((node.resolve limit pattern input).outcome = .resolved item ↔
      IsPreferred pattern (Element.items (catalog.elementsOf measure)) item) ∧
    ((node.resolve limit pattern input).outcome = .resolved item →
      (∀ model, (∃ element ∈ (node.resolve limit pattern input).elements,
        element.definedIn = some model) ↔ catalog.Contributes measure model item) ∧
      (catalog.manifest.IsUnambiguous → (catalog.manifest.metrics.map Metric.name).Nodup →
        ∀ first ∈ (node.resolve limit pattern input).elements,
          ∀ second ∈ (node.resolve limit pattern input).elements,
            first.definedIn = second.definedIn)) := by
  obtain ⟨id, rfl⟩ := eq_leaf_of_ofQuery built member leaf
  refine ⟨?_, fun found => ⟨fun model => ?_, ?_⟩⟩
  · rw [resolve_eq_resolved_iff]
    refine and_iff_left_of_imp fun preferred => List.forall_mem_singleton.mpr ?_
    exact mem_items.mp (ItemPattern.mem_reachable.mp
      (ItemPattern.mem_matching.mp preferred.1).1).1
  · rw [resolve_eq_of_resolved found]
    simp only [List.mem_filter, beq_iff_eq, and_assoc]
    rfl
  · rw [resolve_eq_of_resolved found]
    intro unambiguous distinct first left second right
    obtain ⟨left, same⟩ := List.mem_filter.mp left
    obtain ⟨right, sameItem⟩ := List.mem_filter.mp right
    exact Catalog.definedIn_eq_of_mem_elementsOf unambiguous distinct left right
      ((beq_iff_eq.mp same).trans (beq_iff_eq.mp sameItem).symm)

/-- Orders of customers, and two models with one row per customer that both have regions. -/
def accountsCatalog : Catalog where
  maxHops := 2
  manifest :=
    ⟨[⟨"orders", "shop.orders", none, [⟨"customer", .foreign, none⟩], [],
        [⟨"amount", .sum, none, none⟩], none⟩,
      ⟨"customers", "shop.customers", none, [⟨"customer", .primary, none⟩],
        [⟨"region", .categorical, none, none⟩], [], none⟩,
      ⟨"accounts", "shop.accounts", none, [⟨"customer", .unique, none⟩],
        [⟨"region", .categorical, none, none⟩], [], none⟩],
      [⟨"revenue", .simple, ⟨some ⟨"amount", none⟩, none, none, none, []⟩, none, none⟩]⟩

/-- The region of a customer, named by itself. -/
def regionPattern : ItemPattern := ⟨ItemKind.all, "region", ["customer"], none, none, none⟩

/-- The node of the measure of the orders. -/
def amountNode : Scope := node 0 (.measure "amount") (accountsCatalog.elementsOf "amount") []

/-- The customer's region resolves at the measure although two models define it. -/
theorem resolve_amountNode : amountNode.resolve 6 regionPattern "customer__region" =
    ⟨.resolved (.dimension "region" ["customer"]),
      [⟨.dimension "region" ["customer"], some "accounts", [.joined]⟩,
        ⟨.dimension "region" ["customer"], some "customers", [.joined]⟩], []⟩ := by
  decide +kernel

/-- Both models that contribute the item are named by the elements returned. -/
theorem resolve_measure_amount : ∃ scope, ofQuery accountsCatalog ["revenue"] [] = .ok scope ∧
    amountNode ∈ scope.nodes ∧ amountNode.kind = .measure "amount" ∧
    IsPreferred regionPattern (Element.items (accountsCatalog.elementsOf "amount"))
      (.dimension "region" ["customer"]) ∧
    ∀ model, (∃ element ∈ (amountNode.resolve 6 regionPattern "customer__region").elements,
      element.definedIn = some model) ↔
        accountsCatalog.Contributes "amount" model (.dimension "region" ["customer"]) := by
  obtain ⟨scope, built, member⟩ : ∃ scope,
      ofQuery accountsCatalog ["revenue"] [] = .ok scope ∧ amountNode ∈ scope.nodes :=
    ⟨_, rfl, List.mem_cons_self⟩
  have found : (amountNode.resolve 6 regionPattern "customer__region").outcome =
      .resolved (.dimension "region" ["customer"]) := by rw [resolve_amountNode]
  obtain ⟨preferred, models⟩ := resolve_measure built member rfl 6 regionPattern
    "customer__region" (.dimension "region" ["customer"])
  exact ⟨scope, built, member, rfl, preferred.mp found, (models found).1⟩

/-- Two models have the region of a customer, which is not reported but found as a single item. -/
theorem not_ambiguous_region : ∃ scope,
    ofQuery accountsCatalog ["revenue"] [] = .ok scope ∧ amountNode ∈ scope.nodes ∧
    amountNode.kind = .measure "amount" ∧
    amountNode.resolve 6 regionPattern "customer__region" =
      ⟨.resolved (.dimension "region" ["customer"]),
        [⟨.dimension "region" ["customer"], some "accounts", [.joined]⟩,
          ⟨.dimension "region" ["customer"], some "customers", [.joined]⟩], []⟩ :=
  ⟨_, rfl, List.mem_cons_self, rfl, resolve_amountNode⟩

end Scope

end MetricQuery

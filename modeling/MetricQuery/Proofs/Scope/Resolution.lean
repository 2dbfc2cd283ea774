import MetricQuery.Proofs.Scope.Building
import MetricQuery.Proofs.Scope.Matching

/-! # Resolution at a node and at its measures

A node offers what any of the measures below it offers, and a reference is matched against all of
this at once. It is found there exactly if it is found, as the same item, at each of these measures
alone (`Scope.resolve_resolved_iff`).
-/

namespace MetricQuery

/-- An outcome with an item is the resolution to it. -/
theorem Outcome.eq_resolved {outcome : Outcome} {item : GroupByItem}
    (isItem : outcome.item? = some item) : outcome = .resolved item := by
  cases outcome with
  | resolved other => exact congrArg _ (Option.some.inj isItem)
  | _ => exact nomatch isItem

namespace Scope

open Resolution

/-- The items of some elements are those they offer. -/
theorem mem_items {elements : List Element} {item : GroupByItem} :
    item ∈ Element.items elements ↔ offers elements item = true := by
  simp only [Element.items, mem_sortedDistinct, List.mem_map, offers, List.any_eq_true, beq_iff_eq]

/-- A reference is found at a node if one item stands for all matches and every measure that is
reached offers it. -/
theorem resolve_eq_resolved_iff {scope : Scope} {limit : Nat} {pattern : ItemPattern}
    {input : String} {item : GroupByItem} :
    (scope.resolve limit pattern input).outcome = .resolved item ↔
      IsPreferred pattern scope.items item ∧
        ∀ reached ∈ scope.measures, offers reached.elements item = true := by
  have distinct : (pattern.matching scope.items).Nodup :=
    ItemPattern.nodup_matching (nodup_sortedDistinct _)
  rw [IsPreferred, ← preferFinest_eq_singleton distinct]
  unfold resolve
  split
  · rename_i none
    rw [none]
    exact ⟨nofun, nofun⟩
  · rename_i only single
    rw [single]
    have offered : (∀ reached ∈ scope.measures, offers reached.elements only = true) ↔
        scope.lacking pattern limit only = [] := by
      rw [lacking, List.map_eq_nil_iff, List.filter_eq_nil_iff]
      simp only [Bool.not_eq_true', Bool.not_eq_false]
    split
    · rename_i complete
      constructor
      · rintro ⟨⟩
        exact ⟨rfl, offered.mpr complete⟩
      · intro given
        obtain ⟨⟨⟩, -⟩ := given
        rfl
    · rename_i first rest missing
      refine ⟨nofun, ?_⟩
      intro given
      obtain ⟨⟨⟩, everywhere⟩ := given
      rw [offered.mp everywhere] at missing
      exact nomatch missing
  · rename_i notNone notSingle
    exact ⟨nofun, fun found => (notSingle item found.1).elim⟩

/-- What is found comes with every element of its item that the node offers. -/
theorem resolve_eq_of_resolved {scope : Scope} {limit : Nat} {pattern : ItemPattern}
    {input : String} {item : GroupByItem}
    (found : (scope.resolve limit pattern input).outcome = .resolved item) :
    scope.resolve limit pattern input =
      ⟨.resolved item, scope.elements.filter (·.item == item), []⟩ := by
  revert found
  unfold resolve
  split
  · exact nofun
  · split
    · rintro ⟨⟩
      rfl
    · exact nofun
  · exact nofun

/-- Looking at everything that the measures below a node offer together gives an item exactly if
looking at what each of them offers gives this item. -/
theorem resolve_resolved_iff {catalog : Catalog} {metrics filters : List String} {scope : Scope}
    (built : ofQuery catalog metrics filters = .ok scope) {node : Scope}
    (member : node ∈ scope.nodes) (measured : node.leaves ≠ []) (limit : Nat)
    (pattern : ItemPattern) (input : String) (item : GroupByItem) :
    (node.resolve limit pattern input).outcome = .resolved item ↔
      ∀ leaf ∈ node.leaves, (leaf.resolve limit pattern input).outcome = .resolved item := by
  have nodeBuilt := built_of_ofQuery built member measured
  have union : ∀ other, other ∈ node.items ↔ ∃ part ∈ node.leaves.map items, other ∈ part := by
    intro other
    simp only [items, mem_items, offers, List.any_eq_true, nodeBuilt.mem_elements, List.mem_map,
      exists_exists_and_eq_and]
    constructor
    · intro offers
      obtain ⟨element, ⟨leaf, among, offered⟩, same⟩ := offers
      exact ⟨leaf, among, element, offered, same⟩
    · intro offers
      obtain ⟨leaf, among, element, offered, same⟩ := offers
      exact ⟨element, ⟨leaf, among, offered⟩, same⟩
  have here : (∀ reached ∈ node.measures, offers reached.elements item = true) ↔
      ∀ part ∈ node.leaves.map items, item ∈ part := by
    rw [measures, nodeBuilt.forall_measures_iff [] (offers · item = true), List.forall_mem_map]
    simp only [items, mem_items]
  have atLeaf : ∀ leaf ∈ node.leaves,
      (leaf.resolve limit pattern input).outcome = .resolved item ↔
        IsPreferred pattern leaf.items item := by
    intro leaf among
    obtain ⟨leafBuilt, alone⟩ := nodeBuilt.leaves_of_mem_leaves among
    rw [resolve_eq_resolved_iff, measures, leafBuilt.forall_measures_iff [] (offers · item = true),
      alone, List.forall_mem_singleton]
    refine ⟨And.left, fun preferred => ⟨preferred, ?_⟩⟩
    exact mem_items.mp (ItemPattern.mem_reachable.mp
      (ItemPattern.mem_matching.mp preferred.1).1).1
  rw [resolve_eq_resolved_iff, here,
    isPreferred_iff_forall union (List.map_eq_nil_iff.not.mpr measured), List.forall_mem_map]
  exact forall₂_congr fun leaf among => (atLeaf leaf among).symm

/-- Orders and visits of customers, who live in regions. -/
def customersCatalog : Catalog where
  maxHops := 2
  manifest :=
    ⟨[⟨"orders", "shop.orders", none, [⟨"customer", .foreign, none⟩], [],
        [⟨"amount", .sum, none, none⟩], none⟩,
      ⟨"visits", "shop.visits", none, [⟨"customer", .foreign, none⟩], [],
        [⟨"visits", .count, none, none⟩], none⟩,
      ⟨"customers", "shop.customers", none, [⟨"customer", .primary, none⟩],
        [⟨"region", .categorical, none, none⟩], [], none⟩],
      [⟨"revenue", .simple, ⟨some ⟨"amount", none⟩, none, none, none, []⟩, none, none⟩,
        ⟨"traffic", .simple, ⟨some ⟨"visits", none⟩, none, none, none, []⟩, none, none⟩]⟩

/-- A query over two measures finds the region of a customer exactly if each of them finds it. -/
theorem resolve_region_iff : ∃ scope,
    ofQuery customersCatalog ["revenue", "traffic"] [] = .ok scope ∧
      scope.leaves.map kind = [.measure "amount", .measure "visits"] ∧
      ((scope.resolve 6 ⟨[.dimension], "region", ["customer"], none, none, none⟩ "region").outcome =
          .resolved (.dimension "region" ["customer"]) ↔
        ∀ leaf ∈ scope.leaves, (leaf.resolve 6 ⟨[.dimension], "region", ["customer"], none, none,
          none⟩ "region").outcome = .resolved (.dimension "region" ["customer"])) := by
  obtain ⟨scope, built, kinds⟩ : ∃ scope,
      ofQuery customersCatalog ["revenue", "traffic"] [] = .ok scope ∧
        scope.leaves.map kind = [.measure "amount", .measure "visits"] := ⟨_, rfl, rfl⟩
  have measured : scope.leaves ≠ [] := by
    intro none
    rw [none] at kinds
    exact nomatch kinds
  exact ⟨scope, built, kinds,
    resolve_resolved_iff built scope.self_mem_nodes measured 6 _ _ _⟩

end Scope

end MetricQuery

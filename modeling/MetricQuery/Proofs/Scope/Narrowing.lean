import MetricQuery.Proofs.Scope.Resolution

/-! # Matches among fewer candidates

What matches a pattern among some candidates is a condition on each of them
(`ItemPattern.matching_eq_filter`). Other candidates enter it only by the fewest links, for which
names do not count: one more candidate can undo a match, and one less can bring one about. But every
match has the fewest links, so that whatever keeps a match keeps the condition
(`ItemPattern.matching_of_subset`), and dropping what does not match changes nothing
(`ItemPattern.matching_narrowed`).
-/

namespace MetricQuery

/-- A part of a list that holds all members with a property has them as the list has them. -/
theorem filter_eq_filter_of_subperm {α : Type} {kept all : List α} {holds : α → Bool}
    (sublist : kept.Sublist all) (complete : (all.filter holds).Subperm kept) :
    kept.filter holds = all.filter holds := by
  have same := complete.filter holds
  rw [List.filter_filter, funext fun member => Bool.and_self (holds member)] at same
  exact (sublist.filter holds).eq_of_length_le same.length_le

namespace ItemPattern

/-- Whether an item matches a pattern among some candidates: it is of an accepted kind, its links
end in those of the pattern, no candidate of which as much holds has fewer links, whatever its name,
and it agrees in all else that is compared. -/
structure IsMatch (pattern : ItemPattern) (items : List GroupByItem) (item : GroupByItem) :
    Prop where
  kind : item.kind ∈ pattern.kinds
  links : pattern.links <:+ item.links
  fewest : ∀ other ∈ items, other.kind ∈ pattern.kinds → pattern.links <:+ other.links →
    item.links.length ≤ other.links.length
  name : item.name = pattern.name
  part : item.part = pattern.part
  grain : pattern.grain ≠ none → item.grain = pattern.grain
  subqueryLinks : pattern.subqueryLinks ≠ none → item.subqueryLinks = pattern.subqueryLinks

variable {pattern : ItemPattern} {items kept : List GroupByItem} {item : GroupByItem}

/-- What a pattern finds among the candidates are its matches there. -/
theorem mem_matching_iff_isMatch :
    item ∈ pattern.matching items ↔ item ∈ items ∧ pattern.IsMatch items item := by
  simp only [mem_matching, mem_reachable_iff_links, agrees_iff]
  constructor
  · rintro ⟨⟨among, kind, links⟩, ⟨name, part, grain, subqueryLinks⟩, fewest⟩
    exact ⟨among, kind, links,
      fun other inside ofKind behind => fewest other ⟨inside, ofKind, behind⟩,
      name, part, grain, subqueryLinks⟩
  · rintro ⟨among, matched⟩
    exact ⟨⟨among, matched.kind, matched.links⟩,
      ⟨matched.name, matched.part, matched.grain, matched.subqueryLinks⟩,
      fun other ⟨inside, ofKind, behind⟩ => matched.fewest other inside ofKind behind⟩

instance : DecidablePred (pattern.IsMatch items) := fun _ =>
  decidable_of_iff (_ ∧ _ ∧ _ ∧ _ ∧ _ ∧ _ ∧ _)
    ⟨fun ⟨kind, links, fewest, name, part, grain, subqueryLinks⟩ =>
      ⟨kind, links, fewest, name, part, grain, subqueryLinks⟩,
    fun ⟨kind, links, fewest, name, part, grain, subqueryLinks⟩ =>
      ⟨kind, links, fewest, name, part, grain, subqueryLinks⟩⟩

/-- The matches are filtered from the candidates. -/
theorem matching_eq_filter (pattern : ItemPattern) (items : List GroupByItem) :
    pattern.matching items = items.filter fun item => decide (pattern.IsMatch items item) := by
  have mem_iff := fun item => @mem_matching_iff_isMatch pattern items item
  simp only [matching, reachable, List.filter_filter, List.mem_filter] at mem_iff ⊢
  refine List.filter_congr fun item among => ?_
  have same := mem_iff item
  simp only [among, true_and] at same
  rw [Bool.eq_iff_iff, decide_eq_true_iff]
  exact same

/-- Among fewer candidates that include a match, the condition on matches is the same. -/
theorem matching_of_subset (subset : kept ⊆ items) (matched : item ∈ pattern.matching items)
    (included : item ∈ kept) :
    pattern.matching kept = kept.filter fun other => decide (pattern.IsMatch items other) := by
  rw [matching_eq_filter]
  refine List.filter_congr fun other among => ?_
  have same := @mem_matching_of_subset pattern items kept item other subset matched included
  rw [mem_matching_iff_isMatch, mem_matching_iff_isMatch] at same
  have inside := subset among
  simp only [among, inside, true_and] at same
  exact decide_eq_decide.mpr same

/-- Candidates narrowed without losing a match give the same matches, if there are any. -/
theorem matching_of_subperm (some : pattern.matching items ≠ []) (sublist : kept.Sublist items)
    (complete : (pattern.matching items).Subperm kept) :
    pattern.matching kept = pattern.matching items := by
  obtain ⟨item, matched⟩ := List.exists_mem_of_ne_nil _ some
  rw [matching_of_subset sublist.subset matched (complete.subset matched), matching_eq_filter]
  rw [matching_eq_filter] at complete
  exact filter_eq_filter_of_subperm sublist complete

/-- Candidates that are selected by being listed leave out no match that is listed. -/
theorem subperm_amongAllowed {allowed : List GroupByItem}
    (listed : pattern.matching items ⊆ allowed) :
    (pattern.matching items).Subperm (GroupByItem.amongAllowed allowed items) := by
  have all : (pattern.matching items).filter allowed.contains = pattern.matching items :=
    List.filter_eq_self.mpr fun item matched => List.contains_iff_mem.mpr (listed matched)
  have sublist : (pattern.matching items).Sublist items := matching_eq_filter pattern items ▸
    List.filter_sublist
  rw [← all]
  exact (sublist.filter allowed.contains).subperm

end ItemPattern

namespace Scope

/-- What a measure below a node offers is a part of what the node offers. -/
theorem items_sublist_of_mem_leaves {catalog : Catalog} {metrics filters : List String}
    {scope : Scope} (built : ofQuery catalog metrics filters = .ok scope) {node leaf : Scope}
    (member : node ∈ scope.nodes) (among : leaf ∈ node.leaves) : leaf.items.Sublist node.items := by
  have nodeBuilt := built_of_ofQuery built member (List.ne_nil_of_mem among)
  refine sortedDistinct_sublist fun item offered => ?_
  obtain ⟨element, inside, rfl⟩ := List.mem_map.mp offered
  exact List.mem_map_of_mem (nodeBuilt.mem_elements.mpr ⟨leaf, among, inside⟩)

end Scope

namespace ItemPattern

/-- The matches are the candidates that fulfil the condition, in their order. If there are any, they
are the matches among fewer candidates as well, as long as none of them is left out: so among those
that are selected by being listed, and among those that one measure below a node offers. -/
theorem matching_narrowed (pattern : ItemPattern) (items : List GroupByItem) :
    pattern.matching items = items.filter (fun item => decide (pattern.IsMatch items item)) ∧
    (pattern.matching items ≠ [] →
      (∀ kept : List GroupByItem, kept.Sublist items → (pattern.matching items).Subperm kept →
        pattern.matching kept = pattern.matching items) ∧
      (∀ allowed, pattern.matching items ⊆ allowed →
        pattern.matching (GroupByItem.amongAllowed allowed items) = pattern.matching items) ∧
      ∀ catalog metrics filters scope, Scope.ofQuery catalog metrics filters = .ok scope →
        ∀ node ∈ scope.nodes, node.items = items → ∀ leaf ∈ node.leaves,
          pattern.matching items ⊆ leaf.items →
            pattern.matching leaf.items = pattern.matching items) := by
  refine ⟨matching_eq_filter pattern items, fun some => ⟨?_, ?_, ?_⟩⟩
  · exact fun kept => matching_of_subperm some
  · intro allowed listed
    exact matching_of_subperm some List.filter_sublist (subperm_amongAllowed listed)
  · rintro catalog metrics filters scope built node member rfl leaf among offered
    have distinct : (pattern.matching node.items).Nodup :=
      nodup_matching (nodup_sortedDistinct _)
    exact matching_of_subperm some (Scope.items_sublist_of_mem_leaves built member among)
      (List.subperm_of_subset distinct offered)

/-- The region of a customer. -/
def regionPattern : ItemPattern := ⟨[.dimension], "region", ["customer"], none, none, none⟩

/-- Each of two measures alone finds the region of a customer that they find together, and so does
the list of what is selected. -/
theorem matching_narrowed_region : ∃ scope,
    Scope.ofQuery Scope.customersCatalog ["revenue", "traffic"] [] = .ok scope ∧
    regionPattern.matching scope.items = [.dimension "region" ["customer"]] ∧
    regionPattern.matching [.dimension "region" ["customer"]] =
      [.dimension "region" ["customer"]] ∧
    regionPattern.matching (GroupByItem.amongAllowed
      [.entity "customer" [], .dimension "region" ["customer"]] scope.items) =
      [.dimension "region" ["customer"]] ∧
    scope.leaves.length = 2 ∧
    ∀ leaf ∈ scope.leaves,
      regionPattern.matching leaf.items = [.dimension "region" ["customer"]] := by
  obtain ⟨scope, built, matched, leaves, offered⟩ : ∃ scope,
      Scope.ofQuery Scope.customersCatalog ["revenue", "traffic"] [] = .ok scope ∧
      regionPattern.matching scope.items = [.dimension "region" ["customer"]] ∧
      scope.leaves.length = 2 ∧
      ∀ leaf ∈ scope.leaves, .dimension "region" ["customer"] ∈ leaf.items :=
    ⟨_, rfl, by decide +kernel, rfl, by decide +kernel⟩
  obtain ⟨kept, allowed, measured⟩ := (matching_narrowed regionPattern scope.items).2
    (by rw [matched]; exact List.cons_ne_nil _ _)
  rw [matched] at kept allowed measured
  refine ⟨scope, built, matched, kept _ ?_ (List.Subperm.refl _), allowed _ (by decide), leaves, ?_⟩
  · have among : .dimension "region" ["customer"] ∈ regionPattern.matching scope.items :=
      matched ▸ List.mem_singleton_self _
    exact List.singleton_sublist.mpr (mem_matching_iff_isMatch.mp among).1
  · intro leaf among
    exact measured _ _ _ scope built scope scope.self_mem_nodes rfl leaf among
      (List.cons_subset.mpr ⟨offered leaf among, List.nil_subset _⟩)

/-- Among no matches that much is not true: an item of another name behind fewer links hides what
would match without it. -/
example : regionPattern.matching [.dimension "region" ["order", "customer"],
      .dimension "name" ["customer"]] = [] ∧
    regionPattern.matching [.dimension "region" ["order", "customer"]] =
      [.dimension "region" ["order", "customer"]] := by decide +kernel

end ItemPattern

end MetricQuery

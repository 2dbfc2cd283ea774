import MetricQuery.Proofs.Element.Naming
import MetricQuery.Proofs.Item.Ranking
import MetricQuery.Proofs.Scope.Placing
import MetricQuery.Proofs.Scope.Resolution

/-! # What is suggested

For a reference that means nothing at a node, something that a measure below it does not offer, or
more than one item, items are listed in writing. If the names of the manifest are plain, each text
that is listed can be asked for instead: it is read as a reference that means the item it was
written for, among the items of the node that it is listed for
(`Scope.leadBack_of_listed`).
-/

namespace MetricQuery

/-- The texts that an outcome holds instead of an item. -/
def Outcome.listed : Outcome → List String
  | resolved _ => []
  | unresolved suggestions => suggestions
  | ambiguous items => items.map GroupByItem.written

namespace Resolution

private theorem mem_of_mem_preferFinest {items : List GroupByItem} {item : GroupByItem}
    (preferred : item ∈ preferFinest items) : item ∈ items := by
  match items with
  | [] => exact preferred
  | [only] => exact preferred
  | first :: second :: rest =>
      by_cases same : (second :: rest).all (sameTime first) = true
      · rw [preferFinest, if_pos same, List.mem_singleton] at preferred
        exact preferred ▸ (finest_standsFor (List.all_eq_true.mp same)).1
      · rwa [preferFinest, if_neg same] at preferred

end Resolution

namespace Scope

/-- Whether each of some texts is an item in writing that the node at the end of a path offers, and
leads back to this item among those of the node. -/
def LeadBack (scope : Scope) (path : ScopePath) (texts : List String) : Prop :=
  ∃ placed ∈ scope.placed, placed.path = path ∧ ∀ text ∈ texts,
    (∃ item ∈ placed.node.items, item.written = text) ∧
      ∀ item ∈ placed.node.items, item.written = text → item.LeadsBack placed.node.items

/-- A suggested text is what is written for one of the candidates. -/
theorem mem_written_of_mem_suggestions {pattern : ItemPattern} {limit : Nat}
    {items : List GroupByItem} {text : String} (offered : text ∈ suggestions pattern limit items) :
    ∃ item ∈ items, item.written = text := by
  obtain ⟨item, near, written⟩ := List.mem_map.mp offered
  exact ⟨item, (ItemPattern.of_mem_nearMisses near).1, written⟩

/-- Texts written for the items of a node lead back to them there. -/
theorem LeadBack.of_written {scope : Scope} {texts : List String} {placed : PlacedNode}
    (inside : placed ∈ scope.placed)
    (named : ∀ element ∈ placed.node.elements, element.item.IsNamed)
    (written : ∀ text ∈ texts, ∃ item ∈ placed.node.items, item.written = text) :
    scope.LeadBack placed.path texts := by
  refine ⟨placed, inside, rfl, fun text listed => ⟨written text listed, fun item among _ => ?_⟩⟩
  obtain ⟨element, offered, rfl⟩ := List.mem_map.mp (mem_sortedDistinct.mp among)
  exact (named element offered).leadsBack among

variable {scope : Scope} {limit : Nat} {pattern : ItemPattern} {input : String}

/-- A scope is placed at the empty path. -/
theorem self_mem_placed (scope : Scope) : ⟨[], scope⟩ ∈ scope.placed := by
  cases scope
  rw [placed, placedBehind]
  exact List.mem_append_right _ (List.mem_singleton_self _)

/-- Every issue of a resolution lists items of the node where it was found. -/
theorem leadBack_of_mem_issues (ended : Ended scope)
    (named : ∀ other ∈ scope.nodes, ∀ element ∈ other.elements, element.item.IsNamed)
    {issue : Issue} (reported : issue ∈ (scope.resolve limit pattern input).issues) :
    ∃ title texts, issue.kind.listed = some (title, texts) ∧
      scope.LeadBack issue.path texts := by
  have here := named scope scope.self_mem_nodes
  unfold resolve at reported
  split at reported
  · rw [Resolution.failed, List.mem_singleton] at reported
    subst reported
    refine ⟨_, _, rfl, .of_written scope.self_mem_placed here fun text offered => ?_⟩
    exact mem_written_of_mem_suggestions offered
  · rename_i item single
    split at reported
    · exact nomatch reported
    · rename_i first rest missing
      obtain ⟨⟨reached, offered⟩, among, rfl⟩ := List.mem_map.mp reported
      rw [← missing, lacking, List.mem_map] at among
      obtain ⟨reached, among, ⟨⟩⟩ := among
      obtain ⟨placed, inside, path, elements⟩ :=
        ended.exists_placed_of_reached [] (List.mem_filter.mp among).1
      have within : placed.node ∈ scope.nodes :=
        ended.map_node_placedBehind [] ▸ List.mem_map_of_mem inside
      refine ⟨_, _, rfl, ?_⟩
      rw [Issue.error, ← path]
      refine .of_written inside (named placed.node within) fun text offered => ?_
      rw [items, elements]
      exact mem_written_of_mem_suggestions offered
  · rename_i notNone notSingle
    rw [Resolution.failed, List.mem_singleton] at reported
    subst reported
    refine ⟨_, _, rfl, .of_written scope.self_mem_placed here fun text offered => ?_⟩
    obtain ⟨item, preferred, written⟩ := List.mem_map.mp offered
    have matched := Resolution.mem_of_mem_preferFinest preferred
    exact ⟨item, (ItemPattern.mem_reachable.mp (ItemPattern.mem_matching.mp matched).1).1, written⟩

/-- What an outcome holds instead of an item is listed by one of the issues. -/
theorem exists_issue_of_mem_listed {text : String}
    (listed : text ∈ (scope.resolve limit pattern input).outcome.listed) :
    ∃ issue ∈ (scope.resolve limit pattern input).issues, ∃ title texts,
      issue.kind.listed = some (title, texts) ∧ text ∈ texts := by
  unfold resolve at listed ⊢
  split at listed
  · exact ⟨_, List.mem_singleton_self _, _, _, rfl, listed⟩
  · rename_i item single
    split at listed
    · exact nomatch listed
    · rename_i first rest missing
      exact ⟨_, List.mem_cons_self, _, _, rfl, listed⟩
  · exact ⟨_, List.mem_singleton_self _, _, _, rfl, listed⟩

/-- Under plain names, every text that is suggested for a reference or listed as one of its matches
is read as a reference to the item it was written for, which means this item and at most the same
one at other grains among everything that the node offers. -/
theorem leadBack_of_listed {catalog : Catalog} (named : catalog.manifest.IsNamed)
    {metrics filters : List String} (built : ofQuery catalog metrics filters = .ok scope)
    {node : Scope} (member : node ∈ scope.nodes) (limit : Nat) (pattern : ItemPattern)
    (input : String) :
    (∀ issue ∈ (node.resolve limit pattern input).issues, ∃ title texts,
      issue.kind.listed = some (title, texts) ∧ node.LeadBack issue.path texts) ∧
    ∀ text ∈ (node.resolve limit pattern input).outcome.listed,
      ∃ issue ∈ (node.resolve limit pattern input).issues, ∃ title texts,
        issue.kind.listed = some (title, texts) ∧ text ∈ texts := by
  obtain ⟨ended, within⟩ := (ended_of_ofQuery built).of_mem_nodes member
  have isNamed := forall_elements_of_ofQuery
    (fun _ _ => Catalog.isNamed_of_mem_elementsOf named)
    (fun _ => Catalog.isNamed_of_mem_elementsWithoutMetrics named) built
  have below : ∀ other ∈ node.nodes, ∀ element ∈ other.elements, element.item.IsNamed :=
    fun other inside => isNamed other (within other inside)
  exact ⟨fun issue => leadBack_of_mem_issues ended below, fun text => exists_issue_of_mem_listed⟩

/-- Any item that is called an area. -/
def areaPattern : ItemPattern := ⟨ItemKind.all, "area", [], none, none, none⟩

/-- No item is called an area, and what is suggested instead leads back. -/
theorem leadBack_of_listed_area : ∃ scope, ofQuery customersCatalog ["revenue"] [] = .ok scope ∧
    (scope.resolve 6 areaPattern "area").outcome.listed =
      ["Entity('customer')", "Dimension('customer__region')",
        "Metric('revenue', group_by=['customer'])", "Metric('traffic', group_by=['customer'])"] ∧
    (∀ issue ∈ (scope.resolve 6 areaPattern "area").issues, ∃ title texts,
      issue.kind.listed = some (title, texts) ∧ scope.LeadBack issue.path texts) ∧
    ∀ text ∈ (scope.resolve 6 areaPattern "area").outcome.listed,
      ∃ issue ∈ (scope.resolve 6 areaPattern "area").issues, ∃ title texts,
        issue.kind.listed = some (title, texts) ∧ text ∈ texts := by
  obtain ⟨scope, built, listed⟩ : ∃ scope, ofQuery customersCatalog ["revenue"] [] = .ok scope ∧
      (scope.resolve 6 areaPattern "area").outcome.listed =
        ["Entity('customer')", "Dimension('customer__region')",
          "Metric('revenue', group_by=['customer'])",
          "Metric('traffic', group_by=['customer'])"] := ⟨_, rfl, by decide +kernel⟩
  have named : customersCatalog.manifest.IsNamed := by decide
  exact ⟨scope, built, listed, leadBack_of_listed named built scope.self_mem_nodes 6 _ _⟩

end Scope

end MetricQuery

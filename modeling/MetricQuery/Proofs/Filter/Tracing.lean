import MetricQuery.Proofs.Filter.Gathering
import MetricQuery.Proofs.Scope.Resolution

/-! # Paths of issues

What is reported of a query carries a path. It starts at the query and goes from each node to one of
its inputs (`Scope.Leads`), down to the node where something was found or not found. An issue about a
measure goes on from there to the node of this measure (`Scope.Locates`). So it is for references that
are looked up at the query, and for all that is known of the filters anywhere below it
(`FilterLookup.ofQuery_traces`).
-/

namespace MetricQuery

namespace Scope

/-- The path from a node to a node at or below it: each step is an input of the one before. -/
inductive Leads : Scope → ScopePath → Scope → Prop where
  | here (node : Scope) : Leads node [node.step] node
  | input {node input target : Scope} {path : ScopePath} (among : input ∈ node.inputs)
      (rest : Leads input path target) : Leads node (node.step :: path) target

namespace Leads

variable {scope node target : Scope} {outer path : ScopePath}

/-- The last step of a path to a node gives way to a path from there. -/
theorem through (leads : Leads scope (outer ++ [node.step]) node)
    (onward : Leads node path target) : Leads scope (outer ++ path) target := by
  generalize whole : outer ++ [node.step] = steps at leads
  induction leads generalizing outer with
  | here node =>
      obtain ⟨rfl, _⟩ := List.append_eq_singleton_iff.mp whole |>.resolve_right
        fun backward => List.cons_ne_nil _ _ backward.2
      exact onward
  | input among rest ih =>
      cases outer with
      | nil =>
          obtain ⟨_, rfl⟩ := List.cons.inj whole
          cases rest
      | cons first outer =>
          obtain ⟨rfl, tail⟩ := List.cons.inj whole
          exact .input among (ih onward tail)

end Leads

/-- A node that is placed is reached over the nodes outside of it. -/
theorem Ended.leads_of_placed {scope : Scope} (ended : Ended scope) (outer : ScopePath)
    {placed : PlacedNode} (among : placed ∈ scope.placedBehind outer) :
    ∃ inner, placed.outer = outer ++ inner ∧
      Leads scope (inner ++ [placed.node.step]) placed.node := by
  induction ended generalizing outer with
  | leaf id kind elements last =>
      rw [placedBehind, placedOfBehind, List.nil_append, List.mem_singleton] at among
      subst among
      exact ⟨[], (List.append_nil _).symm, .here _⟩
  | inputs id kind elements inputs other each ih =>
      rw [placedBehind, placedOfBehind_eq_flatMap, List.mem_append, List.mem_flatMap,
        List.mem_singleton] at among
      rcases among with ⟨input, isInput, below⟩ | rfl
      · obtain ⟨inner, outside, leads⟩ := ih input isInput _ below
        exact ⟨⟨id, kind.description⟩ :: inner, outside.trans (List.append_assoc ..),
          .input isInput leads⟩
      · exact ⟨[], (List.append_nil _).symm, .here _⟩

/-- A measure that is reached is the node of this measure, on the path that leads there. -/
theorem Ended.leads_of_reached {scope : Scope} (ended : Ended scope) (outer : ScopePath)
    {reached : ReachedMeasure} (among : reached ∈ scope.measuresBehind outer) :
    ∃ path source, reached.path = outer ++ path ∧ Leads scope path source ∧
      source.kind = .measure reached.measure ∧ source.elements = reached.elements := by
  induction ended generalizing outer with
  | leaf id kind elements last =>
      cases kind with
      | measure name =>
          rw [measuresBehind, measuresOfBehind, List.mem_singleton] at among
          subst among
          exact ⟨_, _, rfl, .here _, rfl, rfl⟩
      | noMetrics =>
          rw [measuresBehind, measuresOfBehind] at among
          · exact (List.not_mem_nil among).elim
          · intro name isMeasure
            cases isMeasure
      | _ => cases last
  | inputs id kind elements inputs other each ih =>
      have notMeasure : kind.isMeasure = false := by
        cases kind with
        | measure name => cases other
        | _ => rfl
      rw [measuresBehind_inputs notMeasure, List.mem_flatMap] at among
      obtain ⟨input, isInput, among⟩ := among
      obtain ⟨path, source, same, leads, isSource⟩ := ih input isInput _ among
      exact ⟨_ :: path, source, same.trans (List.append_assoc ..), .input isInput leads, isSource⟩

/-- An issue that was found at a node, on the path that leads there. One about a measure is on the
path that goes on to the node of this measure, which does not offer something that the node does. -/
inductive Locates (scope node : Scope) (issue : Issue) : Prop where
  | here (leads : Leads scope issue.path node)
      (own : ∀ measure suggestions, issue.kind ≠ .noMatchForMeasure measure suggestions)
  | measure {source : Scope} {onward : ScopePath} {measure : String} {suggestions : List String}
      {item : GroupByItem} (about : issue.kind = .noMatchForMeasure measure suggestions)
      (leads : Leads scope issue.path source) (below : Leads node onward source)
      (isSource : source.kind = .measure measure) (offered : item ∈ node.items)
      (lacks : item ∉ source.items)

/-- What is found at a node inside is found on the longer path from outside. -/
theorem Locates.below {scope node : Scope} {outer : ScopePath} {issue : Issue}
    (leads : Leads scope (outer ++ [node.step]) node) (located : Locates node node issue) :
    Locates scope node (issue.below outer) := by
  cases located with
  | here inside own => exact .here (leads.through inside) own
  | measure about inside below isSource offered lacks =>
      exact .measure about (leads.through inside) below isSource offered lacks

/-- What stands for the matches of a pattern at a node is offered there. -/
theorem mem_items_of_preferFinest {node : Scope} {pattern : ItemPattern} {item : GroupByItem}
    (single : Resolution.preferFinest (pattern.matching node.items) = [item]) :
    item ∈ node.items := by
  have preferred := (Resolution.preferFinest_eq_singleton
    (ItemPattern.nodup_matching (nodup_sortedDistinct _))).mp single
  exact (ItemPattern.mem_reachable.mp (ItemPattern.mem_matching.mp preferred.1).1).1

/-- What is missed at a node is missed at the node itself, or at a measure below it. -/
theorem Ended.locates_of_resolve {node : Scope} (ended : Ended node) {limit : Nat}
    {pattern : ItemPattern} {input : String} :
    ∀ issue ∈ (node.resolve limit pattern input).issues, Locates node node issue := by
  unfold resolve
  split
  · refine List.forall_mem_singleton.mpr (.here (.here node) fun _ _ isMeasure => ?_)
    cases isMeasure
  · rename_i item single
    split
    · exact fun _ absent => (List.not_mem_nil absent).elim
    · rename_i first rest lacked
      intro issue among
      obtain ⟨missing, member, rfl⟩ := List.mem_map.mp among
      rw [← lacked] at member
      obtain ⟨reached, without, rfl⟩ := List.mem_map.mp member
      obtain ⟨isReached, lacks⟩ := List.mem_filter.mp without
      obtain ⟨path, source, same, leads, isSource, offers⟩ := ended.leads_of_reached [] isReached
      rw [List.nil_append] at same
      refine .measure rfl (same ▸ leads) leads isSource (mem_items_of_preferFinest single) ?_
      rw [Bool.not_eq_true'] at lacks
      rw [items, mem_items, offers, lacks]
      exact Bool.false_ne_true
  · refine List.forall_mem_singleton.mpr (.here (.here node) fun _ _ isMeasure => ?_)
    cases isMeasure

end Scope

namespace FilterLookup

/-- What is known of the filters of a query is traced to the nodes that declare them: a finding to
the node that gave it, with its issues those of this node, and an unreadable filter as well. -/
structure Traces (catalog : Catalog) (limit : Nat) (scope : Scope) (lookup : FilterLookup) :
    Prop where
  finding : ∀ finding ∈ lookup.findings, ∃ node outer template references,
    scope.Leads finding.path node ∧ finding.path = outer ++ [node.step] ∧
    node.kind.Declares catalog finding.key.location template ∧
    Template.references template = .ok references ∧ finding.key.reference ∈ references ∧
    finding.issues = (node.meaning limit finding.key.reference).issues.below outer ∧
    ∀ issue ∈ finding.issues, scope.Locates node issue
  unreadable : ∀ filter ∈ lookup.unreadable, ∃ node location template error,
    scope.Leads filter.path node ∧ node.kind.Declares catalog location template ∧
    Template.references template = .error error ∧
    ∀ issue ∈ filter.issues, issue.kind = .badFilter template error.message ∧
      scope.Locates node issue

variable {catalog : Catalog} {scope : Scope}

/-- What a lookup over the scope reports is traced through it. -/
theorem Gathers.traces {limit : Nat} {lookup : FilterLookup} (ended : scope.Ended)
    (gathers : Gathers catalog limit lookup scope.placed) : Traces catalog limit scope lookup := by
  have leadsTo : ∀ placed ∈ scope.placed, scope.Leads placed.path placed.node := by
    intro placed among
    obtain ⟨inner, outside, leads⟩ := ended.leads_of_placed [] among
    rw [List.nil_append] at outside
    rwa [PlacedNode.path, outside]
  have nodeEnded : ∀ placed ∈ scope.placed, placed.node.Ended := by
    intro placed among
    refine (ended.of_mem_nodes ?_).1
    rw [← ended.map_node_placedBehind []]
    exact List.mem_map_of_mem among
  constructor
  · intro finding member
    obtain ⟨placed, among, finds⟩ := gathers.exists_finds member
    obtain ⟨declared, isTemplate, read, inside⟩ := finds
    refine ⟨placed.node, placed.outer, _, _, leadsTo placed among, rfl,
      LocatedFilters.declares_iff.mpr ⟨_, declared, rfl, isTemplate⟩, read, inside, rfl, ?_⟩
    refine List.forall_mem_map.mpr fun issue given => ?_
    exact .below (leadsTo placed among) ((nodeEnded placed among).locates_of_resolve issue given)
  · intro filter member
    obtain ⟨placed, among, misreads⟩ := (gathers.unreadable filter).mp member
    obtain ⟨declared, isTemplate, failed⟩ := misreads
    refine ⟨placed.node, _, _, _, leadsTo placed among,
      LocatedFilters.declares_iff.mpr ⟨_, declared, rfl, isTemplate⟩, failed, ?_⟩
    refine List.forall_mem_singleton.mpr ⟨rfl, .here (leadsTo placed among) ?_⟩
    intro measure suggestions isMeasure
    cases isMeasure

/-- Every issue of a query, be it about a reference that is looked up at the query or about a filter
at or below it, carries the path from the query to where it was found, and so does everything that
is known of a filter. The numbers on a path tell its nodes. -/
theorem ofQuery_traces {metrics filters : List String}
    (built : Scope.ofQuery catalog metrics filters = .ok scope) (limit : Nat)
    {memo : ReferenceMemo} (filled : memo.Filled) :
    (scope.nodes.map Scope.id).Nodup ∧
      (∀ pattern input, ∀ issue ∈ (scope.resolve limit pattern input).issues,
        scope.Locates scope issue) ∧
      Traces catalog limit scope ((ofQuery catalog limit scope).run memo).1 := by
  have ended := Scope.ended_of_ofQuery built
  obtain ⟨gathers, _⟩ := (ofScope_ensures ended limit [] memo filled).1
  exact ⟨Scope.nodup_ids built, fun _ _ => ended.locates_of_resolve, gathers.traces ended⟩

/-- Orders with a status, and visits. The yield is that of paid orders, and its visits are filtered
by something that nothing offers. -/
def paidCatalog : Catalog where
  maxHops := 2
  manifest :=
    ⟨[⟨"orders", "shop.orders", none, [⟨"order", .primary, none⟩],
        [⟨"status", .categorical, none, none⟩], [⟨"amount", .sum, none, none⟩], none⟩,
      ⟨"visits", "shop.visits", none, [⟨"visit", .primary, none⟩], [],
        [⟨"visits", .count, none, none⟩], none⟩],
      [⟨"revenue", .simple, ⟨some ⟨"amount", none⟩, none, none, none, []⟩, none, none⟩,
        ⟨"traffic", .simple, ⟨some ⟨"visits", none⟩, none, none, none, []⟩, none, none⟩,
        ⟨"yield", .ratio, ⟨none, some ⟨"revenue", none, none, none⟩,
            some ⟨"traffic", some ["\x7b\x7b Dimension('visit__size') \x7d\x7d > 3"], none, none⟩,
            none, []⟩,
          some ["\x7b\x7b Dimension('order__status') \x7d\x7d = 'paid'"], none⟩]⟩

/-- The status that the yield asks for is missed at the visits, three steps below the query, and the
size at the metric in between. -/
theorem ofQuery_traces_yield : ∃ scope, Scope.ofQuery paidCatalog ["yield"] [] = .ok scope ∧
    (((ofQuery paidCatalog 6 scope).run (.empty 4)).1.issues.map fun issue =>
      issue.path.map PathStep.description) =
      [["Query(['yield'])", "Metric('yield')", "Metric('traffic')", "Measure('visits')"],
        ["Query(['yield'])", "Metric('yield')", "Metric('traffic')"]] ∧
    (scope.nodes.map Scope.id).Nodup ∧
      (∀ pattern input, ∀ issue ∈ (scope.resolve 6 pattern input).issues,
        scope.Locates scope issue) ∧
      Traces paidCatalog 6 scope ((ofQuery paidCatalog 6 scope).run (.empty 4)).1 := by
  obtain ⟨scope, built, paths⟩ : ∃ scope, Scope.ofQuery paidCatalog ["yield"] [] = .ok scope ∧
      (((ofQuery paidCatalog 6 scope).run (.empty 4)).1.issues.map fun issue =>
        issue.path.map PathStep.description) =
        [["Query(['yield'])", "Metric('yield')", "Metric('traffic')", "Measure('visits')"],
          ["Query(['yield'])", "Metric('yield')", "Metric('traffic')"]] :=
    ⟨_, rfl, by decide +kernel⟩
  exact ⟨scope, built, paths, ofQuery_traces built 6 (.empty 4)⟩

end FilterLookup

end MetricQuery

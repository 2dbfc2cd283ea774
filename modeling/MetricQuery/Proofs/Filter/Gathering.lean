import MetricQuery.Proofs.Filter.Merging
import MetricQuery.Proofs.Filter.Reading
import MetricQuery.Proofs.Scope.Placing

/-! # Gathering what filters mean

Every node of a scope adds to what is known of the filters of a query, and what the nodes add is
merged on the way out. No failure is lost on this way, nothing is known but what was found at some
node, and only nodes without a failure add what they found (`FilterLookup.ofScope_ensures`).
-/

namespace MetricQuery

open ReferenceMemo (Ensures)

/-- Whether a filter is declared at a node of some kind. -/
inductive ScopeKind.Declares (catalog : Catalog) : ScopeKind → FilterLocation → String → Prop where
  | query {metrics filters : List String} {template : String} (among : template ∈ filters) :
      Declares catalog (.query metrics filters) (.query metrics) template
  | own {name : String} {place : Option InputPlace} {metric : Metric} {template : String}
      (found : catalog.metric? name = some metric) (among : template ∈ metric.filter.getD []) :
      Declares catalog (.metric name place) (.metric name) template
  | measure {name : String} {place : Option InputPlace} {metric : Metric} {input : InputMeasure}
      {template : String} (found : catalog.metric? name = some metric)
      (measured : input ∈ metric.inputMeasures) (among : template ∈ input.filter.getD []) :
      Declares catalog (.metric name place) (.metric name) template
  /-- What a metric says about its input is declared at the input. -/
  | consumer {name : String} {place : InputPlace} {metric : Metric} {input : InputMetric}
      {template : String} (found : catalog.metric? name = some metric)
      (placed : place.input? catalog = some input) (among : template ∈ input.filter.getD []) :
      Declares catalog (.metric name (some place)) (.inputMetric name) template

/-- A metric's own filters are declared where that metric stands. -/
theorem ScopeKind.Declares.exists_place {catalog : Catalog} {kind : ScopeKind}
    {name template : String} (declares : kind.Declares catalog (.metric name) template) :
    ∃ place, kind = .metric name place := by
  cases declares with
  | own => exact ⟨_, rfl⟩
  | measure => exact ⟨_, rfl⟩

namespace LocatedFilters

variable {catalog : Catalog} {kind : ScopeKind}

/-- The filters of a metric: those of its inputs to measures and its own. -/
theorem mem_ofMetric {metric : Metric} {template : String} : template ∈ ofMetric metric ↔
    (∃ input ∈ metric.inputMeasures, template ∈ input.filter.getD []) ∨
      template ∈ metric.filter.getD [] := by
  rw [ofMetric, List.mem_append, List.mem_flatMap]

/-- At a metric node stand the metric's own filters and those its consumer puts on it. -/
theorem mem_atKind_metric {name : String} {place : Option InputPlace} {located : LocatedFilters} :
    located ∈ atKind catalog (.metric name place) ↔
      ∃ metric, catalog.metric? name = some metric ∧
        ((ofMetric metric ≠ [] ∧ located = ⟨.metric name, (ofMetric metric).eraseDups⟩) ∨
          ∃ filters, (place.bind (·.input? catalog)).bind InputMetric.filter = some filters ∧
            located = ⟨.inputMetric name, filters.eraseDups⟩) := by
  rw [atKind]
  cases catalog.metric? name with
  | none => simp
  | some metric =>
      simp only [List.mem_append, Option.mem_toList, Option.map_eq_some_iff, Option.some.injEq,
        exists_eq_left', eq_comm (b := located)]
      refine or_congr_left ?_
      split
      · rename_i none
        simp [List.isEmpty_iff.mp none]
      · rename_i some
        rw [List.mem_singleton, and_iff_right (List.isEmpty_iff.not.mp some)]

/-- A kind declares a filter when the filter is listed at that kind. -/
theorem declares_iff {location : FilterLocation} {template : String} :
    kind.Declares catalog location template ↔
      ∃ located ∈ atKind catalog kind, located.location = location ∧
        template ∈ located.templates := by
  constructor
  · intro declared
    cases declared with
    | query among => exact ⟨_, List.mem_cons_self, rfl, List.mem_eraseDups.mpr among⟩
    | own found among =>
        have member := mem_ofMetric.mpr (.inr among)
        exact ⟨_, mem_atKind_metric.mpr ⟨_, found, .inl ⟨List.ne_nil_of_mem member, rfl⟩⟩, rfl,
          List.mem_eraseDups.mpr member⟩
    | measure found measured among =>
        have member := mem_ofMetric.mpr (.inl ⟨_, measured, among⟩)
        exact ⟨_, mem_atKind_metric.mpr ⟨_, found, .inl ⟨List.ne_nil_of_mem member, rfl⟩⟩, rfl,
          List.mem_eraseDups.mpr member⟩
    | @consumer name place metric input _ found placed among =>
        cases filter : input.filter with
        | none =>
            rw [filter] at among
            exact nomatch among
        | some filters =>
            rw [filter] at among
            have declared : ((some place).bind (·.input? catalog)).bind InputMetric.filter =
                some filters := by
              simp only [Option.bind_some, placed, filter]
            exact ⟨_, mem_atKind_metric.mpr ⟨_, found, .inr ⟨filters, declared, rfl⟩⟩, rfl,
              List.mem_eraseDups.mpr among⟩
  · intro given
    obtain ⟨located, member, rfl, among⟩ := given
    cases kind with
    | measure name => exact nomatch member
    | noMetrics => exact nomatch member
    | query metrics filters =>
        rw [List.mem_singleton.mp member] at among ⊢
        exact .query (List.mem_eraseDups.mp among)
    | metric name place =>
        obtain ⟨metric, found, ⟨_, rfl⟩ | ⟨filters, declared, rfl⟩⟩ := mem_atKind_metric.mp member
        · rcases mem_ofMetric.mp (List.mem_eraseDups.mp among) with ofMeasure | own
          · obtain ⟨input, measured, among⟩ := ofMeasure
            exact .measure found measured among
          · exact .own found own
        · obtain ⟨input, fed, isFilter⟩ := Option.bind_eq_some_iff.mp declared
          obtain ⟨place, rfl, placed⟩ := Option.bind_eq_some_iff.mp fed
          exact .consumer found placed (by rw [isFilter]; exact List.mem_eraseDups.mp among)

end LocatedFilters

namespace Scope

/-- What a reference in a filter means at a node. -/
def meaning (node : Scope) (limit : Nat) (reference : ItemReference) : Resolution :=
  node.resolve limit (.ofReference reference) reference.written

/-- Whether some filter that is declared at a node cannot be read, or refers to what cannot be found
at the node. -/
inductive Fails (catalog : Catalog) (limit : Nat) (node : Scope) : Prop where
  | unreadable {location : FilterLocation} {template : String} {error : ItemError}
      (declared : node.kind.Declares catalog location template)
      (failed : Template.references template = .error error)
  | missing {location : FilterLocation} {template : String} {references : List ItemReference}
      {reference : ItemReference} (declared : node.kind.Declares catalog location template)
      (read : Template.references template = .ok references) (among : reference ∈ references)
      (failed : (node.meaning limit reference).outcome.item? = none)

/-- There are errors where a reference is not found, and nowhere else. -/
theorem hasErrors_resolve (node : Scope) (limit : Nat) (pattern : ItemPattern) (input : String) :
    (node.resolve limit pattern input).issues.hasErrors =
      (node.resolve limit pattern input).outcome.item?.isNone := by
  unfold resolve
  split
  · rfl
  · split <;> rfl
  · rfl

end Scope

namespace PlacedNode

variable {catalog : Catalog} {limit : Nat} {placed : PlacedNode}

/-- What is found at a node for the references in its filters. -/
inductive Finds (catalog : Catalog) (limit : Nat) (placed : PlacedNode) :
    FilterFinding → Prop where
  | intro {located : LocatedFilters} {template : String} {references : List ItemReference}
      {reference : ItemReference}
      (declared : located ∈ LocatedFilters.atKind catalog placed.node.kind)
      (among : template ∈ located.templates) (read : Template.references template = .ok references)
      (inside : reference ∈ references) :
      Finds catalog limit placed
        (FilterLookup.find limit placed.outer placed.node located reference)

/-- What is reported of the filters of a node that cannot be read. -/
inductive Misreads (catalog : Catalog) (placed : PlacedNode) : UnreadableFilter → Prop where
  | intro {located : LocatedFilters} {template : String} {error : ItemError}
      (declared : located ∈ LocatedFilters.atKind catalog placed.node.kind)
      (among : template ∈ located.templates)
      (failed : Template.references template = .error error) :
      Misreads catalog placed (FilterLookup.unreadableFilter placed.path
        ((LocatedFilters.atKind catalog placed.node.kind).flatMap LocatedFilters.templates)
        (template, error))

/-- A callout is a failure at a node exactly when no item is meant there. -/
theorem isFailure_find (limit : Nat) (outer : ScopePath) (node : Scope) (located : LocatedFilters)
    (reference : ItemReference) :
    (FilterLookup.find limit outer node located reference).isFailure =
      (node.meaning limit reference).outcome.item?.isNone := by
  rw [FilterFinding.isFailure, FilterLookup.find, Issues.hasErrors_below, Scope.hasErrors_resolve]
  rfl

/-- A finding is a failure exactly when it has no item. -/
theorem Finds.isFailure_eq {finding : FilterFinding} (finds : placed.Finds catalog limit finding) :
    finding.isFailure = finding.item.isNone := by
  obtain ⟨_, _, _, _⟩ := finds
  exact isFailure_find ..

/-- A filter that cannot be read reports an error. -/
theorem Misreads.hasErrors {filter : UnreadableFilter} (misreads : placed.Misreads catalog filter) :
    filter.issues.hasErrors = true := by
  obtain ⟨_, _, _⟩ := misreads
  rfl

/-- A node fails through a filter that cannot be read or a callout that is not resolved. -/
theorem fails_iff : placed.node.Fails catalog limit ↔
    (∃ filter, placed.Misreads catalog filter) ∨
      ∃ finding, placed.Finds catalog limit finding ∧ finding.isFailure = true := by
  constructor
  · intro fails
    cases fails with
    | unreadable declared failed =>
        obtain ⟨located, member, _, among⟩ := LocatedFilters.declares_iff.mp declared
        exact .inl ⟨_, .intro member among failed⟩
    | missing declared read among failed =>
        obtain ⟨located, member, _, inside⟩ := LocatedFilters.declares_iff.mp declared
        refine .inr ⟨_, .intro member inside read among, ?_⟩
        rw [isFailure_find, failed]
        rfl
  · intro given
    rcases given with ⟨_, misreads⟩ | ⟨_, finds, failed⟩
    · obtain ⟨member, among, failed⟩ := misreads
      exact .unreadable (LocatedFilters.declares_iff.mpr ⟨_, member, rfl, among⟩) failed
    · obtain ⟨member, among, read, inside⟩ := finds
      rw [isFailure_find] at failed
      exact .missing (LocatedFilters.declares_iff.mpr ⟨_, member, rfl, among⟩) read inside
        (Option.isNone_iff_eq_none.mp failed)

end PlacedNode

namespace FilterLookup

variable {catalog : Catalog} {limit : Nat} {lookup : FilterLookup} {nodes : List PlacedNode}

/-- What is known of the filters at some nodes: all failures, and besides them only what was found
at nodes without a failure. If there is no failure then nothing that was found is left out. -/
structure Gathers (catalog : Catalog) (limit : Nat) (lookup : FilterLookup)
    (nodes : List PlacedNode) : Prop where
  unreadable : ∀ filter, filter ∈ lookup.unreadable ↔
    ∃ placed ∈ nodes, placed.Misreads catalog filter
  failure : ∀ finding, finding.isFailure = true →
    (finding ∈ lookup.findings ↔ ∃ placed ∈ nodes, placed.Finds catalog limit finding)
  success : ∀ finding ∈ lookup.findings, finding.isFailure = false →
    ∃ placed ∈ nodes, placed.Finds catalog limit finding ∧ ¬ placed.node.Fails catalog limit
  known : lookup.hasErrors = false → ∀ placed ∈ nodes, ∀ finding,
    placed.Finds catalog limit finding → finding.key ∈ lookup.findings.map FilterFinding.key

namespace Gathers

/-- The gathered lookup has errors exactly when one of the nodes fails. -/
theorem hasErrors_iff (gathers : Gathers catalog limit lookup nodes) :
    lookup.hasErrors = true ↔ ∃ placed ∈ nodes, placed.node.Fails catalog limit := by
  simp only [hasErrors, Bool.or_eq_true, List.any_eq_true]
  constructor
  · intro given
    rcases given with ⟨finding, member, failed⟩ | ⟨filter, member, _⟩
    · obtain ⟨placed, among, finds⟩ := (gathers.failure finding failed).mp member
      exact ⟨placed, among, PlacedNode.fails_iff.mpr (.inr ⟨finding, finds, failed⟩)⟩
    · obtain ⟨placed, among, misreads⟩ := (gathers.unreadable filter).mp member
      exact ⟨placed, among, PlacedNode.fails_iff.mpr (.inl ⟨filter, misreads⟩)⟩
  · intro given
    obtain ⟨placed, among, fails⟩ := given
    rcases PlacedNode.fails_iff.mp fails with ⟨filter, misreads⟩ | ⟨finding, finds, failed⟩
    · exact .inr ⟨filter, (gathers.unreadable filter).mpr ⟨placed, among, misreads⟩,
        misreads.hasErrors⟩
    · exact .inl ⟨finding, (gathers.failure finding failed).mpr ⟨placed, among, finds⟩, failed⟩

/-- Every finding of the lookup is one of the nodes' own. -/
theorem exists_finds (gathers : Gathers catalog limit lookup nodes) {finding : FilterFinding}
    (member : finding ∈ lookup.findings) :
    ∃ placed ∈ nodes, placed.Finds catalog limit finding := by
  cases failed : finding.isFailure with
  | true => exact (gathers.failure finding failed).mp member
  | false =>
      obtain ⟨placed, among, finds, _⟩ := gathers.success finding member failed
      exact ⟨placed, among, finds⟩

/-- Nodes without filters are gathered by the empty lookup. -/
theorem empty (silent : ∀ placed ∈ nodes, LocatedFilters.atKind catalog placed.node.kind = []) :
    Gathers catalog limit .empty nodes := by
  have noFinds : ∀ placed ∈ nodes, ∀ finding, ¬ placed.Finds catalog limit finding := by
    intro placed among finding finds
    obtain ⟨declared, _⟩ := finds
    rw [silent placed among] at declared
    exact nomatch declared
  have noMisreads : ∀ placed ∈ nodes, ∀ filter, ¬ placed.Misreads catalog filter := by
    intro placed among filter misreads
    obtain ⟨declared, _⟩ := misreads
    rw [silent placed among] at declared
    exact nomatch declared
  refine ⟨fun filter => ?_, fun finding _ => ?_, fun _ absent => (List.not_mem_nil absent).elim,
    fun _ placed among finding finds => ?_⟩
  · refine ⟨fun absent => (List.not_mem_nil absent).elim, fun given => ?_⟩
    obtain ⟨placed, among, misreads⟩ := given
    exact (noMisreads placed among filter misreads).elim
  · refine ⟨fun absent => (List.not_mem_nil absent).elim, fun given => ?_⟩
    obtain ⟨placed, among, finds⟩ := given
    exact (noFinds placed among finding finds).elim
  · exact (noFinds placed among finding finds).elim

/-- Merging two lookups gathers the nodes of both. -/
theorem merge {left right : FilterLookup} {others : List PlacedNode}
    (gathers : Gathers catalog limit left nodes) (also : Gathers catalog limit right others) :
    Gathers catalog limit (left.merge right) (nodes ++ others) := by
  have either : ∀ holds : PlacedNode → Prop, (∃ placed ∈ nodes ++ others, holds placed) ↔
      (∃ placed ∈ nodes, holds placed) ∨ ∃ placed ∈ others, holds placed := by
    intro holds
    simp only [List.mem_append, or_and_right, exists_or]
  refine ⟨fun filter => ?_, fun finding failed => ?_, fun finding member fine => ?_,
    fun fine placed among finding finds => ?_⟩
  · rw [mem_unreadable_merge, either, gathers.unreadable, also.unreadable]
  · rw [mem_findings_merge_of_isFailure failed, either, gathers.failure finding failed,
      also.failure finding failed]
  · rw [either]
    exact (mem_findings_merge member).imp (gathers.success finding · fine)
      (also.success finding · fine)
  · rw [map_key_merge fine, mem_sortedDistinct, List.mem_append]
    rw [hasErrors_merge, Bool.or_eq_false_iff] at fine
    exact (List.mem_append.mp among).imp (gathers.known fine.1 placed · finding finds)
      (also.known fine.2 placed · finding finds)

/-- The lookups of the inputs, merged, gather the nodes below. -/
theorem mergeAll {scopes : List Scope} {outer : ScopePath} {lookups : List FilterLookup}
    (alike : List.Forall₂ (fun scope lookup =>
      Gathers catalog limit lookup (scope.placedBehind outer)) scopes lookups) :
    Gathers catalog limit (mergeAll lookups) (Scope.placedOfBehind outer scopes) := by
  have behind : ∀ {start : FilterLookup} {nodes : List PlacedNode},
      Gathers catalog limit start nodes →
        Gathers catalog limit (lookups.foldl FilterLookup.merge start)
          (nodes ++ Scope.placedOfBehind outer scopes) := by
    induction alike with
    | nil =>
        intro start nodes gathers
        rwa [Scope.placedOfBehind, List.append_nil]
    | cons head _ ih =>
        intro start nodes gathers
        rw [Scope.placedOfBehind, ← List.append_assoc]
        exact ih (gathers.merge head)
  have start : Gathers catalog limit .empty [] :=
    .empty fun _ absent => (List.not_mem_nil absent).elim
  exact behind start

end Gathers

/-- A node where something failed reports its failures only, and any other node all that is found
there. -/
theorem gathers_reported {placed : PlacedNode} {findings : List FilterFinding}
    {unreadable : List UnreadableFilter}
    (misread : ∀ filter, filter ∈ unreadable ↔ placed.Misreads catalog filter)
    (found : ∀ finding, finding ∈ findings ↔ placed.Finds catalog limit finding) :
    Gathers catalog limit ⟨if !unreadable.isEmpty || findings.any FilterFinding.isFailure then
      findings.filter FilterFinding.isFailure else findings, unreadable⟩ [placed] := by
  have failed : (!unreadable.isEmpty || findings.any FilterFinding.isFailure) = true ↔
      placed.node.Fails catalog limit := by
    rw [PlacedNode.fails_iff, Bool.or_eq_true, List.any_eq_true, Bool.not_eq_true',
      List.isEmpty_eq_false_iff_exists_mem]
    simp only [misread, found]
  have failures : ∀ finding, finding.isFailure = true →
      (finding ∈ (if !unreadable.isEmpty || findings.any FilterFinding.isFailure then
        findings.filter FilterFinding.isFailure else findings) ↔
          placed.Finds catalog limit finding) := by
    intro finding failure
    rw [← found]
    split
    · rw [List.mem_filter, and_iff_left failure]
    · rfl
  have single : ∀ holds : PlacedNode → Prop, (∃ other ∈ [placed], holds other) ↔ holds placed := by
    intro holds
    simp only [List.mem_singleton, exists_eq_left]
  refine ⟨fun filter => ?_, fun finding failure => ?_, fun finding member fine => ?_,
    fun fine => List.forall_mem_singleton.mpr fun finding finds => ?_⟩
  · rw [misread, single]
  · rw [failures finding failure, single]
  · split at member
    · rw [(List.mem_filter.mp member).2] at fine
      exact nomatch fine
    · rename_i sound
      exact ⟨placed, List.mem_cons_self, (found finding).mp member, failed.not.mp sound⟩
  · have sound : ¬ (!unreadable.isEmpty || findings.any FilterFinding.isFailure) = true := by
      intro some
      obtain ⟨kept, readable⟩ := Bool.or_eq_false_iff.mp fine
      rcases PlacedNode.fails_iff.mp (failed.mp some) with
        ⟨filter, misreads⟩ | ⟨other, finds, fails⟩
      · have member := (misread filter).mpr misreads
        exact List.any_eq_false.mp readable filter member misreads.hasErrors
      · have member := (failures other fails).mpr finds
        exact List.any_eq_false.mp kept other member fails
    refine List.mem_map_of_mem ?_
    rw [if_neg sound]
    exact (found finding).mpr finds

/-- The lookup of one node gathers that node, whatever is remembered. -/
theorem atNode_ensures (limit : Nat) (outer : ScopePath) (node : Scope) :
    Ensures (atNode limit outer node (LocatedFilters.atKind catalog node.kind))
      (Gathers catalog limit · [⟨outer, node⟩]) := by
  unfold atNode
  refine (Ensures.mapM fun located _ => readLocated_ensures located).bind fun read alike => ?_
  refine .pure (gathers_reported (fun filter => ?_) fun finding => ?_)
  · constructor
    · intro given
      obtain ⟨failure, member, rfl⟩ := List.mem_map.mp given
      obtain ⟨part, among, member⟩ := List.mem_flatMap.mp member
      obtain ⟨located, isLocated, reading⟩ := exists_left_of_forall₂ alike among
      obtain ⟨member, failed⟩ := (reading.mem_failures failure).mp member
      exact .intro isLocated member failed
    · intro misreads
      obtain ⟨isLocated, among, failed⟩ := misreads
      obtain ⟨part, member, reading⟩ := exists_right_of_forall₂ alike isLocated
      exact List.mem_map_of_mem (List.mem_flatMap.mpr
        ⟨part, member, (reading.mem_failures (_, _)).mpr ⟨among, failed⟩⟩)
  · constructor
    · intro given
      obtain ⟨part, among, member⟩ := List.mem_flatMap.mp given
      obtain ⟨reference, referred, rfl⟩ := List.mem_map.mp member
      obtain ⟨located, isLocated, reading⟩ := exists_left_of_forall₂ alike among
      obtain ⟨template, inside, references, read, member⟩ :=
        (reading.mem_references reference).mp referred
      exact reading.same ▸ .intro isLocated inside read member
    · intro finds
      obtain ⟨isLocated, among, read, inside⟩ := finds
      obtain ⟨part, member, reading⟩ := exists_right_of_forall₂ alike isLocated
      refine List.mem_flatMap.mpr ⟨part, member, List.mem_map.mpr
        ⟨_, (reading.mem_references _).mpr ⟨_, among, _, read, inside⟩, ?_⟩⟩
      rw [reading.same]

private theorem ofScopes_eq_mapM (outer : ScopePath) (scopes : List Scope) :
    ofScopes catalog limit outer scopes = scopes.mapM (ofScope catalog limit outer) := by
  induction scopes with
  | nil => rfl
  | cons scope rest ih => rw [ofScopes, ih, List.mapM_cons]

/-- Away from the ends a scope's lookup is its inputs' merged, with its own merged in last. -/
theorem ofScope_node {id : Nat} {outer : ScopePath} {kind : ScopeKind} {elements : List Element}
    {inputs : List Scope} (other : kind.isEnd = false) :
    ofScope catalog limit outer (.node id kind elements inputs) = (do
      let below ← inputs.mapM (ofScope catalog limit (outer ++ [⟨id, kind.description⟩]))
      let here ← atNode limit outer (.node id kind elements inputs)
        (LocatedFilters.atKind catalog kind)
      return (mergeAll below).merge here) := by
  rw [ofScope, ofScopes_eq_mapM]
  · rfl
  · rintro name rfl
    exact nomatch other
  · rintro rfl
    exact nomatch other

/-- What the filters at all nodes of a scope mean; without a failure it is known once. -/
theorem ofScope_ensures {scope : Scope} (ended : scope.Ended) (limit : Nat) (outer : ScopePath) :
    Ensures (ofScope catalog limit outer scope) fun lookup =>
      Gathers catalog limit lookup (scope.placedBehind outer) ∧
        (lookup.hasErrors = false → (lookup.findings.map FilterFinding.key).Nodup) := by
  induction ended generalizing outer with
  | leaf id kind elements last =>
      have silent : LocatedFilters.atKind catalog kind = [] := by
        cases kind <;> first | rfl | exact nomatch last
      have nothing : ofScope catalog limit outer (.node id kind elements []) = pure .empty := by
        cases kind <;> first | rfl | exact nomatch last
      rw [nothing, Scope.placedBehind, Scope.placedOfBehind]
      exact .pure ⟨.empty (List.forall_mem_singleton.mpr silent), fun _ => List.nodup_nil⟩
  | inputs id kind elements inputs other each ih =>
      rw [ofScope_node other]
      refine (Ensures.mapM fun input among => (ih input among _).imp
        fun _ => And.left).bind fun lookups alike => ?_
      apply (atNode_ensures limit outer (.node id kind elements inputs)).bind
      intro lookup gathers
      refine .pure ⟨?_, fun fine => ?_⟩
      · rw [Scope.placedBehind]
        exact (Gathers.mergeAll alike).merge gathers
      · rw [map_key_merge fine]
        exact nodup_sortedDistinct _

end FilterLookup

end MetricQuery

import MetricQuery.Proofs.Collection.Counting
import MetricQuery.Proofs.Filter.Gathering

/-! # Failures are listed once

Whatever is merged on the way out of a scope, nothing that was found about its filters is listed
twice (`FilterLookup.ofQuery_listsOnce`): what is found at one node differs in its location or in
its reference, and what is found at different nodes in its path. Everything that is listed besides
what was found is an error (`FilterLookup.Gathers.isError_of_mem_issues`).
-/

namespace MetricQuery

open ReferenceMemo (Ensures)

private theorem nodup_appendNew {α : Type} [BEq α] [LawfulBEq α] {base : List α}
    (distinct : base.Nodup)
    (extra : List α) : (appendNew base extra).Nodup := by
  rw [appendNew_eq_append]
  refine distinct.append (nodup_eraseDups _) fun member held new => ?_
  obtain ⟨_, fresh⟩ := List.mem_filter.mp (List.mem_eraseDups.mp new)
  simp [held] at fresh

namespace FilterFinding

private theorem nodup_settleAll {findings : List FilterFinding} (distinct : findings.Nodup) :
    (settleAll findings).Nodup := by
  refine List.nodup_flatMap.mpr ⟨fun wanted _ => ?_, ?_⟩
  · have ordered : (inOrder (findings.filter fun finding => finding.key == wanted)).Nodup :=
      (inOrder_perm _).nodup_iff.mpr (List.Pairwise.filter _ distinct)
    rw [settle_eq_ite]
    split
    · exact List.Pairwise.filter _ ordered
    · exact ordered.sublist (List.take_sublist _ _)
  · refine List.Pairwise.imp (fun {left right} different finding first second => ?_)
      (nodup_sortedDistinct (findings.map key))
    have first := (List.mem_filter.mp (mem_of_mem_settle first)).2
    have second := (List.mem_filter.mp (mem_of_mem_settle second)).2
    exact different ((beq_iff_eq.mp first).symm.trans (beq_iff_eq.mp second))

end FilterFinding

private theorem PlacedNode.id_eq_of_path_eq {left right : PlacedNode}
    (same : left.path = right.path) :
    left.node.id = right.node.id := by
  obtain ⟨_, steps⟩ := List.append_inj' same rfl
  exact congrArg PathStep.id (List.singleton_inj.mp steps)

/-- A finding's path is that of the node it is found at. -/
theorem PlacedNode.Finds.path_eq {catalog : Catalog} {limit : Nat} {placed : PlacedNode}
    {finding : FilterFinding} (finds : placed.Finds catalog limit finding) :
    finding.path = placed.path := by
  obtain ⟨_, _, _, _⟩ := finds
  rfl

/-- All issues about a reference are errors. -/
theorem Scope.isError_of_mem_resolve {node : Scope} {limit : Nat} {pattern : ItemPattern}
    {input : String} {issue : Issue}
    (reported : issue ∈ (node.resolve limit pattern input).issues) : issue.isError = true := by
  unfold resolve at reported
  split at reported
  · rw [List.mem_singleton.mp reported]
    rfl
  · split at reported
    · exact (List.not_mem_nil reported).elim
    · obtain ⟨_, _, rfl⟩ := List.mem_map.mp reported
      rfl
  · rw [List.mem_singleton.mp reported]
    rfl

namespace FilterLookup

variable {catalog : Catalog} {limit : Nat} {left right : FilterLookup}
  {nodes others : List PlacedNode}

/-- Merging repeats no unreadable filter that the first lookup did not repeat. -/
theorem nodup_unreadable_merge (distinct : left.unreadable.Nodup) :
    (left.merge right).unreadable.Nodup :=
  (sortBy_perm _ _).nodup_iff.mpr (nodup_appendNew distinct _)

private theorem nodup_unreadable_mergeAll (lookups : List FilterLookup) :
    (mergeAll lookups).unreadable.Nodup := by
  have behind : ∀ start : FilterLookup, start.unreadable.Nodup →
      (lookups.foldl merge start).unreadable.Nodup := by
    induction lookups with
    | nil => exact fun start distinct => distinct
    | cons lookup rest ih => exact fun start distinct => ih _ (nodup_unreadable_merge distinct)
  exact behind empty List.nodup_nil

/-- Whether nothing is listed twice of what was found at some nodes, if all of them have different
numbers. -/
def ListsOnce (catalog : Catalog) (limit : Nat) (lookup : FilterLookup)
    (nodes : List PlacedNode) : Prop :=
  Gathers catalog limit lookup nodes ∧
    ((nodes.map (·.node.id)).Nodup → lookup.findings.Nodup)

/-- Merging keeps every callout listed once. -/
theorem ListsOnce.merge (once : ListsOnce catalog limit left nodes)
    (also : ListsOnce catalog limit right others) :
    ListsOnce catalog limit (left.merge right) (nodes ++ others) := by
  refine ⟨once.1.merge also.1, fun distinct => ?_⟩
  rw [List.map_append] at distinct
  obtain ⟨before, after, apart⟩ := List.nodup_append.mp distinct
  apply FilterFinding.nodup_settleAll
  refine (once.2 before).append (also.2 after) fun finding first second => ?_
  obtain ⟨placed, among, finds⟩ := once.1.exists_finds first
  obtain ⟨other, amongOthers, findsToo⟩ := also.1.exists_finds second
  have same := PlacedNode.id_eq_of_path_eq (finds.path_eq.symm.trans findsToo.path_eq)
  exact apart _ (List.mem_map_of_mem among) _ (List.mem_map_of_mem amongOthers) same

/-- The inputs' lookups, merged, list every callout of the nodes below once. -/
theorem ListsOnce.mergeAll {scopes : List Scope} {outer : ScopePath} {lookups : List FilterLookup}
    (alike : List.Forall₂ (fun scope lookup =>
      ListsOnce catalog limit lookup (scope.placedBehind outer)) scopes lookups) :
    ListsOnce catalog limit (mergeAll lookups) (Scope.placedOfBehind outer scopes) := by
  have behind : ∀ {start : FilterLookup} {nodes : List PlacedNode},
      ListsOnce catalog limit start nodes →
        ListsOnce catalog limit (lookups.foldl FilterLookup.merge start)
          (nodes ++ Scope.placedOfBehind outer scopes) := by
    induction alike with
    | nil =>
        intro start nodes once
        rwa [Scope.placedOfBehind, List.append_nil]
    | cons head _ ih =>
        intro start nodes once
        rw [Scope.placedOfBehind, ← List.append_assoc]
        exact ih (once.merge head)
  exact behind ⟨.empty fun _ absent => (List.not_mem_nil absent).elim, fun _ => List.nodup_nil⟩

private theorem nodup_locations_atKind (kind : ScopeKind) :
    ((LocatedFilters.atKind catalog kind).map LocatedFilters.location).Nodup := by
  cases kind with
  | measure name => exact List.nodup_nil
  | noMetrics => exact List.nodup_nil
  | query metrics filters => exact List.nodup_singleton _
  | metric name place =>
      rw [LocatedFilters.atKind]
      cases catalog.metric? name with
      | none => exact List.nodup_nil
      | some metric =>
          simp only
          split
          · cases (place.bind (·.input? catalog)).bind InputMetric.filter <;> simp
          · cases (place.bind (·.input? catalog)).bind InputMetric.filter <;> simp

private theorem readLocated_nodup (located : LocatedFilters) :
    Ensures (readLocated located) fun read => read.filters = located ∧ read.references.Nodup := by
  have each : ∀ template ∈ located.templates, Ensures
      (readFilter template >>= fun references => pure (template, references)) fun _ => True :=
    fun template _ => (readFilter_ensures template).bind fun _ _ => .pure trivial
  unfold readLocated
  exact (Ensures.mapM each).bind fun _ _ => .pure ⟨rfl, nodup_eraseDups _⟩

private theorem nodup_find (limit : Nat) (outer : ScopePath) (node : Scope)
    {read : List ReadFilters}
    (locations : (read.map (·.filters.location)).Nodup)
    (references : ∀ part ∈ read, part.references.Nodup) :
    (read.flatMap fun part => part.references.map (find limit outer node part.filters)).Nodup := by
  refine List.nodup_flatMap.mpr ⟨fun part among => ?_, ?_⟩
  · refine (references part among).map fun first second same => ?_
    exact congrArg (fun finding : FilterFinding => finding.key.reference) same
  · refine (List.pairwise_map.mp locations).imp ?_
    intro left right different finding first second
    obtain ⟨_, _, rfl⟩ := List.mem_map.mp first
    obtain ⟨_, _, same⟩ := List.mem_map.mp second
    exact different (congrArg (fun finding : FilterFinding => finding.key.location) same).symm

private theorem atNode_nodup (limit : Nat) (outer : ScopePath) (node : Scope) :
    Ensures (atNode limit outer node (LocatedFilters.atKind catalog node.kind))
      (·.findings.Nodup) := by
  unfold atNode
  refine (Ensures.mapM fun located _ => readLocated_nodup located).bind fun read alike => .pure ?_
  have same : read.map (·.filters) = (LocatedFilters.atKind catalog node.kind).map id :=
    map_eq_of_forall₂ (alike.imp fun _ _ => And.left)
  have locations : (read.map (·.filters.location)).Nodup := by
    have distinct := @nodup_locations_atKind catalog node.kind
    rwa [← List.map_id (LocatedFilters.atKind catalog node.kind), ← same, List.map_map] at distinct
  have references : ∀ part ∈ read, part.references.Nodup := by
    intro part among
    obtain ⟨_, _, _, distinct⟩ := exists_left_of_forall₂ alike among
    exact distinct
  have distinct := nodup_find limit outer node locations references
  simp only
  split
  · exact List.Pairwise.filter _ distinct
  · exact distinct

/-- What is found about the filters of a query is listed once. -/
theorem ofScope_listsOnce {scope : Scope} (ended : scope.Ended) (limit : Nat) (outer : ScopePath) :
    Ensures (ofScope catalog limit outer scope) fun lookup =>
      ListsOnce catalog limit lookup (scope.placedBehind outer) ∧ lookup.unreadable.Nodup := by
  induction ended generalizing outer with
  | leaf id kind elements last =>
      have nothing : ofScope catalog limit outer (.node id kind elements []) = pure .empty := by
        cases kind <;> first | rfl | exact nomatch last
      have distinct : Ensures (ofScope catalog limit outer (.node id kind elements []))
          fun lookup => lookup.findings.Nodup ∧ lookup.unreadable.Nodup := by
        rw [nothing]
        exact .pure ⟨List.nodup_nil, List.nodup_nil⟩
      refine ((ofScope_ensures (.leaf id kind elements last) limit outer).and distinct).imp ?_
      exact fun lookup held => ⟨⟨held.1.1, fun _ => held.2.1⟩, held.2.2⟩
  | inputs id kind elements inputs other each ih =>
      rw [ofScope_node other]
      refine (Ensures.mapM fun input among => (ih input among _).imp
        fun _ => And.left).bind fun lookups alike => ?_
      apply ((atNode_ensures limit outer (.node id kind elements inputs)).and
        (atNode_nodup limit outer (.node id kind elements inputs))).bind
      rintro lookup ⟨gathers, distinct⟩
      refine .pure ⟨?_, nodup_unreadable_merge (nodup_unreadable_mergeAll lookups)⟩
      rw [Scope.placedBehind]
      exact (ListsOnce.mergeAll alike).merge ⟨gathers, fun _ => distinct⟩

/-- Whatever is listed as an issue is an error. -/
theorem Gathers.isError_of_mem_issues {lookup : FilterLookup}
    (gathers : Gathers catalog limit lookup nodes) {issue : Issue}
    (listed : issue ∈ lookup.issues) : issue.isError = true := by
  rcases List.mem_append.mp listed with listed | listed
  · obtain ⟨finding, member, listed⟩ := List.mem_flatMap.mp listed
    obtain ⟨_, _, _, _, _, _⟩ := gathers.exists_finds member
    obtain ⟨inner, reported, rfl⟩ := List.mem_map.mp listed
    have isError := Scope.isError_of_mem_resolve reported
    exact isError
  · obtain ⟨filter, member, listed⟩ := List.mem_flatMap.mp listed
    obtain ⟨_, _, _, _, _⟩ := (gathers.unreadable filter).mp member
    rw [List.mem_singleton.mp listed]
    rfl

/-- What is found about the filters of a query is listed once, and without failures it is known once
for each reference. -/
theorem ofQuery_listsOnce {scope : Scope} {metrics filters : List String}
    (built : Scope.ofQuery catalog metrics filters = .ok scope) (limit : Nat) :
    Ensures (ofQuery catalog limit scope) fun lookup =>
      Gathers catalog limit lookup scope.placed ∧ lookup.findings.Nodup ∧
        lookup.unreadable.Nodup ∧
        (lookup.hasErrors = false → (lookup.findings.map FilterFinding.key).Nodup) := by
  have ended := Scope.ended_of_ofQuery built
  have numbers : (scope.placed.map (·.node.id)).Nodup := by
    have distinct := Scope.nodup_ids built
    rwa [← ended.map_node_placedBehind [], List.map_map] at distinct
  refine ((ofScope_listsOnce ended limit []).and (ofScope_ensures ended limit [])).imp ?_
  rintro lookup ⟨⟨once, readings⟩, gathers, known⟩
  exact ⟨gathers, once.2 numbers, readings, known⟩

end FilterLookup

end MetricQuery

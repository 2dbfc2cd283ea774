import MetricQuery.Proofs.Scope.Building

/-! # Nodes and the paths to them

Every node of a scope together with the path that leads to it. Since nodes are numbered from the
inside to the outside without a repeat (`Scope.nodup_ids`), a path leads to one node only
(`Scope.eq_of_path_eq`).
-/

namespace MetricQuery

/-- A node of a scope, reached over the nodes outside of it. -/
structure PlacedNode where
  outer : ScopePath
  node : Scope

/-- The path that ends at a node. -/
def PlacedNode.path (placed : PlacedNode) : ScopePath := placed.outer ++ [placed.node.step]

/-- Whether nothing can lie below a node. -/
def ScopeKind.isEnd : ScopeKind → Bool
  | measure _ => true
  | noMetrics => true
  | _ => false

namespace Scope

mutual

/-- The nodes at or below a node that is reached over `outer`, by ascending numbers. -/
def placedBehind (outer : ScopePath) : Scope → List PlacedNode
  | node id kind elements inputs =>
    placedOfBehind (outer ++ [⟨id, kind.description⟩]) inputs ++
      [⟨outer, node id kind elements inputs⟩]

/-- The nodes of several scopes, with the paths to them. -/
def placedOfBehind (outer : ScopePath) : List Scope → List PlacedNode
  | [] => []
  | scope :: rest => placedBehind outer scope ++ placedOfBehind outer rest

end

/-- The nodes of a scope, each with the path from the outermost one. -/
def placed (scope : Scope) : List PlacedNode := scope.placedBehind []

/-- The placed nodes of several scopes are those of each, in order. -/
theorem placedOfBehind_eq_flatMap (outer : ScopePath) (scopes : List Scope) :
    placedOfBehind outer scopes = scopes.flatMap (placedBehind outer) := by
  induction scopes with
  | nil => rw [placedOfBehind, List.flatMap_nil]
  | cons scope rest ih => rw [placedOfBehind, ih, List.flatMap_cons]

/-- A scope that ends in measures and in queries without metrics. -/
inductive Ended : Scope → Prop where
  | leaf (id : Nat) (kind : ScopeKind) (elements : List Element) (last : kind.isEnd = true) :
      Ended (node id kind elements [])
  | inputs (id : Nat) (kind : ScopeKind) (elements : List Element) (inputs : List Scope)
      (other : kind.isEnd = false) (each : ∀ input ∈ inputs, Ended input) :
      Ended (node id kind elements inputs)

/-- Paths are only added to the nodes of a scope. -/
theorem Ended.map_node_placedBehind {scope : Scope} (ended : Ended scope) (outer : ScopePath) :
    (scope.placedBehind outer).map PlacedNode.node = scope.nodes := by
  induction ended generalizing outer with
  | leaf id kind elements last =>
      rw [placedBehind, placedOfBehind, nodes, nodesOf]
      rfl
  | inputs id kind elements inputs other each ih =>
      rw [placedBehind, placedOfBehind_eq_flatMap, nodes, nodesOf_eq_flatMap, List.map_append,
        List.map_flatMap, List.map_singleton,
        List.flatMap_congr fun input among => ih input among _]

/-- A node of a scope is the outermost node of a scope like it. -/
theorem Ended.of_mem_nodes {scope node : Scope} (ended : Ended scope)
    (member : node ∈ scope.nodes) : Ended node ∧ ∀ other ∈ node.nodes, other ∈ scope.nodes := by
  induction ended with
  | leaf id kind elements last =>
      rw [nodes, nodesOf, List.nil_append, List.mem_singleton] at member
      subst member
      exact ⟨.leaf id kind elements last, fun _ inside => inside⟩
  | inputs id kind elements inputs other each ih =>
      rcases mem_nodes.mp member with ⟨input, among, inside⟩ | rfl
      · obtain ⟨ended, within⟩ := ih input among inside
        exact ⟨ended, fun other below => mem_nodes.mpr (.inl ⟨input, among, within other below⟩)⟩
      · exact ⟨.inputs id kind elements inputs other each, fun _ inside => inside⟩

/-- A measure that is reached is one of the nodes, on the same path. -/
theorem Ended.exists_placed_of_reached {scope : Scope} (ended : Ended scope) (outer : ScopePath)
    {reached : ReachedMeasure} (among : reached ∈ scope.measuresBehind outer) :
    ∃ placed ∈ scope.placedBehind outer,
      placed.path = reached.path ∧ placed.node.elements = reached.elements := by
  induction ended generalizing outer with
  | leaf id kind elements last =>
      cases kind with
      | measure name =>
          rw [measuresBehind, measuresOfBehind, List.mem_singleton] at among
          subst among
          refine ⟨⟨outer, node id (.measure name) elements []⟩, ?_, rfl, rfl⟩
          rw [placedBehind, placedOfBehind]
          exact List.mem_singleton_self _
      | noMetrics =>
          rw [measuresBehind, measuresOfBehind] at among
          · cases among
          · rintro _ ⟨⟩
      | _ => cases last
  | inputs id kind elements inputs other each ih =>
      have notMeasure : kind.isMeasure = false := by
        cases kind with
        | measure name => cases other
        | _ => rfl
      rw [measuresBehind_inputs notMeasure, List.mem_flatMap] at among
      obtain ⟨input, below, among⟩ := among
      obtain ⟨placed, inside, same⟩ := ih input below _ among
      refine ⟨placed, ?_, same⟩
      rw [placedBehind, placedOfBehind_eq_flatMap]
      exact List.mem_append_left _ (List.mem_flatMap.mpr ⟨input, below, inside⟩)

private theorem ended_of_ofMetric {catalog : Catalog} {depth : Nat} {name : String}
    {place : Option InputPlace} {before after : Nat} {scope : Scope}
    (ok : ofMetric catalog depth name place before = .ok (scope, after)) : Ended scope := by
  induction depth generalizing name place before after scope with
  | zero => exact nomatch ok
  | succ depth ih =>
      obtain ⟨metric, id, measures, metrics, _, rfl, fromMeasures, fromMetrics⟩ := of_ofMetric ok
      refine .inputs _ _ _ _ rfl fun input member => ?_
      rcases List.mem_append.mp member with member | member
      · obtain ⟨measure, _, start, finish, created⟩ := exists_left_of_forall₂ fromMeasures member
        obtain ⟨_, id, rfl⟩ := of_ofMeasure created
        exact .leaf _ _ _ rfl
      · obtain ⟨numbered, _, start, finish, created⟩ := exists_left_of_forall₂ fromMetrics member
        exact ih created

/-- The scope of a query ends in measures. -/
theorem ended_of_ofQuery {catalog : Catalog} {metrics filters : List String} {scope : Scope}
    (ok : ofQuery catalog metrics filters = .ok scope) : Ended scope := by
  by_cases none : metrics = []
  · subst none
    obtain ⟨⟩ := ok
    exact .inputs _ _ _ _ rfl (List.forall_mem_singleton.mpr (.leaf _ _ _ rfl))
  · obtain ⟨id, inputs, rfl, created⟩ := of_ofQuery none ok
    refine .inputs _ _ _ _ rfl fun input among => ?_
    obtain ⟨metric, _, start, finish, created⟩ := exists_left_of_forall₂ created among
    exact ended_of_ofMetric created

/-! ## Numbers -/

/-- Whether the nodes of scopes carry the numbers from `before` up to `after`, in this order. -/
def Numbered (before after : Nat) (scopes : List Scope) : Prop :=
  ∃ count, after = before + count ∧ (nodesOf scopes).map id = List.range' before count

namespace Numbered

variable {before between after : Nat} {scopes others : List Scope}

/-- Scopes numbered one after the other are numbered together. -/
theorem append (left : Numbered before between scopes) (right : Numbered between after others) :
    Numbered before after (scopes ++ others) := by
  obtain ⟨count, rfl, first⟩ := left
  obtain ⟨more, rfl, second⟩ := right
  refine ⟨count + more, by omega, ?_⟩
  rw [nodesOf_eq_flatMap] at first second ⊢
  rw [List.flatMap_append, List.map_append, first, second, List.range'_append_1]

/-- A node gets the number behind those of its inputs. -/
theorem node (inputs : Numbered before after scopes) (kind : ScopeKind) (elements : List Element) :
    Numbered before (after + 1) [.node after kind elements scopes] := by
  obtain ⟨count, rfl, numbers⟩ := inputs
  refine ⟨count + 1, by omega, ?_⟩
  rw [nodesOf, nodesOf, List.append_nil, nodes, List.map_append, numbers, List.range'_concat,
    Nat.one_mul]
  rfl

/-- Scopes built in sequence are numbered in sequence. -/
theorem mapM {α : Type} {compute : α → Build Scope} {members : List α}
    (each : ∀ member ∈ members, ∀ start finish scope,
      compute member start = .ok (scope, finish) → Numbered start finish [scope])
    (ok : members.mapM compute before = .ok (scopes, after)) :
    Numbered before after scopes := by
  induction members generalizing before scopes with
  | nil =>
      rw [List.mapM_nil, run_pure_eq_ok] at ok
      obtain ⟨rfl, rfl⟩ := ok
      exact ⟨0, rfl, rfl⟩
  | cons member rest ih =>
      simp only [List.mapM_cons, run_bind_eq_ok, run_pure_eq_ok] at ok
      obtain ⟨first, middle, head, later, _, tail, rfl, rfl⟩ := ok
      have front := each member List.mem_cons_self _ _ _ head
      exact front.append (ih (fun other among => each other (List.mem_cons_of_mem _ among)) tail)

end Numbered

section

variable {catalog : Catalog} {before after : Nat} {scope : Scope}

private theorem numbered_of_ofMeasure {metric measure : String}
    (ok : ofMeasure catalog metric measure before = .ok (scope, after)) :
    Numbered before after [scope] := by
  unfold ofMeasure at ok
  split at ok
  · exact nomatch ok
  · obtain ⟨⟩ := ok
    exact Numbered.node ⟨0, rfl, rfl⟩ _ _

private theorem numbered_of_ofMetric {depth : Nat} {name : String} {place : Option InputPlace}
    (ok : ofMetric catalog depth name place before = .ok (scope, after)) :
    Numbered before after [scope] := by
  induction depth generalizing name place before after scope with
  | zero => cases ok
  | succ depth ih =>
      unfold ofMetric at ok
      cases found : catalog.metric? name with
      | none =>
          simp only [found] at ok
          cases ok
      | some metric =>
          simp only [found, run_bind_eq_ok] at ok
          obtain ⟨measures, between, fromMeasures, metrics, last, fromMetrics, ok⟩ := ok
          rw [run_create] at ok
          obtain ⟨⟩ := ok
          have below : Numbered before between measures :=
            .mapM (fun _ _ _ _ _ created => numbered_of_ofMeasure created) fromMeasures
          have above : Numbered between last metrics :=
            .mapM (fun _ _ _ _ _ created => ih created) fromMetrics
          exact (below.append above).node _ _

private theorem numbered_of_ofQuery {metrics filters : List String}
    (ok : ofQuery catalog metrics filters = .ok scope) : ∃ after, Numbered 0 after [scope] := by
  obtain ⟨id, inputs, rfl, created⟩ := exists_inputs_of_ofQuery ok
  have below : Numbered 0 id inputs := by
    unfold queryInputs at created
    split at created
    · obtain ⟨⟩ := created
      exact Numbered.node ⟨0, rfl, rfl⟩ _ _
    · exact .mapM (fun _ _ _ _ _ created => numbered_of_ofMetric created) created
  exact ⟨id + 1, below.node _ _⟩

/-- The nodes of the scope of a query are numbered in order. -/
theorem ids_of_ofQuery {metrics filters : List String}
    (ok : ofQuery catalog metrics filters = .ok scope) :
    scope.nodes.map id = List.range scope.nodes.length := by
  obtain ⟨_, count, _, numbers⟩ := numbered_of_ofQuery ok
  rw [nodesOf, nodesOf, List.append_nil] at numbers
  have length := congrArg List.length numbers
  rw [List.length_map, List.length_range'] at length
  rw [numbers, length, List.range_eq_range']

/-- No two nodes of the scope of a query have the same number. -/
theorem nodup_ids {metrics filters : List String}
    (ok : ofQuery catalog metrics filters = .ok scope) : (scope.nodes.map id).Nodup :=
  ids_of_ofQuery ok ▸ List.nodup_range

/-- The path to a node of the scope of a query tells which node it is. -/
theorem eq_of_path_eq {metrics filters : List String}
    (ok : ofQuery catalog metrics filters = .ok scope) {left right : PlacedNode}
    (isPlaced : left ∈ scope.placed) (also : right ∈ scope.placed)
    (same : left.path = right.path) : left = right := by
  have nodes := (ended_of_ofQuery ok).map_node_placedBehind []
  obtain ⟨outer, steps⟩ := List.append_inj' same rfl
  have ids : left.node.id = right.node.id :=
    congrArg PathStep.id (List.singleton_inj.mp steps)
  have equal : left.node = right.node :=
    List.inj_on_of_nodup_map (nodup_ids ok) (nodes ▸ List.mem_map_of_mem isPlaced)
      (nodes ▸ List.mem_map_of_mem also) ids
  cases left
  cases right
  congr

end

end Scope

end MetricQuery

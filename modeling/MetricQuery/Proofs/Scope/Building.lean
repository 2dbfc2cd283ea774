import MetricQuery.Proofs.Collection.Sorting
import MetricQuery.Proofs.Failing
import MetricQuery.Scope.Building

/-! # The shape of scopes

A scope over metrics ends in measures, and every other node offers what its inputs offer together
(`Scope.Built`). Each node therefore offers exactly what the measures at or below it offer
(`Scope.Built.mem_elements`).
-/

namespace MetricQuery

/-- Whether a node is a measure. -/
def ScopeKind.isMeasure : ScopeKind → Bool
  | measure _ => true
  | _ => false

namespace Scope

/-- The measures at or below a node, as nodes. -/
def leaves (scope : Scope) : List Scope := scope.nodes.filter (·.kind.isMeasure)

/-- A scope that ends in measures, in which every other node offers what its inputs offer. -/
inductive Built : Scope → Prop where
  | measure (id : Nat) (name : String) (elements : List Element) :
      Built (node id (.measure name) elements [])
  | inputs (id : Nat) (kind : ScopeKind) (inputs : List Scope) (other : kind.isMeasure = false)
      (each : ∀ input ∈ inputs, Built input) : Built (node id kind (union inputs) inputs)

/-- The nodes of several scopes are those of each, in order. -/
theorem nodesOf_eq_flatMap (scopes : List Scope) : nodesOf scopes = scopes.flatMap nodes := by
  induction scopes with
  | nil => rw [nodesOf, List.flatMap_nil]
  | cons scope rest ih => rw [nodesOf, ih, List.flatMap_cons]

private theorem measuresOfBehind_eq_flatMap (path : ScopePath) (scopes : List Scope) :
    measuresOfBehind path scopes = scopes.flatMap (measuresBehind path) := by
  induction scopes with
  | nil => rw [measuresOfBehind, List.flatMap_nil]
  | cons scope rest ih => rw [measuresOfBehind, ih, List.flatMap_cons]

/-- A node lies in a scope if it lies below one of its inputs or is the scope itself. -/
theorem mem_nodes {other : Scope} {id : Nat} {kind : ScopeKind} {elements : List Element}
    {inputs : List Scope} : other ∈ (node id kind elements inputs).nodes ↔
      (∃ input ∈ inputs, other ∈ input.nodes) ∨ other = node id kind elements inputs := by
  rw [nodes, nodesOf_eq_flatMap, List.mem_append, List.mem_flatMap, List.mem_singleton]

/-- A scope is among its own nodes. -/
theorem self_mem_nodes (scope : Scope) : scope ∈ scope.nodes := by
  cases scope
  exact mem_nodes.mpr (.inr rfl)

/-- A measure node is its own only leaf. -/
theorem leaves_measure (id : Nat) (name : String) (elements : List Element) :
    (node id (.measure name) elements []).leaves = [node id (.measure name) elements []] := by
  rw [leaves, nodes, nodesOf]
  rfl

/-- Any other node has the leaves of its inputs. -/
theorem leaves_inputs {id : Nat} {kind : ScopeKind} {elements : List Element}
    {inputs : List Scope} (other : kind.isMeasure = false) :
    (node id kind elements inputs).leaves = inputs.flatMap leaves := by
  rw [leaves, nodes, List.filter_append, nodesOf_eq_flatMap, List.filter_flatMap,
    List.filter_cons_of_neg (by simpa only [Scope.kind, Bool.not_eq_true] using other)]
  exact List.append_nil _

/-- Any node but a measure has the measures behind its inputs, one step further down. -/
theorem measuresBehind_inputs {id : Nat} {kind : ScopeKind} {elements : List Element}
    {inputs : List Scope} {path : ScopePath} (other : kind.isMeasure = false) :
    (node id kind elements inputs).measuresBehind path =
      inputs.flatMap (measuresBehind (path ++ [⟨id, kind.description⟩])) := by
  rw [measuresBehind, measuresOfBehind_eq_flatMap]
  rintro name rfl
  exact nomatch other

namespace Built

/-- Every node of a scope is built like the scope. -/
theorem of_mem_nodes {scope node : Scope} (built : Built scope) (member : node ∈ scope.nodes) :
    Built node := by
  induction built with
  | measure id name elements =>
      rw [nodes, nodesOf, List.nil_append, List.mem_singleton] at member
      exact member ▸ .measure id name elements
  | inputs id kind inputs other each ih =>
      rcases mem_nodes.mp member with ⟨input, among, inside⟩ | rfl
      · exact ih input among inside
      · exact .inputs id kind inputs other each

/-- A node offers exactly what the measures at or below it offer. -/
theorem mem_elements {scope : Scope} (built : Built scope) {element : Element} :
    element ∈ scope.elements ↔ ∃ leaf ∈ scope.leaves, element ∈ leaf.elements := by
  induction built with
  | measure id name elements =>
      rw [leaves_measure]
      simp only [List.mem_singleton, exists_eq_left]
  | inputs id kind inputs other each ih =>
      rw [leaves_inputs other]
      simp only [elements, union, mem_sortedDistinct, List.mem_flatMap]
      constructor
      · intro offers
        obtain ⟨input, among, offered⟩ := offers
        obtain ⟨leaf, below, offered⟩ := (ih input among).mp offered
        exact ⟨leaf, ⟨input, among, below⟩, offered⟩
      · intro offers
        obtain ⟨leaf, ⟨input, among, below⟩, offered⟩ := offers
        exact ⟨input, among, (ih input among).mpr ⟨leaf, below, offered⟩⟩

/-- What is reached at the measures below a node is what these measures offer. -/
theorem forall_measures_iff {scope : Scope} (built : Built scope) (path : ScopePath)
    (holds : List Element → Prop) :
    (∀ reached ∈ scope.measuresBehind path, holds reached.elements) ↔
      ∀ leaf ∈ scope.leaves, holds leaf.elements := by
  induction built generalizing path with
  | measure id name elements =>
      rw [leaves_measure, measuresBehind, measuresOfBehind]
      simp only [List.forall_mem_singleton]
      rfl
  | inputs id kind inputs other each ih =>
      rw [measuresBehind_inputs other, leaves_inputs other]
      simp only [List.forall_mem_flatMap]
      exact forall₂_congr fun input among => ih input among _

/-- A leaf is built and is its own only leaf. -/
theorem leaves_of_mem_leaves {scope leaf : Scope} (built : Built scope)
    (member : leaf ∈ scope.leaves) : Built leaf ∧ leaf.leaves = [leaf] := by
  obtain ⟨below, isMeasure⟩ := List.mem_filter.mp member
  have leafBuilt := built.of_mem_nodes below
  refine ⟨leafBuilt, ?_⟩
  cases leafBuilt with
  | measure id name elements => exact leaves_measure id name elements
  | inputs id kind inputs other each => exact nomatch other.symm.trans isMeasure

end Built

/-- A new node takes the next number. -/
theorem run_create (kind : ScopeKind) (elements : List Element) (inputs : List Scope)
    (number : Nat) :
    create kind elements inputs number = .ok (node number kind elements inputs, number + 1) := rfl

/-- A measure's scope is one node with what the catalog offers for that measure. -/
theorem of_ofMeasure {catalog : Catalog} {metric measure : String} {before after : Nat}
    {scope : Scope} (ok : ofMeasure catalog metric measure before = .ok (scope, after)) :
    (catalog.measure? measure).isSome = true ∧
      ∃ id, scope = node id (.measure measure) (catalog.elementsOf measure) [] := by
  unfold ofMeasure at ok
  split at ok
  · exact nomatch ok
  · rename_i known
    obtain ⟨⟩ := ok
    exact ⟨by rwa [Bool.not_eq_true, Option.isNone_eq_false_iff] at known, before, rfl⟩

/-- The node of a metric stands over the node of its measure and the nodes of its inputs. -/
theorem of_ofMetric {catalog : Catalog} {depth : Nat} {name : String} {place : Option InputPlace}
    {before after : Nat} {scope : Scope}
    (ok : ofMetric catalog (depth + 1) name place before = .ok (scope, after)) :
    ∃ metric id measures metrics, catalog.metric? name = some metric ∧
      scope = node id (.metric name place) (union (measures ++ metrics)) (measures ++ metrics) ∧
      List.Forall₂ (fun (input : InputMeasure) leaf => ∃ start finish,
        ofMeasure catalog name input.name start = .ok (leaf, finish))
        metric.inputMeasures measures ∧
      List.Forall₂ (fun (numbered : InputMetric × Nat) below => ∃ start finish,
        ofMetric catalog depth numbered.1.name (some ⟨name, numbered.2⟩) start =
          .ok (below, finish)) metric.inputMetrics.zipIdx metrics := by
  unfold ofMetric at ok
  cases found : catalog.metric? name with
  | none =>
      simp only [found] at ok
      cases ok
  | some metric =>
      simp only [found, run_bind_eq_ok] at ok
      obtain ⟨measures, between, fromMeasures, metrics, id, fromMetrics, ok⟩ := ok
      rw [run_create] at ok
      obtain ⟨⟩ := ok
      exact ⟨metric, id, measures, metrics, rfl, rfl, forall₂_of_run_mapM_eq_ok fromMeasures,
        forall₂_of_run_mapM_eq_ok fromMetrics⟩

/-- A node of the scope of a metric is the node of this metric or of its measure, or it lies in the
scope of an input. -/
theorem of_mem_nodes_of_ofMetric {catalog : Catalog} {depth : Nat} {name : String}
    {place : Option InputPlace} {before after : Nat} {scope : Scope}
    (ok : ofMetric catalog (depth + 1) name place before = .ok (scope, after)) {other : Scope}
    (member : other ∈ scope.nodes) : other = scope ∧ scope.kind = .metric name place ∨
      (∃ id measure elements, other = node id (.measure measure) elements []) ∨
      ∃ metric input index below start finish, catalog.metric? name = some metric ∧
        metric.inputMetrics[index]? = some input ∧
        ofMetric catalog depth input.name (some ⟨name, index⟩) start = .ok (below, finish) ∧
        other ∈ below.nodes := by
  obtain ⟨metric, id, measures, metrics, found, rfl, fromMeasures, fromMetrics⟩ := of_ofMetric ok
  rcases mem_nodes.mp member with ⟨input, among, inside⟩ | rfl
  · rcases List.mem_append.mp among with among | among
    · obtain ⟨_, _, _, _, created⟩ := exists_left_of_forall₂ fromMeasures among
      obtain ⟨_, number, rfl⟩ := of_ofMeasure created
      rw [nodes, nodesOf, List.nil_append, List.mem_singleton] at inside
      exact .inr (.inl ⟨_, _, _, inside⟩)
    · obtain ⟨⟨fed, index⟩, numbered, start, finish, created⟩ :=
        exists_left_of_forall₂ fromMetrics among
      have listed := List.mk_mem_zipIdx_iff_getElem?.mp numbered
      exact .inr (.inr ⟨metric, fed, index, input, start, finish, found, listed, created, inside⟩)
  · exact .inl ⟨rfl, rfl⟩

/-- The scope of a metric contains the scopes of its inputs. -/
theorem exists_below_of_ofMetric {catalog : Catalog} {depth : Nat} {name : String}
    {place : Option InputPlace} {before after : Nat} {scope : Scope}
    (ok : ofMetric catalog (depth + 1) name place before = .ok (scope, after)) {metric : Metric}
    (found : catalog.metric? name = some metric) {input : InputMetric} {index : Nat}
    (listed : metric.inputMetrics[index]? = some input) : ∃ below start finish,
      ofMetric catalog depth input.name (some ⟨name, index⟩) start = .ok (below, finish) ∧
        ∀ other ∈ below.nodes, other ∈ scope.nodes := by
  obtain ⟨_, id, measures, metrics, same, rfl, _, fromMetrics⟩ := of_ofMetric ok
  obtain ⟨⟩ := found.symm.trans same
  obtain ⟨below, member, start, finish, created⟩ := exists_right_of_forall₂ fromMetrics
    (List.mk_mem_zipIdx_iff_getElem?.mpr listed)
  have among : below ∈ measures ++ metrics := List.mem_append_right measures member
  exact ⟨below, start, finish, created, fun other inside =>
    mem_nodes.mpr (.inl ⟨below, among, inside⟩)⟩

/-- Measures end a scope, and every other node of the scope of a metric joins its inputs. -/
theorem built_of_ofMetric {catalog : Catalog} {depth : Nat} {name : String}
    {place : Option InputPlace} {before after : Nat} {scope : Scope}
    (ok : ofMetric catalog depth name place before = .ok (scope, after)) : Built scope := by
  induction depth generalizing name place before after scope with
  | zero => exact nomatch ok
  | succ depth ih =>
      obtain ⟨metric, id, measures, metrics, _, rfl, fromMeasures, fromMetrics⟩ := of_ofMetric ok
      refine .inputs _ _ _ rfl fun input member => ?_
      rcases List.mem_append.mp member with member | member
      · obtain ⟨measure, _, start, finish, created⟩ := exists_left_of_forall₂ fromMeasures member
        obtain ⟨_, id, rfl⟩ := of_ofMeasure created
        exact .measure _ _ _
      · obtain ⟨numbered, _, start, finish, created⟩ := exists_left_of_forall₂ fromMetrics member
        exact ih created

/-- A query's scope is the union of the scopes its metrics give. -/
theorem exists_inputs_of_ofQuery {catalog : Catalog} {metrics filters : List String} {scope : Scope}
    (ok : ofQuery catalog metrics filters = .ok scope) :
    ∃ id inputs, scope = node id (.query metrics filters) (union inputs) inputs ∧
      (queryInputs catalog metrics).run 0 = .ok (inputs, id) := by
  obtain ⟨⟨_, after⟩, built, rfl⟩ := map_eq_ok.mp ok
  obtain ⟨inputs, between, created, finished⟩ := run_bind_eq_ok.mp built
  rw [run_create] at finished
  obtain ⟨⟩ := finished
  exact ⟨_, inputs, rfl, created⟩

/-- A query's scope is a query node. -/
theorem kind_of_ofQuery {catalog : Catalog} {metrics filters : List String} {scope : Scope}
    (ok : ofQuery catalog metrics filters = .ok scope) : scope.kind = .query metrics filters := by
  obtain ⟨_, _, rfl, _⟩ := exists_inputs_of_ofQuery ok
  rfl

/-- The scope of a query for metrics stands over the nodes of these metrics. -/
theorem of_ofQuery {catalog : Catalog} {metrics filters : List String} {scope : Scope}
    (some : metrics ≠ []) (ok : ofQuery catalog metrics filters = .ok scope) :
    ∃ id inputs, scope = node id (.query metrics filters) (union inputs) inputs ∧
      List.Forall₂ (fun metric input => ∃ start finish,
        ofMetric catalog catalog.metricDepth metric none start = .ok (input, finish))
        metrics inputs := by
  obtain ⟨id, inputs, rfl, created⟩ := exists_inputs_of_ofQuery ok
  unfold queryInputs at created
  rw [if_neg (by simpa using some)] at created
  exact ⟨id, inputs, rfl, forall₂_of_run_mapM_eq_ok created⟩

/-- The scope of a query without metrics has no measures, and any other one is built from them. -/
theorem built_of_ofQuery {catalog : Catalog} {metrics filters : List String} {scope : Scope}
    (ok : ofQuery catalog metrics filters = .ok scope) {node : Scope}
    (member : node ∈ scope.nodes) (measured : node.leaves ≠ []) : Built node := by
  by_cases none : metrics = []
  · subst none
    obtain ⟨⟩ := ok
    have inner : (Scope.node 0 .noMetrics catalog.elementsWithoutMetrics []).leaves = [] :=
      leaves_inputs rfl
    refine (measured ?_).elim
    rcases mem_nodes.mp member with ⟨input, among, inside⟩ | rfl
    · rw [List.mem_singleton.mp among] at inside
      rcases mem_nodes.mp inside with ⟨_, absent, _⟩ | rfl
      · exact (List.not_mem_nil absent).elim
      · exact inner
    · rw [leaves_inputs rfl, List.flatMap_singleton]
      exact inner
  · obtain ⟨id, inputs, rfl, created⟩ := of_ofQuery none ok
    refine Built.of_mem_nodes (.inputs _ _ _ rfl fun input among => ?_) member
    obtain ⟨metric, _, start, finish, created⟩ := exists_left_of_forall₂ created among
    exact built_of_ofMetric created

/-! ## What every node offers -/

section

variable {catalog : Catalog} {holds : Element → Prop}

/-- What holds of every element below holds of their union too. -/
theorem forall_elements_inputs {id : Nat} {kind : ScopeKind} {inputs : List Scope}
    (each : ∀ input ∈ inputs, ∀ other ∈ input.nodes, ∀ element ∈ other.elements, holds element) :
    ∀ other ∈ (node id kind (union inputs) inputs).nodes,
      ∀ element ∈ other.elements, holds element := by
  intro other member element offered
  rcases mem_nodes.mp member with ⟨input, among, inside⟩ | rfl
  · exact each input among other inside element offered
  · obtain ⟨input, among, offered⟩ := List.mem_flatMap.mp (mem_sortedDistinct.mp offered)
    exact each input among input input.self_mem_nodes element offered

/-- What holds of a leaf's elements holds at every node of the leaf. -/
theorem forall_elements_leaf {id : Nat} {kind : ScopeKind} {elements : List Element}
    (each : ∀ element ∈ elements, holds element) :
    ∀ other ∈ (node id kind elements []).nodes, ∀ element ∈ other.elements, holds element := by
  intro other member
  rw [nodes, nodesOf, List.nil_append, List.mem_singleton] at member
  exact member ▸ each

private theorem forall_elements_of_ofMetric
    (measured : ∀ measure, ∀ element ∈ catalog.elementsOf measure, holds element) {depth : Nat}
    {name : String} {place : Option InputPlace} {before after : Nat} {scope : Scope}
    (ok : ofMetric catalog depth name place before = .ok (scope, after)) :
    ∀ other ∈ scope.nodes, ∀ element ∈ other.elements, holds element := by
  induction depth generalizing name place before after scope with
  | zero => exact nomatch ok
  | succ depth ih =>
      obtain ⟨metric, id, measures, metrics, _, rfl, fromMeasures, fromMetrics⟩ := of_ofMetric ok
      refine forall_elements_inputs fun input member => ?_
      rcases List.mem_append.mp member with member | member
      · obtain ⟨measure, _, start, finish, created⟩ := exists_left_of_forall₂ fromMeasures member
        obtain ⟨_, id, rfl⟩ := of_ofMeasure created
        exact forall_elements_leaf (measured measure.name)
      · obtain ⟨numbered, _, start, finish, created⟩ := exists_left_of_forall₂ fromMetrics member
        exact ih created

/-- What holds of everything that some measure offers and of everything that is listed without
metrics holds of whatever a node of the scope of a query offers. -/
theorem forall_elements_of_ofQuery
    (measured : ∀ measure, ∀ element ∈ catalog.elementsOf measure, holds element)
    (unmeasured : ∀ element ∈ catalog.elementsWithoutMetrics, holds element)
    {metrics filters : List String} {scope : Scope}
    (ok : ofQuery catalog metrics filters = .ok scope) :
    ∀ other ∈ scope.nodes, ∀ element ∈ other.elements, holds element := by
  by_cases none : metrics = []
  · subst none
    obtain ⟨⟩ := ok
    exact forall_elements_inputs (List.forall_mem_singleton.mpr (forall_elements_leaf unmeasured))
  · obtain ⟨id, inputs, rfl, created⟩ := of_ofQuery none ok
    refine forall_elements_inputs fun input among => ?_
    obtain ⟨metric, _, start, finish, created⟩ := exists_left_of_forall₂ created among
    exact forall_elements_of_ofMetric measured created

end

end Scope

end MetricQuery

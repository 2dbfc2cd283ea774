import Mathlib.Data.List.Perm.Basic
import MetricQuery.Proofs.Answering
import MetricQuery.Proofs.Scope.Placing

/-! # Occurrences of metrics

The nodes of the scope of a query stand in the order of their numbers; each but the outermost is an
input once, of a node with a greater number (`Scope.IsArranged`). The nodes of metrics are the
occurrences of metrics on the ways from the metrics of the query through the inputs of metrics, one
node for each way (`Scope.ShowsOccurrences`). As long as no metric is computed from itself, a query
has such a scope unless a metric or a measure does not exist (`Scope.ofQuery_shows`).
-/

namespace MetricQuery

/-- Whether a node is a metric. -/
def ScopeKind.isMetric : ScopeKind → Bool
  | metric _ _ => true
  | _ => false

/-- Whether an error says that a metric or a measure does not exist. -/
def QueryError.isMissing : QueryError → Bool
  | missingMetric _ => true
  | missingMeasure _ _ => true
  | _ => false

namespace Catalog

/-- What stands at the end of a way from a metric, which goes on with the input of a number at each
metric. -/
def occurrence? (catalog : Catalog) (name : String) (place : Option InputPlace) :
    (way : List Nat) → Option ScopeKind
  | [] => some (.metric name place)
  | index :: way =>
    match (catalog.metric? name).bind (·.inputMetrics[index]?) with
    | none => none
    | some input => catalog.occurrence? input.name (some ⟨name, index⟩) way

/-- What stands at the end of a way that begins with the number of a metric of a query. -/
def occurrenceIn? (catalog : Catalog) (metrics : List String) : (way : List Nat) → Option ScopeKind
  | [] => none
  | index :: way => (metrics[index]?).bind fun name => catalog.occurrence? name none way

end Catalog

namespace Scope

/-- The inputs of a node that are metrics. -/
def metricInputs (scope : Scope) : List Scope := scope.inputs.filter (·.kind.isMetric)

/-- The node at the end of a way, which goes on with the input metric of a number at each node. -/
def metricAt? (scope : Scope) : (way : List Nat) → Option Scope
  | [] => some scope
  | index :: way => (scope.metricInputs[index]?).bind (·.metricAt? way)

/-- Whether the nodes of a scope are in the order of their numbers, and each but the outermost is an
input of a single node further out. -/
structure IsArranged (scope : Scope) : Prop where
  ids : scope.nodes.map id = List.range scope.nodes.length
  inputs : ∀ node ∈ scope.nodes, ∀ input ∈ node.inputs,
    input.id < node.id ∧ scope.nodes[input.id]? = some input
  outermost : scope.nodes.getLast? = some scope
  once : ∀ number < scope.id, (scope.nodes.flatMap fun node => node.inputs.map id).count number = 1
  connected : ∀ node ∈ scope.nodes,
    Relation.ReflTransGen (fun inner outer => outer ∈ scope.nodes ∧ inner ∈ outer.inputs) node scope

/-- Whether a node stands for an input of the metric of another one: it is the input metric of this
number there, and the input at its place is the one of its metric. -/
inductive StandsIn (catalog : Catalog) (outer : Scope) : (node : Scope) → Prop where
  | intro {node : Scope} {consumer : String} {place : Option InputPlace} {index : Nat}
      {input : InputMetric} (outside : outer.kind = .metric consumer place)
      (inside : node.kind = .metric input.name (some ⟨consumer, index⟩))
      (listed : (InputPlace.mk consumer index).input? catalog = some input)
      (at_index : outer.metricInputs[index]? = some node) : StandsIn catalog outer node

/-- Whether the nodes of metrics are the occurrences of metrics on the ways from the metrics of a
query, one for each way, and say where they stand. -/
structure ShowsOccurrences (catalog : Catalog) (metrics : List String) (scope : Scope) : Prop where
  shown : ∀ way, way ≠ [] → (scope.metricAt? way).map kind = catalog.occurrenceIn? metrics way
  inside : ∀ way node, scope.metricAt? way = some node → node ∈ scope.nodes
  single : ∀ node ∈ scope.nodes, node.kind.isMetric = true → ∃! way, scope.metricAt? way = some node
  placed : ∀ node ∈ scope.nodes, node.kind.isMetric = true →
    (node ∈ scope.inputs ∧ ∃ name ∈ metrics, node.kind = .metric name none) ∨
      ∃ outer ∈ scope.nodes, StandsIn catalog outer node

/-! ## Arrangement -/

namespace Ended

variable {scope node : Scope}

private theorem sublist_of_mem_nodes (ended : Ended scope) (member : node ∈ scope.nodes) :
    node.nodes.Sublist scope.nodes := by
  induction ended with
  | leaf id kind elements last =>
      rw [nodes, nodesOf, List.nil_append, List.mem_singleton] at member
      exact member ▸ List.Sublist.refl _
  | inputs id kind elements inputs other each ih =>
      rcases mem_nodes.mp member with ⟨input, among, inside⟩ | rfl
      · rw [nodes, nodesOf_eq_flatMap]
        refine ((ih input among inside).trans ?_).trans (List.sublist_append_left _ _)
        rw [← List.flatMap_singleton nodes input]
        exact (List.singleton_sublist.mpr among).flatMap nodes
      · exact List.Sublist.refl _

/-- Each node but the outermost is an input as often as it is a node. -/
theorem nodes_perm (ended : Ended scope) :
    (scope :: scope.nodes.flatMap Scope.inputs).Perm scope.nodes := by
  induction ended with
  | leaf id kind elements last => exact List.Perm.refl _
  | inputs id kind elements inputs other each ih =>
      have below : (inputs ++ inputs.flatMap fun input => input.nodes.flatMap Scope.inputs).Perm
          (inputs.flatMap nodes) := by
        refine List.Perm.trans ?_ (List.Perm.flatMap_left inputs ih)
        have split := List.flatMap_append_perm inputs (fun input => [input])
          fun input => input.nodes.flatMap Scope.inputs
        rwa [List.flatMap_singleton'] at split
      rw [nodes, nodesOf_eq_flatMap, List.flatMap_append, List.flatMap_assoc,
        List.flatMap_singleton]
      refine List.Perm.trans ?_ (List.perm_append_singleton _ _).symm
      exact (List.perm_append_comm.trans below).cons _

/-- From every node the inputs lead up to the scope. -/
theorem connected (ended : Ended scope) (member : node ∈ scope.nodes) :
    Relation.ReflTransGen (fun inner outer => outer ∈ scope.nodes ∧ inner ∈ outer.inputs)
      node scope := by
  induction ended with
  | leaf id kind elements last =>
      rw [nodes, nodesOf, List.nil_append, List.mem_singleton] at member
      exact member ▸ .refl
  | inputs id kind elements inputs other each ih =>
      rcases mem_nodes.mp member with ⟨input, among, inside⟩ | rfl
      · refine .tail (Relation.ReflTransGen.mono ?_ _ _ (ih input among inside))
          ⟨self_mem_nodes _, among⟩
        intro _ outer further
        exact ⟨mem_nodes.mpr (.inl ⟨input, among, further.1⟩), further.2⟩
      · exact .refl

private theorem inputs_mem_nodes (ended : Ended scope) (member : node ∈ scope.nodes) {input : Scope}
    (among : input ∈ node.inputs) : input ∈ scope.nodes := by
  refine (ended.of_mem_nodes member).2 input ?_
  cases node
  exact mem_nodes.mpr (.inl ⟨input, among, input.self_mem_nodes⟩)

end Ended

section

variable {catalog : Catalog} {metrics filters : List String} {scope : Scope}

private theorem isArranged_of_ofQuery (ok : ofQuery catalog metrics filters = .ok scope) :
    scope.IsArranged := by
  have ended := ended_of_ofQuery ok
  have ids := ids_of_ofQuery ok
  have increasing : scope.nodes.Pairwise fun inner outer => inner.id < outer.id := by
    rw [← List.pairwise_map, ids]
    exact List.pairwise_lt_range
  have bounded : ∀ node ∈ scope.nodes, node.id < scope.nodes.length := fun node member =>
    List.mem_range.mp (ids ▸ List.mem_map_of_mem member)
  refine ⟨ids, fun node member input among => ⟨?_, ?_⟩, ?_, fun number below => ?_, ?_⟩
  · have within := increasing.sublist (ended.sublist_of_mem_nodes member)
    cases node with
    | node number kind elements inputs =>
        rw [nodes, nodesOf_eq_flatMap, List.pairwise_append] at within
        have inside := List.mem_flatMap.mpr ⟨input, among, input.self_mem_nodes⟩
        exact within.2.2 input inside _ (List.mem_singleton_self _)
  · obtain ⟨index, at_index⟩ :=
      List.mem_iff_getElem?.mp (ended.inputs_mem_nodes member among)
    have number := congrArg (·[index]?) ids
    simp only [List.getElem?_map, at_index, Option.map_some] at number
    obtain ⟨_, same⟩ := List.getElem?_eq_some_iff.mp number.symm
    rwa [← same, List.getElem_range]
  · cases scope
    rw [nodes, List.getLast?_concat]
  · have all := ended.nodes_perm.map Scope.id
    rw [ids, List.map_cons, List.map_flatMap] at all
    have known : number ∈ List.range scope.nodes.length :=
      List.mem_range.mpr (below.trans (bounded scope scope.self_mem_nodes))
    have count := all.count_eq number
    rwa [List.count_cons_of_ne below.ne', List.count_eq_one_of_mem List.nodup_range known] at count
  · exact fun node => ended.connected

end

/-! ## Ways -/

/-- A node is the scope itself or inside one of its inputs. -/
theorem mem_nodes_iff {scope other : Scope} :
    other ∈ scope.nodes ↔ (∃ input ∈ scope.inputs, other ∈ input.nodes) ∨ other = scope := by
  cases scope
  exact mem_nodes

/-- The metric at the end of a way is a node of the scope. -/
theorem mem_nodes_of_metricAt? {scope node : Scope} {way : List Nat}
    (found : scope.metricAt? way = some node) : node ∈ scope.nodes := by
  induction way generalizing scope with
  | nil => exact Option.some.inj found ▸ scope.self_mem_nodes
  | cons index way ih =>
      obtain ⟨input, listed, found⟩ := Option.bind_eq_some_iff.mp found
      have among := (List.mem_filter.mp (List.mem_of_getElem? listed)).1
      exact mem_nodes_iff.mpr (.inl ⟨input, among, ih found⟩)

/-- A node with different nodes below it is not at the end of a way further in. -/
theorem metricAt?_cons_ne_self {scope : Scope} (distinct : scope.nodes.Nodup) (index : Nat)
    (way : List Nat) : scope.metricAt? (index :: way) ≠ some scope := by
  intro found
  obtain ⟨input, listed, found⟩ := Option.bind_eq_some_iff.mp found
  have among := (List.mem_filter.mp (List.mem_of_getElem? listed)).1
  have inside := mem_nodes_of_metricAt? found
  cases scope with
  | node id kind elements inputs =>
      rw [nodes, nodesOf_eq_flatMap, List.nodup_append] at distinct
      have below := List.mem_flatMap.mpr ⟨input, among, inside⟩
      exact distinct.2.2 _ below _ (List.mem_singleton_self _) rfl

/-- Only one way leads to a node. -/
theorem eq_of_metricAt?_eq {scope node : Scope} (distinct : scope.nodes.Nodup)
    {left right : List Nat} (first : scope.metricAt? left = some node)
    (second : scope.metricAt? right = some node) : left = right := by
  induction left generalizing scope right with
  | nil =>
      obtain ⟨⟩ := first
      cases right with
      | nil => rfl
      | cons index way => exact (metricAt?_cons_ne_self distinct index way second).elim
  | cons index way ih =>
      cases right with
      | nil =>
          obtain ⟨⟩ := second
          exact (metricAt?_cons_ne_self distinct index way first).elim
      | cons other further =>
          obtain ⟨input, listed, first⟩ := Option.bind_eq_some_iff.mp first
          obtain ⟨input', listed', second⟩ := Option.bind_eq_some_iff.mp second
          have apart : (scope.metricInputs.flatMap nodes).Nodup := by
            cases scope with
            | node id kind elements inputs =>
                rw [nodes, nodesOf_eq_flatMap, List.nodup_append] at distinct
                exact distinct.1.sublist (List.filter_sublist.flatMap nodes)
          obtain ⟨each, disjoint⟩ := List.nodup_flatMap.mp apart
          have inside := mem_nodes_of_metricAt? first
          have inside' := mem_nodes_of_metricAt? second
          obtain ⟨bound, rfl⟩ := List.getElem?_eq_some_iff.mp listed
          obtain ⟨bound', rfl⟩ := List.getElem?_eq_some_iff.mp listed'
          rw [List.pairwise_iff_getElem] at disjoint
          rcases Nat.lt_trichotomy index other with less | rfl | more
          · exact (disjoint _ _ bound bound' less inside inside').elim
          · rw [ih (each _ (List.getElem_mem bound)) first second]
          · exact (disjoint _ _ bound' bound more inside' inside).elim

/-! ## Nodes of metrics -/

/-- Related lists are related at every index, and end together. -/
theorem rel_getElem?_of_forall₂ {α β : Type} {related : α → β → Prop} {members : List α}
    {results : List β} (alike : List.Forall₂ related members results) (index : Nat) :
    Option.Rel related members[index]? results[index]? := by
  induction alike generalizing index with
  | nil => exact .none
  | cons first _ ih =>
      cases index with
      | zero => exact .some first
      | succ index => exact ih index

variable {catalog : Catalog} {depth : Nat} {name : String} {place : Option InputPlace}
  {before after : Nat} {scope node : Scope}

/-- The input metrics of the node of a metric are the nodes of its inputs. -/
theorem exists_metricInputs_of_ofMetric
    (ok : ofMetric catalog (depth + 1) name place before = .ok (scope, after)) :
    ∃ metric measures, catalog.metric? name = some metric ∧ scope.kind = .metric name place ∧
      scope.inputs = measures ++ scope.metricInputs ∧
      (∀ measure ∈ measures, ∀ node ∈ measure.nodes, node.kind.isMetric = false) ∧
      List.Forall₂ (fun (numbered : InputMetric × Nat) below => ∃ start finish,
        ofMetric catalog depth numbered.1.name (some ⟨name, numbered.2⟩) start =
          .ok (below, finish)) metric.inputMetrics.zipIdx scope.metricInputs := by
  obtain ⟨metric, id, measures, metrics, found, rfl, fromMeasures, fromMetrics⟩ := of_ofMetric ok
  have leaves : ∀ measure ∈ measures, ∀ node ∈ measure.nodes, node.kind.isMetric = false := by
    intro measure among node inside
    obtain ⟨_, _, _, _, created⟩ := exists_left_of_forall₂ fromMeasures among
    obtain ⟨_, number, rfl⟩ := of_ofMeasure created
    rw [nodes, nodesOf, List.nil_append, List.mem_singleton] at inside
    exact inside ▸ rfl
  have inputs : ∀ input ∈ metrics, input.kind.isMetric = true := by
    intro input among
    obtain ⟨_, _, _, _, created⟩ := exists_left_of_forall₂ fromMetrics among
    rw [(Dataflow.exists_metric_of_ofMetric created).1]
    rfl
  have kept : metricInputs (Scope.node id (.metric name place) (union (measures ++ metrics))
      (measures ++ metrics)) = metrics := by
    have none : measures.filter (·.kind.isMetric) = [] :=
      List.filter_eq_nil_iff.mpr fun measure among isMetric =>
        absurd isMetric (by simp [leaves measure among measure measure.self_mem_nodes])
    rw [metricInputs, Scope.inputs, List.filter_append, none, List.nil_append,
      List.filter_eq_self.mpr inputs]
  exact ⟨metric, measures, found, rfl, by rw [kept]; rfl, leaves, kept.symm ▸ fromMetrics⟩

/-- The node of a metric in the scope of another one is this one, or it lies in the scope of an
input. -/
theorem of_isMetric_of_mem_nodes
    (ok : ofMetric catalog (depth + 1) name place before = .ok (scope, after))
    (member : node ∈ scope.nodes) (isMetric : node.kind.isMetric = true) :
    node = scope ∨ ∃ input index below start finish,
      (InputPlace.mk name index).input? catalog = some input ∧
      scope.metricInputs[index]? = some below ∧
      ofMetric catalog depth input.name (some ⟨name, index⟩) start = .ok (below, finish) ∧
      node ∈ below.nodes := by
  obtain ⟨metric, measures, found, kind, inputs, leaves, fromMetrics⟩ :=
    exists_metricInputs_of_ofMetric ok
  rcases mem_nodes_iff.mp member with ⟨below, among, inside⟩ | rfl
  · rw [inputs] at among
    rcases List.mem_append.mp among with isMeasure | among
    · rw [leaves below isMeasure node inside] at isMetric
      exact nomatch isMetric
    · obtain ⟨index, listed⟩ := List.mem_iff_getElem?.mp among
      have alike := rel_getElem?_of_forall₂ fromMetrics index
      rw [listed, List.getElem?_zipIdx] at alike
      cases input : metric.inputMetrics[index]? with
      | none =>
          rw [input] at alike
          cases alike
      | some fed =>
          rw [input, Option.map_some] at alike
          obtain ⟨⟨start, finish, created⟩⟩ := alike
          rw [Nat.zero_add] at created
          refine .inr ⟨fed, index, below, start, finish, ?_, listed, created, inside⟩
          simp only [InputPlace.input?, found, input]
  · exact .inl rfl

/-- On each way from the node of a metric stands the metric that the way leads to. -/
theorem map_kind_metricAt? (ok : ofMetric catalog depth name place before = .ok (scope, after))
    (way : List Nat) :
    (scope.metricAt? way).map kind = catalog.occurrence? name place way := by
  induction way generalizing depth name place before after scope with
  | nil =>
      rw [metricAt?, Catalog.occurrence?, Option.map_some,
        (Dataflow.exists_metric_of_ofMetric ok).1]
  | cons index way ih =>
      cases depth with
      | zero => exact nomatch ok
      | succ depth =>
          obtain ⟨metric, _, found, _, _, _, fromMetrics⟩ := exists_metricInputs_of_ofMetric ok
          have alike := rel_getElem?_of_forall₂ fromMetrics index
          rw [List.getElem?_zipIdx] at alike
          rw [metricAt?, Catalog.occurrence?, found, Option.bind_some]
          cases input : metric.inputMetrics[index]? with
          | none =>
              rw [input] at alike
              cases listed : scope.metricInputs[index]? with
              | none => rfl
              | some below =>
                  rw [listed] at alike
                  cases alike
          | some fed =>
              rw [input] at alike
              cases listed : scope.metricInputs[index]? with
              | none =>
                  rw [listed] at alike
                  cases alike
              | some below =>
                  rw [listed] at alike
                  obtain ⟨⟨start, finish, created⟩⟩ := alike
                  rw [Nat.zero_add] at created
                  exact ih created

/-- Each node of a metric is at the end of a way. -/
theorem exists_metricAt? (ok : ofMetric catalog depth name place before = .ok (scope, after))
    (member : node ∈ scope.nodes) (isMetric : node.kind.isMetric = true) :
    ∃ way, scope.metricAt? way = some node := by
  induction depth generalizing name place before after scope with
  | zero => exact nomatch ok
  | succ depth ih =>
      rcases of_isMetric_of_mem_nodes ok member isMetric with
        rfl | ⟨_, index, _, _, _, _, listed, created, inside⟩
      · exact ⟨[], rfl⟩
      · obtain ⟨way, found⟩ := ih created inside
        exact ⟨index :: way, Option.bind_eq_some_iff.mpr ⟨_, listed, found⟩⟩

/-- Each node of a metric below another one stands for an input. -/
theorem exists_standsIn (ok : ofMetric catalog depth name place before = .ok (scope, after))
    (member : node ∈ scope.nodes) (isMetric : node.kind.isMetric = true) :
    node = scope ∨ ∃ outer ∈ scope.nodes, StandsIn catalog outer node := by
  induction depth generalizing name place before after scope with
  | zero => exact nomatch ok
  | succ depth ih =>
      rcases of_isMetric_of_mem_nodes ok member isMetric with
        rfl | ⟨_, _, below, _, _, input, listed, created, inside⟩
      · exact .inl rfl
      · have among := (List.mem_filter.mp (List.mem_of_getElem? listed)).1
        rcases ih created inside with rfl | ⟨outer, within, stands⟩
        · exact .inr ⟨scope, scope.self_mem_nodes, .intro (Dataflow.exists_metric_of_ofMetric ok).1
            (Dataflow.exists_metric_of_ofMetric created).1 input listed⟩
        · exact .inr ⟨outer, mem_nodes_iff.mpr (.inl ⟨below, among, within⟩), stands⟩

/-! ## Scopes of queries -/

variable {metrics filters : List String}

/-- The nodes of metrics in the scope of a query lie in the scopes of its metrics. -/
theorem exists_metricInputs_of_ofQuery (ok : ofQuery catalog metrics filters = .ok scope) :
    List.Forall₂ (fun metric input => ∃ start finish,
        ofMetric catalog catalog.metricDepth metric none start = .ok (input, finish))
      metrics scope.metricInputs ∧
    ∀ node ∈ scope.nodes, node.kind.isMetric = true →
      ∃ input ∈ scope.metricInputs, node ∈ input.nodes := by
  by_cases none : metrics = []
  · subst none
    obtain ⟨⟩ := ok
    refine ⟨.nil, fun node member isMetric => ?_⟩
    rcases mem_nodes.mp member with ⟨input, among, inside⟩ | rfl
    · rw [List.mem_singleton.mp among, nodes, nodesOf, List.nil_append,
        List.mem_singleton] at inside
      rw [inside] at isMetric
      exact nomatch isMetric
    · exact nomatch isMetric
  · obtain ⟨id, inputs, rfl, created⟩ := of_ofQuery none ok
    have kept : metricInputs (Scope.node id (.query metrics filters) (union inputs) inputs) =
        inputs := by
      refine List.filter_eq_self.mpr fun input among => ?_
      obtain ⟨_, _, _, _, created⟩ := exists_left_of_forall₂ created among
      rw [(Dataflow.exists_metric_of_ofMetric created).1]
      rfl
    refine ⟨kept.symm ▸ created, fun node member isMetric => ?_⟩
    rcases mem_nodes.mp member with inside | rfl
    · exact kept.symm ▸ inside
    · exact nomatch isMetric

private theorem showsOccurrences_of_ofQuery (ok : ofQuery catalog metrics filters = .ok scope) :
    scope.ShowsOccurrences catalog metrics := by
  obtain ⟨fromMetrics, within⟩ := exists_metricInputs_of_ofQuery ok
  have distinct : scope.nodes.Nodup := (nodup_ids ok).of_map
  refine ⟨fun way some => ?_, fun way node => mem_nodes_of_metricAt?, ?_, ?_⟩
  · obtain ⟨index, way, rfl⟩ := List.exists_cons_of_ne_nil some
    have alike := rel_getElem?_of_forall₂ fromMetrics index
    rw [metricAt?, Catalog.occurrenceIn?]
    cases asked : metrics[index]? with
    | none =>
        rw [asked] at alike
        cases listed : scope.metricInputs[index]? with
        | none => rfl
        | some input =>
            rw [listed] at alike
            cases alike
    | some metric =>
        rw [asked] at alike
        cases listed : scope.metricInputs[index]? with
        | none =>
            rw [listed] at alike
            cases alike
        | some input =>
            rw [listed] at alike
            obtain ⟨⟨start, finish, created⟩⟩ := alike
            exact map_kind_metricAt? created way
  · intro node member isMetric
    obtain ⟨input, among, inside⟩ := within node member isMetric
    obtain ⟨index, listed⟩ := List.mem_iff_getElem?.mp among
    obtain ⟨_, _, _, _, created⟩ := exists_left_of_forall₂ fromMetrics among
    obtain ⟨way, found⟩ := exists_metricAt? created inside isMetric
    have leads : scope.metricAt? (index :: way) = some node :=
      Option.bind_eq_some_iff.mpr ⟨input, listed, found⟩
    exact ⟨index :: way, leads, fun other also => eq_of_metricAt?_eq distinct also leads⟩
  · intro node member isMetric
    obtain ⟨input, among, inside⟩ := within node member isMetric
    obtain ⟨metric, asked, _, _, created⟩ := exists_left_of_forall₂ fromMetrics among
    have among := (List.mem_filter.mp among).1
    rcases exists_standsIn created inside isMetric with rfl | ⟨outer, further, stands⟩
    · exact .inl ⟨among, metric, asked, (Dataflow.exists_metric_of_ofMetric created).1⟩
    · exact .inr ⟨outer, mem_nodes_iff.mpr (.inl ⟨input, among, further⟩), stands⟩

/-! ## Failures -/

private theorem isMissing_of_ofMeasure {metric measure : String} {error : QueryError}
    (failed : ofMeasure catalog metric measure before = .error error) :
    error.isMissing = true := by
  unfold ofMeasure at failed
  split at failed
  · obtain ⟨⟩ := failed
    rfl
  · exact nomatch failed

section

variable (acyclic : ∀ name, ¬ Relation.TransGen catalog.ComputesFrom name name)

include acyclic

/-- A metric that is reached through `outer` fails to have a scope only if something is missing,
since on the way there no metric is met twice. -/
theorem isMissing_of_ofMetric {outer : List String} (distinct : outer.Nodup)
    (known : outer ⊆ catalog.manifest.metrics.map Metric.name)
    (behind : ∀ other ∈ outer, Relation.TransGen catalog.ComputesFrom other name)
    (enough : catalog.manifest.metrics.length < outer.length + depth) {error : QueryError}
    (failed : ofMetric catalog depth name place before = .error error) :
    error.isMissing = true := by
  induction depth generalizing name place outer before with
  | zero =>
      have bound := (List.subperm_of_subset distinct known).length_le
      rw [List.length_map] at bound
      omega
  | succ depth ih =>
      unfold ofMetric at failed
      cases found : catalog.metric? name with
      | none =>
          simp only [found] at failed
          obtain ⟨⟩ := failed
          rfl
      | some metric =>
          obtain ⟨among, named⟩ := Catalog.of_metric? found
          have fresh : name ∉ outer := fun met => acyclic name (behind name met)
          simp only [found, run_bind_eq_error] at failed
          rcases failed with measure | ⟨_, _, _, metrics | ⟨_, _, _, absent⟩⟩
          · obtain ⟨_, _, _, failed⟩ := exists_of_run_mapM_eq_error measure
            exact isMissing_of_ofMeasure failed
          · obtain ⟨⟨input, index⟩, numbered, _, failed⟩ := exists_of_run_mapM_eq_error metrics
            have inside : input ∈ metric.inputMetrics := List.fst_mem_of_mem_zipIdx numbered
            have computes : catalog.ComputesFrom name input.name :=
              ⟨metric, found, input, inside, rfl⟩
            refine ih (List.nodup_cons.mpr ⟨fresh, distinct⟩)
              (List.cons_subset.mpr ⟨named ▸ List.mem_map_of_mem among, known⟩) ?_ ?_ failed
            · exact List.forall_mem_cons.mpr
                ⟨.single computes, fun other met => (behind other met).tail computes⟩
            · rw [List.length_cons]
              omega
          · cases absent

private theorem isMissing_of_ofQuery {error : QueryError}
    (failed : ofQuery catalog metrics filters = .error error) : error.isMissing = true := by
  have ran : ofQuery catalog metrics filters
      = (buildQuery catalog metrics filters 0).map Prod.fst := rfl
  have built : buildQuery catalog metrics filters 0 = .error error := by
    rw [ran] at failed
    cases built : buildQuery catalog metrics filters 0 with
    | error other =>
        rw [built] at failed
        exact congrArg Except.error (Except.error.inj failed)
    | ok _ =>
        rw [built] at failed
        exact nomatch failed
  rcases run_bind_eq_error.mp built with failed | ⟨_, _, _, absent⟩
  · unfold queryInputs at failed
    split at failed
    · exact nomatch failed
    · obtain ⟨metric, _, start, failed⟩ := exists_of_run_mapM_eq_error failed
      have deep := catalog.lt_metricDepth
      refine isMissing_of_ofMetric acyclic List.nodup_nil (List.nil_subset _) nofun ?_ failed
      rw [List.length_nil]
      omega
  · exact nomatch absent

/-- If no metric is computed from itself, then a query has a scope unless a metric or a measure is
missing. Its nodes are arranged by their numbers, and those of metrics are the occurrences of
metrics, one for each way from a metric of the query through inputs. -/
theorem ofQuery_shows (metrics filters : List String) :
    (∀ error, ofQuery catalog metrics filters = .error error → error.isMissing = true) ∧
    ∀ scope, ofQuery catalog metrics filters = .ok scope →
      scope.IsArranged ∧ scope.ShowsOccurrences catalog metrics :=
  ⟨fun _ => isMissing_of_ofQuery acyclic,
    fun _ ok => ⟨isArranged_of_ofQuery ok, showsOccurrences_of_ofQuery ok⟩⟩

end

/-- The shop shows the traffic as an input of the yield behind a metric asked for before it. -/
theorem ofQuery_shows_yield :
    (∀ name, ¬ Relation.TransGen Request.shopCatalog.ComputesFrom name name) ∧
    ∃ scope, ofQuery Request.shopCatalog ["traffic", "yield"] [] = .ok scope ∧
      scope.IsArranged ∧ scope.ShowsOccurrences Request.shopCatalog ["traffic", "yield"] ∧
      (scope.metricAt? [1, 1]).map kind = some (.metric "traffic" (some ⟨"yield", 1⟩)) := by
  have acyclic := Request.isGrounded_shopCatalog.acyclic
  have known : ∀ metric ∈ ["traffic", "yield"],
      (Request.shopCatalog.metric? metric).isSome = true := by decide +kernel
  obtain ⟨scope, built⟩ := exists_ofQuery Request.isGrounded_shopCatalog known []
  obtain ⟨arranged, shows⟩ := (ofQuery_shows acyclic ["traffic", "yield"] []).2 scope built
  refine ⟨acyclic, scope, built, arranged, shows, ?_⟩
  rw [shows.shown _ (List.cons_ne_nil _ _)]
  decide +kernel

end Scope

end MetricQuery

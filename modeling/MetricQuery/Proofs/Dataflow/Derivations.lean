import Mathlib.Data.List.Sigma
import MetricQuery.Proofs.Dataflow.Planning

/-! # Derivations of metrics

A metric is computed from its measure, or from other metrics that are computed in the same way. The
ways from a metric down to a measure, in the order of inputs, are its derivations; each has the
filters that are declared along it, and the windows by which time is shifted on it.
-/

namespace MetricQuery

/-- A way from a metric down to a measure, with the place of each input on it. -/
inductive Derivation where
  | own (metric : Metric) (input : InputMeasure)
  | through (metric : Metric) (input : InputMetric) (index : Nat) (rest : Derivation)

namespace Derivation

/-- The name of the measure at the end. -/
def measure : Derivation → String
  | own _ input => input.name
  | through _ _ _ rest => rest.measure

/-- Filters with the location at which they are declared. -/
def located (location : FilterLocation) (filter : Option (List String)) :
    List (FilterLocation × String) := (filter.getD []).map (location, ·)

/-- The filters on the way: those of each metric, then those of its consumer on the next metric, and
in the end those of the input measure. -/
def filters : Derivation → List (FilterLocation × String)
  | own metric input =>
    located (.metric metric.name) metric.filter ++ located (.metric metric.name) input.filter
  | through metric input _ rest =>
    located (.metric metric.name) metric.filter ++
      (located (.inputMetric input.name) input.filter ++ rest.filters)

/-- The windows by which consumers shift the metrics on the way, the outermost first. -/
def offsets : Derivation → List OffsetWindow
  | own _ _ => []
  | through _ input _ rest => input.offset.toList ++ rest.offsets

/-- A window on a metric further in goes before one of its consumer. -/
theorem last_offsets_through (metric : Metric) (input : InputMetric) (index : Nat)
    (rest : Derivation) (shift : Option OffsetWindow) :
    (through metric input index rest).offsets.getLast?.or shift =
      rest.offsets.getLast?.or (input.offset.or shift) := by
  rw [offsets, List.getLast?_append, Option.or_assoc]
  cases input.offset <;> rfl

end Derivation

namespace Catalog

variable {catalog : Catalog} {name : String} {metric : Metric} {derivation : Derivation}

/-- Whether a metric is computed along some way. -/
inductive Derives (catalog : Catalog) : (name : String) → Derivation → Prop where
  | own {name : String} {metric : Metric} {input : InputMeasure}
      (found : catalog.metric? name = some metric) (among : input ∈ metric.inputMeasures) :
      Derives catalog name (.own metric input)
  | through {name : String} {metric : Metric} {input : InputMetric} {index : Nat}
      {rest : Derivation} (found : catalog.metric? name = some metric)
      (listed : metric.inputMetrics[index]? = some input)
      (derives : Derives catalog input.name rest) :
      Derives catalog name (.through metric input index rest)

/-- The ways along which a metric is computed, at most some number of metrics long. -/
def derivations (catalog : Catalog) : (depth : Nat) → (name : String) → List Derivation
  | 0, _ => []
  | depth + 1, name =>
    match catalog.metric? name with
    | none => []
    | some metric =>
      metric.inputMeasures.map (.own metric) ++
        metric.inputMetrics.zipIdx.flatMap fun numbered =>
          (catalog.derivations depth numbered.1.name).map
            (.through metric numbered.1 numbered.2)

/-- The derivations of a metric begin with its own measures and go on through its inputs. -/
theorem derivations_succ (found : catalog.metric? name = some metric) (depth : Nat) :
    catalog.derivations (depth + 1) name = metric.inputMeasures.map (.own metric) ++
      metric.inputMetrics.zipIdx.flatMap fun numbered =>
        (catalog.derivations depth numbered.1.name).map
          (.through metric numbered.1 numbered.2) := by
  rw [derivations, found]

/-- Every listed derivation is one of the metric. -/
theorem derives_of_mem_derivations {depth : Nat}
    (member : derivation ∈ catalog.derivations depth name) :
    catalog.Derives name derivation := by
  induction depth generalizing name derivation with
  | zero => exact nomatch member
  | succ depth ih =>
      cases found : catalog.metric? name with
      | none =>
          rw [derivations, found] at member
          exact nomatch member
      | some metric =>
          rw [derivations_succ found] at member
          rcases List.mem_append.mp member with own | further
          · obtain ⟨input, among, rfl⟩ := List.mem_map.mp own
            exact .own found among
          · obtain ⟨⟨input, index⟩, listed, inner⟩ := List.mem_flatMap.mp further
            obtain ⟨rest, later, rfl⟩ := List.mem_map.mp inner
            exact .through found (List.mk_mem_zipIdx_iff_getElem?.mp listed) (ih later)

/-- No derivation is listed twice. -/
theorem nodup_derivations (depth : Nat) (name : String) :
    (catalog.derivations depth name).Nodup := by
  induction depth generalizing name with
  | zero => exact List.nodup_nil
  | succ depth ih =>
      cases found : catalog.metric? name with
      | none =>
          rw [derivations, found]
          exact List.nodup_nil
      | some metric =>
          have measures : metric.inputMeasures.Nodup := by
            cases inputs : metric.inputMeasures with
            | nil => exact List.nodup_nil
            | cons input rest =>
                have single := Dataflow.inputMeasures_eq_singleton
                  (inputs ▸ List.mem_cons_self : input ∈ metric.inputMeasures)
                rw [← inputs, single]
                exact List.nodup_singleton input
          rw [derivations_succ found]
          refine List.nodup_append.mpr ⟨measures.map fun _ _ same => ?_, ?_, ?_⟩
          · injection same
          · refine List.nodup_flatMap.mpr ⟨fun numbered _ => (ih _).map fun _ _ same => ?_, ?_⟩
            · injection same
            · have places := List.pairwise_map.mp (List.nodup_zipIdx_map_snd metric.inputMetrics)
              refine places.imp fun {first second} different derivation left right => ?_
              obtain ⟨_, _, rfl⟩ := List.mem_map.mp left
              obtain ⟨_, _, same⟩ := List.mem_map.mp right
              injection same with _ _ index _
              exact different index.symm
          · intro first own second further same
            obtain ⟨_, _, rfl⟩ := List.mem_map.mp own
            obtain ⟨_, _, inner⟩ := List.mem_flatMap.mp further
            obtain ⟨_, _, rfl⟩ := List.mem_map.mp inner
            exact nomatch same

end Catalog

/-! ## Filters on derivations -/

namespace Derivation

variable {location : FilterLocation} {filter : Option (List String)} {template : String}

/-- A declared filter is located with the others of its place. -/
theorem mem_located (declared : template ∈ filter.getD []) :
    (location, template) ∈ located location filter := List.mem_map_of_mem declared

end Derivation

namespace Catalog

variable {catalog : Catalog} {name : String} {metric : Metric} {derivation : Derivation}

/-- The filters of a metric are on each of its derivations. -/
theorem Derives.mem_filters (derives : catalog.Derives name derivation)
    (found : catalog.metric? name = some metric) {template : String}
    (declared : template ∈ metric.filter.getD []) :
    (.metric name, template) ∈ derivation.filters := by
  obtain ⟨_, rfl⟩ := of_metric? found
  cases derives with
  | own same among =>
      obtain ⟨⟩ := found.symm.trans same
      exact List.mem_append_left _ (Derivation.mem_located declared)
  | through same listed derives =>
      obtain ⟨⟩ := found.symm.trans same
      exact List.mem_append_left _ (Derivation.mem_located declared)

/-- The measure at the end of a derivation is one that the metric is computed from. -/
theorem Derives.feeds (derives : catalog.Derives name derivation) :
    catalog.Feeds derivation.measure name := by
  induction derives with
  | own found among => exact .own found among rfl
  | through found listed _ ih => exact .input found (List.mem_of_getElem? listed) ih

/-- The filters on a derivation are about metrics that its measure is aggregated for. -/
theorem Derives.exists_feeds (derives : catalog.Derives name derivation)
    {location : FilterLocation} {template : String}
    (on : (location, template) ∈ derivation.filters) :
    ∃ metric ∈ location.metrics, catalog.Feeds derivation.measure metric := by
  have here : ∀ {location' : FilterLocation} {filter : Option (List String)},
      (location, template) ∈ Derivation.located location' filter → location = location' := by
    intro location' filter member
    obtain ⟨_, _, same⟩ := List.mem_map.mp member
    exact (congrArg Prod.fst same).symm
  induction derives with
  | @own name metric input found among =>
      have same : location = .metric metric.name := by
        rcases List.mem_append.mp on with own | ofInput
        · exact here own
        · exact here ofInput
      rw [same, (of_metric? found).2]
      exact ⟨_, List.mem_cons_self, .own found among rfl⟩
  | @through name metric input _ rest found listed derives ih =>
      rcases List.mem_append.mp on with own | further
      · rw [here own, (of_metric? found).2]
        exact ⟨_, List.mem_cons_self, (Derives.through found listed derives).feeds⟩
      · rcases List.mem_append.mp further with ofConsumer | later
        · rw [here ofConsumer]
          exact ⟨_, List.mem_cons_self, derives.feeds⟩
        · exact ih later

end Catalog

namespace Scope

variable {catalog : Catalog} {depth : Nat} {name : String} {place : Option InputPlace}
  {before after : Nat} {scope : Scope}

/-- Each metric of a scope has a derivation. -/
theorem exists_derivation_of_ofMetric
    (complete : ∀ metric ∈ catalog.manifest.metrics, metric.isComplete = true)
    (ok : ofMetric catalog depth name place before = .ok (scope, after)) :
    ∃ derivation, catalog.Derives name derivation := by
  induction depth generalizing name place before after scope with
  | zero => exact nomatch ok
  | succ depth ih =>
      obtain ⟨metric, _, _, _, found, _⟩ := of_ofMetric ok
      have known := (Catalog.of_metric? found).1
      rcases Dataflow.exists_input_or_formula (complete metric known) with
        ⟨input, single⟩ | ⟨_, some, _⟩
      · have among : input ∈ metric.inputMeasures := single ▸ List.mem_cons_self
        exact ⟨_, .own found among⟩
      · obtain ⟨input, among⟩ := List.exists_mem_of_ne_nil _ some
        obtain ⟨index, listed⟩ := List.mem_iff_getElem?.mp among
        obtain ⟨_, _, _, created, _⟩ := exists_below_of_ofMetric ok found listed
        obtain ⟨rest, derives⟩ := ih created
        exact ⟨_, .through found listed derives⟩

/-- If metrics have the inputs that their kinds need, then every metric of a scope has a derivation.
-/
theorem exists_derivation_of_mem
    (complete : ∀ metric ∈ catalog.manifest.metrics, metric.isComplete = true)
    {names filters : List String} (asked : name ∈ names)
    (ok : ofQuery catalog names filters = .ok scope) :
    ∃ derivation, catalog.Derives name derivation := by
  obtain ⟨_, _, _, created⟩ := of_ofQuery (List.ne_nil_of_mem asked) ok
  obtain ⟨_, _, _, _, created⟩ := exists_right_of_forall₂ created asked
  exact exists_derivation_of_ofMetric complete created

/-- The filters at the nodes of a metric are on its derivations, apart from those of a consumer of
the metric. -/
theorem exists_derivation_of_declares
    (complete : ∀ metric ∈ catalog.manifest.metrics, metric.isComplete = true)
    (ok : ofMetric catalog depth name place before = .ok (scope, after)) {node : Scope}
    (member : node ∈ scope.nodes) {location : FilterLocation} {template : String}
    (declared : node.kind.Declares catalog location template) :
    (∃ derivation, catalog.Derives name derivation ∧ (location, template) ∈ derivation.filters) ∨
      location = .inputMetric name ∧ ∃ input,
        place.bind (·.input? catalog) = some input ∧ template ∈ input.filter.getD [] := by
  induction depth generalizing name place before after scope with
  | zero => exact nomatch ok
  | succ depth ih =>
      rcases of_mem_nodes_of_ofMetric ok member with
        ⟨rfl, kind⟩ | ⟨_, _, _, rfl⟩ | ⟨metric, input, _, _, _, _, found, listed, created, inside⟩
      · rw [kind] at declared
        cases declared with
        | own same among =>
            obtain ⟨derivation, derives⟩ := exists_derivation_of_ofMetric complete ok
            exact .inl ⟨derivation, derives, derives.mem_filters same among⟩
        | measure same measured among =>
            obtain ⟨_, rfl⟩ := Catalog.of_metric? same
            refine .inl ⟨_, .own same measured, ?_⟩
            exact List.mem_append_right _ (Derivation.mem_located among)
        | consumer _ placed among => exact .inr ⟨rfl, _, placed, among⟩
      · exact nomatch declared
      · rcases ih created inside with ⟨rest, derives, on⟩ | ⟨rfl, consumed, placed, stated⟩
        · refine .inl ⟨_, .through found listed derives, ?_⟩
          exact List.mem_append_right _ (List.mem_append_right _ on)
        · obtain ⟨rest, derives⟩ := exists_derivation_of_ofMetric complete created
          have same : input = consumed := by
            simp only [Option.bind_some, InputPlace.input?, found, listed] at placed
            exact Option.some.inj placed
          subst same
          refine .inl ⟨_, .through found listed derives, ?_⟩
          exact List.mem_append_right _ (List.mem_append_left _ (Derivation.mem_located stated))

/-- The filters at the nodes of a query are its own or on a derivation of one of its metrics. -/
theorem exists_derivation_of_ofQuery
    (complete : ∀ metric ∈ catalog.manifest.metrics, metric.isComplete = true)
    {names filters : List String} (some : names ≠ [])
    (ok : ofQuery catalog names filters = .ok scope) {node : Scope} (member : node ∈ scope.nodes)
    {location : FilterLocation} {template : String}
    (declared : node.kind.Declares catalog location template) :
    (location = .query names ∧ template ∈ filters) ∨ ∃ name ∈ names, ∃ derivation,
      catalog.Derives name derivation ∧ (location, template) ∈ derivation.filters := by
  obtain ⟨id, inputs, rfl, created⟩ := of_ofQuery some ok
  rcases mem_nodes.mp member with ⟨input, among, inside⟩ | rfl
  · obtain ⟨name, asked, _, _, created⟩ := exists_left_of_forall₂ created among
    rcases exists_derivation_of_declares complete created inside declared with
      onDerivation | ⟨_, _, placed, _⟩
    · exact .inr ⟨name, asked, onDerivation⟩
    · exact nomatch placed
  · cases declared with
    | query among => exact .inl ⟨rfl, among⟩

end Scope

end MetricQuery

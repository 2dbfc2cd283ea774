import Mathlib.Data.Finset.Card
import Mathlib.Order.Monotone.Basic
import MetricQuery.Proofs.Catalog
import MetricQuery.Proofs.Filter.Coverage

/-! # Metrics that are ready to be planned

Before a metric is planned, a scope has been built over the same metrics, and the filters at its
nodes have been looked up. What planning needs of both is that the metric is `Dataflow.Ready`
(`Dataflow.ready_of_ofMetric`). Metrics that are computed from one another without end are never
ready, so that no metric needs more levels than there are metrics (`Dataflow.Ready.bounded`).
-/

namespace MetricQuery

namespace Dataflow

/-- Whether a metric can be planned some metrics deep: it and its inputs exist, and it is known what
the references in all their filters mean. -/
inductive Ready (catalog : Catalog) (lookup : FilterLookup) : (depth : Nat) → String → Prop where
  | intro {depth : Nat} {name : String} {metric : Metric}
      (found : catalog.metric? name = some metric)
      (measured : ∀ input ∈ metric.inputMeasures, (catalog.measure? input.name).isSome = true)
      (own : ∀ template ∈ LocatedFilters.ofMetric metric, lookup.Knows (.metric name) template)
      (ofConsumer : ∀ input ∈ metric.inputMetrics, ∀ template ∈ input.filter.getD [],
        lookup.Knows (.inputMetric input.name) template)
      (inputs : ∀ input ∈ metric.inputMetrics, Ready catalog lookup depth input.name) :
      Ready catalog lookup (depth + 1) name

variable {catalog : Catalog} {lookup : FilterLookup} {depth : Nat} {name : String}

/-- What has a scope is a metric that exists. -/
theorem exists_metric_of_ofMetric {place : Option InputPlace} {before after : Nat} {scope : Scope}
    (ok : Scope.ofMetric catalog depth name place before = .ok (scope, after)) :
    scope.kind = .metric name place ∧ ∃ metric, catalog.metric? name = some metric := by
  cases depth with
  | zero => exact nomatch ok
  | succ depth =>
      obtain ⟨metric, _, _, _, found, rfl, _⟩ := Scope.of_ofMetric ok
      exact ⟨rfl, metric, found⟩

/-- A metric is ready if its scope has been built and it is known what the references in the filters
at all its nodes mean. -/
theorem ready_of_ofMetric {place : Option InputPlace} {before after : Nat} {scope : Scope}
    (ok : Scope.ofMetric catalog depth name place before = .ok (scope, after))
    (known : ∀ node ∈ scope.nodes, ∀ location template,
      node.kind.Declares catalog location template → lookup.Knows location template) :
    Ready catalog lookup depth name := by
  induction depth generalizing name place before after scope with
  | zero => exact nomatch ok
  | succ depth ih =>
      have here := known scope scope.self_mem_nodes
      rw [(exists_metric_of_ofMetric ok).1] at here
      obtain ⟨metric, _, measures, _, found, _, fromMeasures, _⟩ := Scope.of_ofMetric ok
      have below : ∀ input ∈ metric.inputMetrics, ∃ index below start finish,
          metric.inputMetrics[index]? = some input ∧
          Scope.ofMetric catalog depth input.name (some ⟨name, index⟩) start =
            .ok (below, finish) ∧
          ∀ node ∈ below.nodes, node ∈ scope.nodes := by
        intro input among
        obtain ⟨index, listed⟩ := List.mem_iff_getElem?.mp among
        obtain ⟨below, start, finish, created, within⟩ :=
          Scope.exists_below_of_ofMetric ok found listed
        exact ⟨index, below, start, finish, listed, created, within⟩
      refine .intro found (fun input among => ?_) (fun template declared => ?_)
        (fun input among template declared => ?_) fun input among => ?_
      · obtain ⟨_, _, _, _, created⟩ := exists_right_of_forall₂ fromMeasures among
        exact (Scope.of_ofMeasure created).1
      · rcases LocatedFilters.mem_ofMetric.mp declared with ⟨input, among, declared⟩ | declared
        · exact here _ _ (.measure found among declared)
        · exact here _ _ (.own found declared)
      · obtain ⟨index, node, _, _, listed, created, within⟩ := below input among
        obtain ⟨kind, inner, foundInner⟩ := exists_metric_of_ofMetric created
        have placed : (InputPlace.mk name index).input? catalog = some input := by
          simp only [InputPlace.input?, found, listed]
        exact known node (within node node.self_mem_nodes) _ _
          (kind ▸ .consumer foundInner placed declared)
      · obtain ⟨_, node, _, _, _, created, within⟩ := below input among
        exact ih created fun inner inside => known inner (within inner inside)

namespace Ready

private theorem exists_metric (ready : Ready catalog lookup depth name) :
    ∃ metric, catalog.metric? name = some metric := by
  cases ready with
  | intro found => exact ⟨_, found⟩

/-- What is ready at some depth is ready at any greater one. -/
theorem mono {more : Nat} (ready : Ready catalog lookup depth name) (deeper : depth ≤ more) :
    Ready catalog lookup more name := by
  induction ready generalizing more with
  | intro found measured own ofConsumer _ ih =>
      obtain ⟨more, rfl⟩ := Nat.exists_eq_add_one_of_ne_zero (Nat.ne_zero_of_lt deeper)
      exact .intro found measured own ofConsumer fun input among =>
        ih input among (Nat.le_of_succ_le_succ deeper)

/-- If one more level makes no metric ready, then neither does another one. -/
theorem stays {deep : Nat}
    (still : ∀ name, Ready catalog lookup (deep + 1) name → Ready catalog lookup deep name)
    (ready : Ready catalog lookup (deep + 2) name) : Ready catalog lookup (deep + 1) name := by
  cases ready with
  | intro found measured own ofConsumer inputs =>
      exact .intro found measured own ofConsumer fun input among => still _ (inputs input among)

section

open Classical

/-- The metrics that are ready. -/
noncomputable def names (catalog : Catalog) (lookup : FilterLookup) (depth : Nat) :
    Finset String :=
  (catalog.manifest.metrics.map Metric.name).toFinset.filter (Ready catalog lookup depth)

/-- The names at a depth are those of the metrics that are ready there. -/
theorem mem_names : name ∈ names catalog lookup depth ↔ Ready catalog lookup depth name := by
  rw [names, Finset.mem_filter, and_iff_right_iff_imp, List.mem_toFinset]
  intro ready
  obtain ⟨metric, found⟩ := ready.exists_metric
  obtain ⟨known, named⟩ := Catalog.of_metric? found
  exact List.mem_map.mpr ⟨metric, known, named⟩

/-- The names only become more with the depth. -/
theorem names_mono : Monotone (names catalog lookup) :=
  fun _ _ deeper _ ready => mem_names.mpr ((mem_names.mp ready).mono deeper)

/-- No metric needs more levels than there are metrics. -/
theorem bounded (ready : Ready catalog lookup depth name) :
    Ready catalog lookup catalog.manifest.metrics.length name := by
  set most := catalog.manifest.metrics.length
  rcases Nat.le_total depth most with shallow | deep
  · exact ready.mono shallow
  · have few : ∀ level, (names catalog lookup level).card ≤ most := fun level =>
      (Finset.card_filter_le _ _).trans
        ((List.toFinset_card_le _).trans (List.length_map _).le)
    have settles : ∀ level, (names catalog lookup level).card =
        (names catalog lookup (level + 1)).card →
        (names catalog lookup (level + 1)).card = (names catalog lookup (level + 2)).card := by
      intro level same
      have equal := Finset.eq_of_subset_of_card_le (names_mono (Nat.le_succ level)) same.ge
      have still : ∀ other, Ready catalog lookup (level + 1) other →
          Ready catalog lookup level other := fun other ready =>
        mem_names.mp (equal ▸ mem_names.mpr ready)
      refine congrArg _ (Finset.Subset.antisymm (names_mono (Nat.le_succ _)) ?_)
      exact fun other ready => mem_names.mpr ((mem_names.mp ready).stays still)
    have same := Nat.stabilises_of_monotone
      (fun _ _ deeper => Finset.card_le_card (names_mono deeper)) few settles deep
    have equal := Finset.eq_of_subset_of_card_le (names_mono deep) same.le
    exact mem_names.mp (equal ▸ mem_names.mpr ready)

end

end Ready

end Dataflow

end MetricQuery

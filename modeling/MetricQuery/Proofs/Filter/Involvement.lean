import Mathlib.Logic.Relation
import MetricQuery.Proofs.Filter.Coverage

/-! # Filters of involved metrics

A query looks up the filters of the metrics that its own metrics are computed from, and of no other
ones. What the filters of a metric mean is therefore known exactly if the metric is involved in a
metric of the query or its filters refer to nothing
(`FilterLookup.Gathers.knows_all_iff`).
-/

namespace MetricQuery

namespace Catalog

/-- Whether a metric has another one as an input. -/
def HasInput (catalog : Catalog) (outer inner : String) : Prop :=
  ∃ metric, catalog.metric? outer = some metric ∧ ∃ input ∈ metric.inputMetrics, input.name = inner

/-- Whether a metric is another one or is computed from it, through any number of inputs. -/
def Involves (catalog : Catalog) : (outer inner : String) → Prop :=
  Relation.ReflTransGen catalog.HasInput

end Catalog

namespace Scope

variable {catalog : Catalog} {scope node : Scope} {inner : String}

private theorem involves_of_ofMetric {depth : Nat} {name : String}
    {place innerPlace : Option InputPlace}
    {before after : Nat} (ok : ofMetric catalog depth name place before = .ok (scope, after))
    (member : node ∈ scope.nodes) (kind : node.kind = .metric inner innerPlace) :
    catalog.Involves name inner := by
  induction depth generalizing name place before after scope with
  | zero => exact nomatch ok
  | succ depth ih =>
      rcases of_mem_nodes_of_ofMetric ok member with
        ⟨rfl, same⟩ | ⟨_, _, _, rfl⟩ | ⟨metric, input, _, _, _, _, found, listed, created, inside⟩
      · obtain ⟨⟩ := same.symm.trans kind
        exact .refl
      · exact nomatch kind
      · have among := List.mem_of_getElem? listed
        exact .head ⟨metric, found, input, among, rfl⟩ (ih created inside)

private theorem exists_node_of_involves {name : String} (involves : catalog.Involves name inner)
    {depth : Nat} {place : Option InputPlace} {before after : Nat}
    (ok : ofMetric catalog depth name place before = .ok (scope, after)) :
    ∃ node ∈ scope.nodes, ∃ innerPlace, node.kind = .metric inner innerPlace := by
  induction involves using Relation.ReflTransGen.head_induction_on
    generalizing depth place before after scope with
  | refl =>
      cases depth with
      | zero => exact nomatch ok
      | succ depth =>
          obtain ⟨_, _, _, _, _, rfl, _⟩ := of_ofMetric ok
          exact ⟨_, self_mem_nodes _, place, rfl⟩
  | head step _ ih =>
      obtain ⟨metric, found, input, among, rfl⟩ := step
      cases depth with
      | zero => exact nomatch ok
      | succ depth =>
          obtain ⟨index, listed⟩ := List.mem_iff_getElem?.mp among
          obtain ⟨below, _, _, created, within⟩ := exists_below_of_ofMetric ok found listed
          obtain ⟨node, inside, kind⟩ := ih created
          exact ⟨node, within node inside, kind⟩

/-- A query has a node for each metric that is involved in its metrics, and for no other one. -/
theorem exists_node_iff_involved {names filters : List String}
    (some : names ≠ []) (ok : ofQuery catalog names filters = .ok scope) :
    (∃ node ∈ scope.nodes, ∃ place, node.kind = .metric inner place) ↔
      ∃ name ∈ names, catalog.Involves name inner := by
  obtain ⟨id, inputs, rfl, created⟩ := of_ofQuery some ok
  constructor
  · intro given
    obtain ⟨node, member, place, kind⟩ := given
    rcases mem_nodes.mp member with ⟨input, among, inside⟩ | rfl
    · obtain ⟨name, asked, _, _, created⟩ := exists_left_of_forall₂ created among
      exact ⟨name, asked, involves_of_ofMetric created inside kind⟩
    · exact nomatch kind
  · intro given
    obtain ⟨name, asked, involves⟩ := given
    obtain ⟨input, among, _, _, created⟩ := exists_right_of_forall₂ created asked
    obtain ⟨node, inside, kind⟩ := exists_node_of_involves involves created
    exact ⟨node, mem_nodes.mpr (.inl ⟨input, among, inside⟩), kind⟩

end Scope

namespace FilterLookup

variable {catalog : Catalog} {lookup : FilterLookup} {scope : Scope} {limit : Nat}

private theorem knows_of_references {location : FilterLocation} {template : String}
    (silent : Template.references template = .ok []) : lookup.Knows location template :=
  ⟨[], silent, List.forall_mem_nil _⟩

/-- What the filters of a metric mean is known exactly if the metric is involved in a metric of the
query or nothing is referred to. -/
theorem Gathers.knows_all_iff {names filters : List String} (some : names ≠ [])
    (built : Scope.ofQuery catalog names filters = .ok scope)
    (gathers : Gathers catalog limit lookup scope.placed) (fine : lookup.hasErrors = false)
    {metric : Metric} (found : catalog.metric? metric.name = .some metric) :
    (∀ template ∈ LocatedFilters.ofMetric metric, lookup.Knows (.metric metric.name) template) ↔
      (∃ name ∈ names, catalog.Involves name metric.name) ∨
        ∀ template ∈ LocatedFilters.ofMetric metric, Template.references template = .ok [] := by
  have ended := Scope.ended_of_ofQuery built
  constructor
  · intro known
    by_cases silent : ∀ template ∈ LocatedFilters.ofMetric metric,
        Template.references template = .ok []
    · exact .inr silent
    · simp only [not_forall] at silent
      obtain ⟨template, declared, refers⟩ := silent
      obtain ⟨references, read, findings⟩ := known template declared
      obtain ⟨reference, among⟩ := List.exists_mem_of_ne_nil references fun none =>
        refers (none ▸ read)
      obtain ⟨finding, member, key⟩ := List.mem_map.mp (findings reference among)
      obtain ⟨node, inside, _, _, declares, _⟩ := gathers.exists_declaration ended member
      rw [key] at declares
      obtain ⟨place, kind⟩ := declares.exists_place
      exact .inl ((Scope.exists_node_iff_involved some built).mp ⟨node, inside, place, kind⟩)
  · intro given template declared
    rcases given with involved | silent
    · obtain ⟨node, member, place, kind⟩ := (Scope.exists_node_iff_involved some built).mpr involved
      apply gathers.knows_of_mem_nodes fine ended node member
      rw [kind]
      rcases LocatedFilters.mem_ofMetric.mp declared with ⟨input, among, ofInput⟩ | own
      · exact .measure found among ofInput
      · exact .own found own
    · exact knows_of_references (silent template declared)

end FilterLookup

end MetricQuery

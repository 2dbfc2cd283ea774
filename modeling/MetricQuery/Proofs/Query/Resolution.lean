import MetricQuery.Proofs.Dataflow.Readiness
import MetricQuery.Proofs.Filter.Rendering
import MetricQuery.Proofs.Query.Collecting

/-! # What a resolved query can count on

Resolving a request ends in one of few ways (`Request.resolve_resolves`). If a request for metrics
is resolved, then its metrics are ready to be planned, all its items are offered by every measure
that is needed, and it sorts by what it selects (`Request.resolve_ensures`).
-/

namespace MetricQuery

open ReferenceMemo (Ensures)

/-- Whether a content is among the items and metrics that are selected. -/
def Request.IsSelected (metrics : List MetricOutput) (items : List GroupByItem)
    (content : ColumnContent) : Prop :=
  (∃ item ∈ items, content = .item item) ∨ ∃ output ∈ metrics, content = .metric output

/-- What a resolved query for metrics can count on. -/
structure ResolvedQuery.IsSound (catalog : Catalog) (query : ResolvedQuery) : Prop where
  some : query.metrics ≠ []
  ready : ∀ output ∈ query.metrics,
    Dataflow.Ready catalog query.lookup catalog.metricDepth output.metric
  settled : query.lookup.IsSettled catalog
  grouped : ∀ item ∈ query.groupBy, ∀ output ∈ query.metrics, catalog.Offers output.metric item
  gathered : ∃ scope limit,
    Scope.ofQuery catalog (query.metrics.map MetricOutput.metric) query.filters = .ok scope ∧
      FilterLookup.Gathers catalog limit query.lookup scope.placed ∧ query.lookup.hasErrors = false
  rendered : ∃ conditions,
    Dataflow.conditionsAt query.lookup query.location query.filters = .ok conditions ∧
      query.condition = Condition.all conditions
  ordered : ∀ order ∈ query.orderBy,
    Request.IsSelected query.metrics query.groupBy order.content

/-- What the query's own condition mentions is meant where the query's filters stand. -/
theorem ResolvedQuery.IsSound.filtered {catalog : Catalog} {query : ResolvedQuery}
    (sound : query.IsSound catalog) {condition : Condition}
    (together : query.condition = .some condition) :
    ∀ item ∈ condition.items, query.lookup.Means query.location item := by
  obtain ⟨conditions, rendered, all⟩ := sound.rendered
  intro item inside
  obtain ⟨part, among, inside⟩ := (Condition.mem_items_of_all (all.symm.trans together)).mp inside
  exact Dataflow.means_of_conditionsAt rendered part among item inside

namespace Request

variable {catalog : Catalog} {scope : Scope} {limit : Nat}

/-! ## References -/

/-- Repeated metrics alone are no error. -/
theorem hasErrors_repeatedMetrics (inputs : List String) :
    (repeatedMetrics catalog inputs).hasErrors = false := by
  refine List.any_eq_false.mpr fun issue reported => ?_
  rw [isError_of_mem_repeatedMetrics reported]
  exact Bool.false_ne_true

/-- Of some metrics asked for at least one is known, or there are errors. -/
theorem knownMetrics_ne_nil {inputs : List String} (some : inputs ≠ [])
    (known : unknownMetrics catalog limit inputs = []) : knownMetrics catalog inputs ≠ [] := by
  obtain ⟨input, asked⟩ := List.exists_mem_of_ne_nil inputs some
  have named := List.mem_map_of_mem (f := Text.trim) asked
  rw [← filterMap_metricName? (unknownMetrics_eq_nil_iff.mp known)] at named
  exact List.ne_nil_of_mem (List.mem_eraseDups.mpr named)

/-- An order-by item is one of the selected ones. -/
theorem mem_of_orderItem? {selected : List GroupByItem} {descending : Bool}
    {reference : ItemReference} {order : OrderItem}
    (found : orderItem? selected descending reference = some order) :
    ∃ item ∈ selected, order.content = .item item := by
  unfold orderItem? at found
  split at found
  · rename_i item single
    obtain ⟨⟩ := found
    have matched := ItemPattern.mem_matching.mp (single ▸ List.mem_cons_self)
    exact ⟨item, (ItemPattern.mem_reachable.mp matched.1).1, rfl⟩
  · exact nomatch found

/-- A request sorts by what it selects. -/
theorem isSelected_of_order? {metrics : List MetricOutput} {items allowed : List GroupByItem}
    {input : String} {order : OrderItem}
    (sorts : order? metrics (GroupByItem.amongAllowed items allowed) input = some order) :
    IsSelected metrics items order.content := by
  unfold order? at sorts
  split at sorts
  · rename_i output found
    obtain ⟨⟩ := sorts
    exact .inr ⟨output, List.mem_of_find?_eq_some found, rfl⟩
  · split at sorts
    · exact nomatch sorts
    · obtain ⟨item, inside, same⟩ := mem_of_orderItem? sorts
      exact .inl ⟨item, List.contains_iff_mem.mp (List.mem_filter.mp inside).2, same⟩

/-- What an input means is offered by every measure that the metrics of the query are computed
from. -/
theorem offers_of_itemOf? {names filters : List String}
    (built : Scope.ofQuery catalog names filters = .ok scope) {input : String} {item : GroupByItem}
    (means : scope.itemOf? limit input = some item) :
    ∀ metric ∈ scope.kind.metrics, catalog.Offers metric item := by
  unfold Scope.itemOf? at means
  split at means
  · exact nomatch means
  · exact Scope.offers_of_resolved built scope.self_mem_nodes (Outcome.eq_resolved means)

/-! ## Requests -/

/-- What a request means, once all its references mean something. -/
def answer (catalog : Catalog) (request : Request) (meaning : Meaning)
    (conditions : List Condition) : ResolvedQuery where
  metrics := (knownMetrics catalog request.metrics).map fun name => MetricOutput.mk name none
  groupBy := meaning.items
  filters := request.filters
  condition := Condition.all conditions
  lookup := meaning.lookup
  orderBy := meaning.order
  limit := request.limit
  warnings := (repeatedMetrics catalog request.metrics ++ meaning.issues).warnings

/-- Whether a meaning was found in a scope of the metrics and filters of a request. -/
structure Means (catalog : Catalog) (limit : Nat) (request : Request) (scope : Scope)
    (meaning : Meaning) : Prop where
  known : unknownMetrics catalog limit request.metrics = []
  built : Scope.ofQuery catalog (knownMetrics catalog request.metrics) request.filters = .ok scope
  collects : meaning.Collects catalog limit scope
    ((knownMetrics catalog request.metrics).map fun name => MetricOutput.mk name none) request

/-- The ways in which resolving a request can end. -/
inductive Resolves (catalog : Catalog) (limit : Nat) (request : Request) :
    Except QueryError ResolvedQuery → Prop where
  | empty (metrics : request.metrics = []) (groupBy : request.groupBy = []) :
      Resolves catalog limit request (.error .emptyRequest)
  | unknown (some : unknownMetrics catalog limit request.metrics ≠ []) :
      Resolves catalog limit request
        (.error (.unresolved (unknownMetrics catalog limit request.metrics)))
  | unscoped {error : QueryError} (known : unknownMetrics catalog limit request.metrics = [])
      (failed : Scope.ofQuery catalog (knownMetrics catalog request.metrics) request.filters =
        .error error) : Resolves catalog limit request (.error error)
  | reported {scope : Scope} {meaning : Meaning}
      (means : request.Means catalog limit scope meaning)
      (failed : meaning.issues.hasErrors = true) :
      Resolves catalog limit request
        (.error (.unresolved (repeatedMetrics catalog request.metrics ++ meaning.issues)))
  | unrendered {scope : Scope} {meaning : Meaning} {error : QueryError}
      (means : request.Means catalog limit scope meaning) (fine : meaning.issues.hasErrors = false)
      (failed : Dataflow.conditionsAt meaning.lookup
        (.query (knownMetrics catalog request.metrics)) (.some request.filters) = .error error) :
      Resolves catalog limit request (.error error)
  | resolved {scope : Scope} {meaning : Meaning} {conditions : List Condition}
      (asked : request.metrics = [] → request.groupBy ≠ [])
      (means : request.Means catalog limit scope meaning) (fine : meaning.issues.hasErrors = false)
      (rendered : Dataflow.conditionsAt meaning.lookup
        (.query (knownMetrics catalog request.metrics)) (.some request.filters) = .ok conditions) :
      Resolves catalog limit request (.ok (request.answer catalog meaning conditions))

/-- With any memo, resolving a request ends in one of these ways. -/
theorem resolve_resolves (request : Request) (settings : Settings) :
    Ensures (request.resolve catalog settings).run
      (Resolves catalog settings.resolution.maxSuggestions request) := by
  unfold resolve
  simp only [requestedMetrics_eq]
  split
  · rename_i nothing
    rw [Bool.and_eq_true, List.isEmpty_iff, List.isEmpty_iff] at nothing
    exact .pure (.empty nothing.1 nothing.2)
  · rename_i asked
    rw [Bool.and_eq_true, List.isEmpty_iff, List.isEmpty_iff, not_and] at asked
    split
    · rename_i unknown
      exact .pure (.unknown (by simpa using unknown))
    · rename_i known
      have known :
          unknownMetrics catalog settings.resolution.maxSuggestions request.metrics = [] := by
        simpa using known
      split
      · rename_i error failed
        exact .pure (.unscoped known failed)
      · rename_i scope built
        rw [pure_bind]
        refine (Ensures.lift (meaning_collects built _ request)).bind_run
          (fun _ given => by obtain ⟨_, absent, _⟩ := given; exact nomatch absent) ?_
        rintro _ ⟨meaning, ⟨⟩, collects⟩
        rw [Issues.hasErrors_append, hasErrors_repeatedMetrics, Bool.false_or]
        split
        · rename_i failed
          exact .pure (.reported ⟨known, built, collects⟩ failed)
        · rename_i fine
          rw [Bool.not_eq_true] at fine
          refine (Condition.ofTemplates_ensures request.filters).bind_run
            (fun _ failed => .unrendered ⟨known, built, collects⟩ fine failed.symm) ?_
          intro conditions rendered
          exact .pure (.resolved asked ⟨known, built, collects⟩ fine rendered.symm)

/-- What the meaning of a request without errors can count on. -/
structure Meaning.IsSound (catalog : Catalog) (limit : Nat) (scope : Scope)
    (metrics : List MetricOutput) (meaning : Meaning) : Prop where
  fine : meaning.lookup.hasErrors = false
  gathers : FilterLookup.Gathers catalog limit meaning.lookup scope.placed
  settled : meaning.lookup.IsSettled catalog
  grouped : ∀ item ∈ meaning.items, ∀ metric ∈ scope.kind.metrics, catalog.Offers metric item
  ordered : ∀ order ∈ meaning.order, IsSelected metrics meaning.items order.content

/-- What is collected without errors is sound. -/
theorem Meaning.Collects.isSound {names filters : List String} {metrics : List MetricOutput}
    {request : Request} {meaning : Meaning}
    (collects : meaning.Collects catalog limit scope metrics request)
    (built : Scope.ofQuery catalog names filters = .ok scope)
    (fine : meaning.issues.hasErrors = false) :
    meaning.IsSound catalog limit scope metrics := by
  have fine := (collects.of_hasErrors fine).2.1
  have settled := collects.gathers.isSettled built fine (collects.keys fine)
  refine ⟨fine, collects.gathers, settled, ?_, ?_⟩
  · rw [collects.items]
    intro item selected
    obtain ⟨_, _, means⟩ := List.mem_filterMap.mp (List.mem_eraseDups.mp selected)
    exact offers_of_itemOf? built means
  · rw [collects.order]
    intro order sorted
    obtain ⟨_, _, sorts⟩ := List.mem_filterMap.mp sorted
    exact isSelected_of_order? sorts

/-- Every metric of a query is ready to be planned. -/
theorem Meaning.IsSound.ready {names filters : List String} {metrics : List MetricOutput}
    {meaning : Meaning} (sound : meaning.IsSound catalog limit scope metrics) (some : names ≠ [])
    (built : Scope.ofQuery catalog names filters = .ok scope) {name : String}
    (asked : name ∈ names) : Dataflow.Ready catalog meaning.lookup catalog.metricDepth name := by
  have known := sound.gathers.knows_of_mem_nodes sound.fine (Scope.ended_of_ofQuery built)
  obtain ⟨id, inputs, rfl, created⟩ := Scope.of_ofQuery some built
  obtain ⟨input, among, _, _, created⟩ := exists_right_of_forall₂ created asked
  apply Dataflow.ready_of_ofMetric created
  intro node inside
  exact known node (Scope.mem_nodes.mpr (.inl ⟨input, among, inside⟩))

/-- The filters of a request can be rendered if all its references mean something. -/
theorem Means.exists_conditionsAt {request : Request} {meaning : Meaning}
    (means : request.Means catalog limit scope meaning) (fine : meaning.issues.hasErrors = false) :
    ∃ conditions, Dataflow.conditionsAt meaning.lookup
      (.query (knownMetrics catalog request.metrics)) (.some request.filters) = .ok conditions := by
  have sound := means.collects.isSound means.built fine
  refine Dataflow.exists_conditionsAt sound.settled fun template among => ?_
  apply sound.gathers.knows_of_mem_nodes sound.fine (Scope.ended_of_ofQuery means.built) scope
    scope.self_mem_nodes
  rw [Scope.kind_of_ofQuery means.built]
  exact .query among

/-- A request that means something without errors gives a sound query. -/
theorem Means.isSound {request : Request} {meaning : Meaning} {conditions : List Condition}
    (means : request.Means catalog limit scope meaning) (fine : meaning.issues.hasErrors = false)
    (some : request.metrics ≠ [])
    (rendered : Dataflow.conditionsAt meaning.lookup
      (.query (knownMetrics catalog request.metrics)) (.some request.filters) = .ok conditions) :
    (request.answer catalog meaning conditions).IsSound catalog := by
  have sound := means.collects.isSound means.built fine
  have some := knownMetrics_ne_nil some means.known
  have named : (request.answer catalog meaning conditions).metrics.map MetricOutput.metric =
      knownMetrics catalog request.metrics := by
    rw [answer, List.map_map]
    exact List.map_id _
  have member : ∀ output ∈ (request.answer catalog meaning conditions).metrics,
      output.metric ∈ knownMetrics catalog request.metrics := fun output among =>
    named ▸ List.mem_map_of_mem among
  have kind : scope.kind.metrics = knownMetrics catalog request.metrics := by
    rw [Scope.kind_of_ofQuery means.built]
    rfl
  refine ⟨?_, ?_, sound.settled, ?_, ?_, ?_, sound.ordered⟩
  · intro none
    rw [none] at named
    exact some named.symm
  · exact fun output among => sound.ready some means.built (member output among)
  · exact fun item among output asked =>
      sound.grouped item among output.metric (kind ▸ member output asked)
  · rw [named]
    exact ⟨scope, limit, means.built, sound.gathers, sound.fine⟩
  · rw [ResolvedQuery.location, named]
    exact ⟨conditions, rendered, rfl⟩

/-- A resolved query can count on its metrics, its items and what it sorts by. -/
theorem resolve_ensures {request : Request} (some : request.metrics ≠ []) (settings : Settings) :
    Ensures (request.resolve catalog settings).run fun result =>
      ∀ query, result = .ok query → query.IsSound catalog := by
  apply (resolve_resolves request settings).imp
  rintro _ resolves query rfl
  cases resolves with
  | resolved _ means fine rendered => exact means.isSound fine some rendered

/-- A resolved query has each of its metrics and items once. -/
theorem resolve_nodup (request : Request) (settings : Settings) :
    Ensures (request.resolve catalog settings).run fun result =>
      ∀ query, result = .ok query → query.metrics.Nodup ∧ query.groupBy.Nodup := by
  apply (resolve_resolves request settings).imp
  rintro _ resolves query rfl
  cases resolves with
  | @resolved _ meaning _ _ means =>
      have distinct : meaning.items.Nodup := means.collects.items ▸ nodup_eraseDups _
      refine ⟨(nodup_eraseDups _).map fun _ _ same => ?_, distinct⟩
      injection same

/-- A resolved query gives each metric under its own name. -/
theorem resolve_plain (request : Request) (settings : Settings) :
    Ensures (request.resolve catalog settings).run fun result =>
      ∀ query, result = .ok query → ∀ output ∈ query.metrics, output.newName = none := by
  apply (resolve_resolves request settings).imp
  rintro _ resolves query rfl
  cases resolves with
  | resolved =>
      intro output among
      obtain ⟨name, _, rfl⟩ := List.mem_map.mp among
      rfl

/-- A resolved request without metrics lists something. -/
theorem resolve_unmeasured {request : Request} (none : request.metrics = [])
    (settings : Settings) :
    Ensures (request.resolve catalog settings).run fun result =>
      ∀ query, result = .ok query → query.metrics = [] ∧ query.groupBy ≠ [] := by
  apply (resolve_resolves request settings).imp
  rintro _ resolves query rfl
  cases resolves with
  | @resolved _ meaning _ asked means fine _ =>
      refine ⟨by rw [answer, none]; rfl, ?_⟩
      obtain ⟨input, among⟩ := List.exists_mem_of_ne_nil _ (asked none)
      obtain ⟨item, isItem⟩ := (means.collects.of_hasErrors fine).1 input among
      have found := List.mem_eraseDups.mpr (List.mem_filterMap.mpr ⟨input, among, isItem⟩)
      exact List.ne_nil_of_mem (means.collects.items ▸ found : item ∈ meaning.items)

end Request

end MetricQuery

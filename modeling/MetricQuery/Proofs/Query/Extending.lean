import MetricQuery.Compiler
import MetricQuery.Proofs.Query.Collecting
import MetricQuery.Proofs.Scope.Extending

/-! # Requests over extended manifests

Every request that can be resolved is resolved to the same query over an extended manifest
(`Manifest.Extends.resolveAlone_follows`).
-/

namespace MetricQuery

/-! ## Filters -/

/-- Whether the metrics that a node of some kind is about are defined. -/
def ScopeKind.IsKnown (catalog : Catalog) : ScopeKind → Prop
  | metric name place => (catalog.metric? name).isSome = true ∧
    ∀ input ∈ place, (catalog.metric? input.consumer).isSome = true
  | _ => True

namespace Scope

variable {catalog : Catalog}

private theorem isKnown_of_ofMetric {depth : Nat} {name : String} {place : Option InputPlace}
    {before after : Nat} {scope : Scope}
    (ok : ofMetric catalog depth name place before = .ok (scope, after))
    (known : ∀ input ∈ place, (catalog.metric? input.consumer).isSome = true) :
    ∀ node ∈ scope.nodes, node.kind.IsKnown catalog := by
  induction depth generalizing name place before after scope with
  | zero => exact nomatch ok
  | succ depth ih =>
      intro node member
      rcases of_mem_nodes_of_ofMetric ok member with ⟨rfl, kind⟩ | ⟨_, _, _, rfl⟩ |
        ⟨metric, _, _, below, _, _, found, _, created, inside⟩
      · obtain ⟨metric, _, _, _, found, _⟩ := of_ofMetric ok
        rw [kind]
        exact ⟨Option.isSome_iff_exists.mpr ⟨metric, found⟩, known⟩
      · trivial
      · refine ih created ?_ node inside
        rintro _ ⟨⟩
        exact Option.isSome_iff_exists.mpr ⟨metric, found⟩

private theorem isKnown_of_ofQuery {metrics filters : List String} {scope : Scope}
    (ok : ofQuery catalog metrics filters = .ok scope) :
    ∀ node ∈ scope.nodes, node.kind.IsKnown catalog := by
  intro node member
  by_cases none : metrics = []
  · subst none
    obtain ⟨⟩ := ok
    rcases mem_nodes.mp member with ⟨input, among, inside⟩ | rfl
    · rw [List.mem_singleton.mp among] at inside
      rcases mem_nodes.mp inside with ⟨_, absent, _⟩ | rfl
      · exact (List.not_mem_nil absent).elim
      · trivial
    · trivial
  · obtain ⟨id, inputs, rfl, created⟩ := of_ofQuery none ok
    rcases mem_nodes.mp member with ⟨input, among, inside⟩ | rfl
    · obtain ⟨_, _, _, _, created⟩ := exists_left_of_forall₂ created among
      exact isKnown_of_ofMetric created (fun _ absent => nomatch absent) node inside
    · trivial

end Scope

namespace FilterLookup

/-- What filters mean depends on the manifest only in which filters are declared. -/
theorem ofScope_eq {catalog other : Catalog} {scope : Scope} (ended : scope.Ended)
    (same : ∀ node ∈ scope.nodes,
      LocatedFilters.atKind other node.kind = LocatedFilters.atKind catalog node.kind)
    (limit : Nat) (outer : ScopePath) :
    ofScope other limit outer scope = ofScope catalog limit outer scope := by
  induction ended generalizing outer with
  | leaf id kind elements last => cases kind <;> first | rfl | exact nomatch last
  | inputs id kind elements inputs notEnd each ih =>
      have here : LocatedFilters.atKind other kind = LocatedFilters.atKind catalog kind :=
        same _ (Scope.self_mem_nodes _)
      have below : inputs.mapM (ofScope other limit (outer ++ [⟨id, kind.description⟩])) =
          inputs.mapM (ofScope catalog limit (outer ++ [⟨id, kind.description⟩])) := by
        refine mapM_congr fun input among => ih input among (fun node inside => ?_) _
        exact same node (Scope.mem_nodes.mpr (.inl ⟨input, among, inside⟩))
      rw [ofScope_node notEnd, ofScope_node notEnd, below, here]

/-- A lookup without errors comes from a node where nothing failed. -/
theorem any_isFailure_eq_false {findings : List FilterFinding} {unreadable : List UnreadableFilter}
    (fine : hasErrors ⟨if !unreadable.isEmpty || findings.any FilterFinding.isFailure then
      findings.filter FilterFinding.isFailure else findings, unreadable⟩ = false) :
    findings.any FilterFinding.isFailure = false := by
  refine Bool.eq_false_iff.mpr fun failed => ?_
  rw [failed, Bool.or_true, if_pos rfl] at fine
  obtain ⟨finding, member, fails⟩ := List.any_eq_true.mp failed
  exact List.any_eq_false.mp (Bool.or_eq_false_iff.mp fine).1 finding
    (List.mem_filter.mpr ⟨member, fails⟩) fails

private theorem atNode_follows {scope other : Scope} (refinds : scope.Refinds other) (limit : Nat)
    (outer : ScopePath) (located : List LocatedFilters) :
    FollowsWhere (·.hasErrors = false) (atNode limit outer scope located)
      (atNode limit outer other located) := by
  unfold atNode
  refine (FollowsWhere.refl (fun _ => True) _).bind (fun _ _ => trivial) fun read _ => ?_
  refine .pure fun fine => ?_
  have succeeded := any_isFailure_eq_false fine
  have findings : (read.flatMap fun part =>
        part.references.map (find limit outer other part.filters)) =
      read.flatMap fun part => part.references.map (find limit outer scope part.filters) := by
    refine List.flatMap_congr fun part among => List.map_congr_left fun reference referred => ?_
    have found := List.any_eq_false.mp succeeded _
      (List.mem_flatMap.mpr ⟨part, among, List.mem_map_of_mem referred⟩)
    rw [PlacedNode.isFailure_find, Bool.not_eq_true, Option.isNone_eq_false_iff] at found
    obtain ⟨item, isItem⟩ := Option.isSome_iff_exists.mp found
    simp only [find, refinds.step, refinds.resolve _ _ _ item (Outcome.eq_resolved isItem)]
  rw [findings, refinds.step]

/-- Without metrics the filters are looked up at one node. -/
theorem ofQuery_withoutMetrics (catalog : Catalog) (filters : List String) (limit : Nat) :
    ofQuery catalog limit (.withoutMetrics catalog filters) = (do
      let here ← atNode limit [] (.withoutMetrics catalog filters)
        [⟨.query [], filters.eraseDups⟩]
      return (mergeAll [empty]).merge here) := by
  have listed : ∀ outer, ofScope catalog limit outer
      (.node 0 .noMetrics catalog.elementsWithoutMetrics []) = pure empty := fun _ => rfl
  rw [ofQuery, Scope.withoutMetrics, ofScope_node rfl]
  simp only [List.mapM_cons, List.mapM_nil, listed, pure_bind]
  rfl

end FilterLookup

namespace Manifest.Extends

variable {base further whole : Manifest} {hops : Nat}

private theorem input?_eq (grown : base.Extends further whole) {place : InputPlace}
    (known : ((Catalog.mk base hops).metric? place.consumer).isSome = true) :
    place.input? ⟨whole, hops⟩ = place.input? ⟨base, hops⟩ := by
  obtain ⟨metric, found⟩ := Option.isSome_iff_exists.mp known
  rw [InputPlace.input?, InputPlace.input?, found, grown.metric?_eq found]

/-- The same filters are declared at a node over metrics of the base. -/
theorem atKind_eq (grown : base.Extends further whole) {kind : ScopeKind}
    (known : kind.IsKnown ⟨base, hops⟩) :
    LocatedFilters.atKind ⟨whole, hops⟩ kind = LocatedFilters.atKind ⟨base, hops⟩ kind := by
  cases kind with
  | metric name place =>
      obtain ⟨defined, consumed⟩ := known
      obtain ⟨metric, found⟩ := Option.isSome_iff_exists.mp defined
      have placed : place.bind (·.input? ⟨whole, hops⟩) = place.bind (·.input? ⟨base, hops⟩) :=
        Option.bind_congr fun input isPlace => grown.input?_eq (consumed input isPlace)
      simp only [LocatedFilters.atKind, found, grown.metric?_eq found, placed]
  | _ => rfl

private theorem lookup_follows (grown : base.Extends further whole) {metrics filters : List String}
    {scope other : Scope} (built : Scope.ofQuery ⟨base, hops⟩ metrics filters = .ok scope)
    (extended : Scope.ofQuery ⟨whole, hops⟩ metrics filters = .ok other) (limit : Nat) :
    FollowsWhere (·.hasErrors = false) (FilterLookup.ofQuery ⟨base, hops⟩ limit scope)
      (FilterLookup.ofQuery ⟨whole, hops⟩ limit other) := by
  by_cases none : metrics = []
  · subst none
    rw [Scope.ofQuery_nil] at built extended
    obtain ⟨⟩ := built
    obtain ⟨⟩ := extended
    rw [FilterLookup.ofQuery_withoutMetrics, FilterLookup.ofQuery_withoutMetrics]
    have refinds : (Scope.withoutMetrics ⟨base, hops⟩ filters).Refinds
        (.withoutMetrics ⟨whole, hops⟩ filters) := grown.refinds_withoutMetrics
    refine (FilterLookup.atNode_follows refinds limit [] _).bind (fun state fine => ?_)
      fun _ _ => .refl _ _
    exact (Bool.or_eq_false_iff.mp ((FilterLookup.hasErrors_merge _ _).symm.trans fine)).2
  · obtain ⟨⟩ := extended.symm.trans (grown.ofQuery_follows none filters scope built)
    unfold FilterLookup.ofQuery
    rw [FilterLookup.ofScope_eq (Scope.ended_of_ofQuery built) fun node member =>
      grown.atKind_eq (Scope.isKnown_of_ofQuery built node member)]
    exact .refl _ _

end Manifest.Extends

/-! ## Requests -/

namespace Request

variable {scope other : Scope} {limit : Nat}

/-- An item added without errors leaves none behind and finds none. -/
theorem hasErrors_add {found : RequestedItems} {input : String} {resolution : Resolution}
    (fine : (found.add scope input resolution).issues.hasErrors = false) :
    found.issues.hasErrors = false ∧ resolution.issues.hasErrors = false := by
  rw [← Bool.or_eq_false_iff, ← Issues.hasErrors_append]
  simp only [RequestedItems.add] at fine
  split at fine
  · exact fine
  · split at fine
    · rw [Issues.hasErrors_append, Bool.or_eq_false_iff] at fine
      exact fine.1
    · exact fine

private theorem add_eq (refinds : scope.Refinds other) (found : RequestedItems) (input : String)
    (resolution : Resolution) :
    found.add other input resolution = found.add scope input resolution := by
  rw [RequestedItems.add, RequestedItems.add, refinds.step]

private theorem addItem_follows (refinds : scope.Refinds other) (found : RequestedItems)
    (input : String) :
    FollowsWhere (·.issues.hasErrors = false) (addItem scope limit found input)
      (addItem other limit found input) := by
  unfold addItem
  refine (FollowsWhere.refl (fun _ => True) _).bind (fun _ _ => trivial) fun result _ => ?_
  cases result with
  | error error => exact .refl _ _
  | ok reference =>
      refine .pure fun fine => ?_
      obtain ⟨_, resolved⟩ := hasErrors_add fine
      rw [Scope.hasErrors_resolve, Option.isNone_eq_false_iff] at resolved
      obtain ⟨item, isItem⟩ := Option.isSome_iff_exists.mp resolved
      rw [add_eq refinds, refinds.resolve _ _ _ item (Outcome.eq_resolved isItem)]

/-- An item that cannot be read is reported, any other is resolved in the scope. -/
theorem run_addItem (found : RequestedItems) (input : String) (memo : ReferenceMemo) :
    ((addItem scope limit found input).run memo).1 =
      match ((ReferenceMemo.read input).run memo).1 with
      | .error error => { found with
          issues := found.issues ++ [.error input [] (.badSyntax error.message)] }
      | .ok reference =>
        found.add scope input (scope.resolve limit (.ofReference reference) input) := by
  have read : ∀ next : Except ItemError ItemReference → StateM ReferenceMemo RequestedItems,
      ((ReferenceMemo.read input >>= next).run memo).1 =
        ((next ((ReferenceMemo.read input).run memo).1).run
          ((ReferenceMemo.read input).run memo).2).1 := fun _ => rfl
  rw [addItem, read]
  cases ((ReferenceMemo.read input).run memo).1 <;> rfl

private theorem hasErrors_of_addItem {found : RequestedItems} {input : String}
    {memo : ReferenceMemo}
    (fine : ((addItem scope limit found input).run memo).1.issues.hasErrors = false) :
    found.issues.hasErrors = false := by
  rw [run_addItem] at fine
  split at fine
  · rw [Issues.hasErrors_append, Bool.or_eq_false_iff] at fine
    exact fine.1
  · exact (hasErrors_add fine).1

/-- Only items that the scope offers are found. -/
theorem mem_items_of_addItem {found : RequestedItems}
    (offered : ∀ item ∈ found.items, item ∈ scope.items) (input : String)
    (memo : ReferenceMemo) :
    ∀ item ∈ ((addItem scope limit found input).run memo).1.items, item ∈ scope.items := by
  rw [run_addItem]
  split
  · exact offered
  · simp only [RequestedItems.add]
    split
    · exact offered
    · rename_i item isItem
      split
      · exact offered
      · obtain ⟨preferred, _⟩ := Scope.resolve_eq_resolved_iff.mp (Outcome.eq_resolved isItem)
        have found := (ItemPattern.mem_reachable.mp
          (ItemPattern.mem_matching.mp preferred.1).1).1
        exact List.forall_mem_append.mpr ⟨offered, List.forall_mem_singleton.mpr found⟩

private theorem requestedItems_follows (refinds : scope.Refinds other) (inputs : List String) :
    FollowsWhere (·.issues.hasErrors = false) (requestedItems scope limit inputs)
      (requestedItems other limit inputs) :=
  .foldlM (fun _ _ _ fine => hasErrors_of_addItem fine) (addItem_follows refinds) inputs _

private theorem mem_items_of_requestedItems (inputs : List String) (memo : ReferenceMemo) :
    ∀ item ∈ ((requestedItems scope limit inputs).run memo).1.items, item ∈ scope.items := by
  have each : ∀ (inputs : List String) (found : RequestedItems) (memo : ReferenceMemo),
      (∀ item ∈ found.items, item ∈ scope.items) →
        ∀ item ∈ ((inputs.foldlM (addItem scope limit) found).run memo).1.items,
          item ∈ scope.items := by
    intro inputs
    induction inputs with
    | nil => exact fun found memo offered => offered
    | cons input rest ih =>
        intro found memo offered
        rw [List.foldlM_cons]
        exact ih _ _ (mem_items_of_addItem offered input memo)
  exact each inputs ⟨[], []⟩ memo fun _ absent => nomatch absent

private theorem requestedOrder_eq (refinds : scope.Refinds other) {items : List GroupByItem}
    (offered : ∀ item ∈ items, item ∈ scope.items) (metrics : List MetricOutput)
    (inputs : List String) :
    requestedOrder other metrics items inputs = requestedOrder scope metrics items inputs := by
  rw [requestedOrder, requestedOrder, refinds.allowed items offered, refinds.step]

/-- What is made of the meaning of a request: the manifest does not count any more. -/
def conclude (request : Request) (requested : RequestedMetrics) (meaning : Meaning) :
    ExceptT QueryError (StateM ReferenceMemo) ResolvedQuery := do
  let issues := requested.warnings ++ meaning.issues
  if issues.hasErrors then throw (.unresolved issues)
  let location := FilterLocation.query requested.names
  let conditions ←
    Condition.ofTemplates ReferenceMemo.readCallout meaning.lookup location request.filters
  return {
    metrics := requested.names.map fun name => MetricOutput.mk name none
    groupBy := meaning.items
    filters := request.filters
    condition := Condition.all conditions
    lookup := meaning.lookup
    orderBy := meaning.order
    limit := request.limit
    warnings := issues.warnings }

private theorem hasErrors_eq_false_of_conclude {request : Request} {requested : RequestedMetrics}
    {meaning : Meaning} {memo : ReferenceMemo}
    (concluded : ((request.conclude requested meaning).run.run memo).1.isOk = true) :
    Issues.hasErrors (requested.warnings ++ meaning.issues) = false := by
  refine Bool.eq_false_iff.mpr fun failed => ?_
  rw [conclude, if_pos failed] at concluded
  exact nomatch concluded

/-- Resolving builds the scope, collects what it means and then the conditions or the errors. -/
theorem resolve_eq (catalog : Catalog) (settings : Settings) (request : Request) :
    request.resolve catalog settings =
      let limit := settings.resolution.maxSuggestions
      let requested := requestedMetrics catalog limit request.metrics
      if request.metrics.isEmpty && request.groupBy.isEmpty then throw .emptyRequest
      else if !requested.errors.isEmpty then throw (.unresolved requested.errors)
      else match Scope.ofQuery catalog requested.names request.filters with
        | .error error => throw error
        | .ok scope =>
          let metrics := requested.names.map fun name => MetricOutput.mk name none
          ExceptT.lift (meaning catalog limit scope metrics request) >>=
            request.conclude requested := by
  unfold resolve
  simp only
  split
  · rfl
  · split
    · rfl
    · cases Scope.ofQuery catalog (requestedMetrics catalog settings.resolution.maxSuggestions
          request.metrics).names request.filters with
      | error error => rfl
      | ok scope => rfl

end Request

namespace Manifest.Extends

variable {base further whole : Manifest} {hops limit : Nat}

open Request

private theorem meaning_follows (grown : base.Extends further whole) {names filters : List String}
    {scope other : Scope} (built : Scope.ofQuery ⟨base, hops⟩ names filters = .ok scope)
    (extended : Scope.ofQuery ⟨whole, hops⟩ names filters = .ok other)
    (refinds : scope.Refinds other) (metrics : List MetricOutput) (request : Request) :
    FollowsWhere (·.issues.hasErrors = false)
      (meaning ⟨base, hops⟩ limit scope metrics request)
      (meaning ⟨whole, hops⟩ limit other metrics request) := by
  unfold meaning
  have follows : FollowsWhere (fun found => found.issues.hasErrors = false ∧
        ∀ item ∈ found.items, item ∈ scope.items)
      (requestedItems scope limit request.groupBy) (requestedItems other limit request.groupBy) :=
    fun memo fine => requestedItems_follows refinds request.groupBy memo fine.1
  refine follows.bind (fun memo fine => ?_) fun found fine => ?_
  · have fine : Issues.hasErrors (_ ++ _ ++ _) = false := fine
    rw [Issues.hasErrors_append, Issues.hasErrors_append, Bool.or_eq_false_iff,
      Bool.or_eq_false_iff] at fine
    exact ⟨fine.1.1, mem_items_of_requestedItems _ memo⟩
  · refine (grown.lookup_follows built extended limit).bind (fun memo fine => ?_) fun lookup _ => ?_
    · have fine : Issues.hasErrors (_ ++ _ ++ _) = false := fine
      rw [Issues.hasErrors_append, Issues.hasErrors_append, FilterLookup.hasErrors_issues,
        Bool.or_eq_false_iff, Bool.or_eq_false_iff] at fine
      exact fine.1.2
    · rw [requestedOrder_eq refinds fine.2]
      exact .refl _ _

/-- Metrics all known before an extension mean the same behind it. -/
theorem requestedMetrics_eq (grown : base.Extends further whole) {inputs : List String}
    (known : (requestedMetrics ⟨base, hops⟩ limit inputs).errors = []) :
    requestedMetrics ⟨whole, hops⟩ limit inputs = requestedMetrics ⟨base, hops⟩ limit inputs := by
  rw [Request.requestedMetrics_eq] at known
  have isMetric := unknownMetrics_eq_nil_iff.mp known
  have stays : ∀ input ∈ inputs,
      ((Catalog.mk whole hops).metric? (Text.trim input)).isSome = true := by
    intro input asked
    obtain ⟨metric, defined⟩ := Option.isSome_iff_exists.mp (isMetric input asked)
    exact Option.isSome_iff_exists.mpr ⟨metric, grown.metric?_eq defined⟩
  have same : ∀ input ∈ inputs, (Catalog.mk whole hops).metricName? input =
      (Catalog.mk base hops).metricName? input := fun input asked =>
    (metricName?_eq_some (stays input asked)).trans
      (metricName?_eq_some (isMetric input asked)).symm
  rw [Request.requestedMetrics_eq, Request.requestedMetrics_eq, knownMetrics, knownMetrics,
    repeatedMetrics, repeatedMetrics, List.filterMap_congr same, repeats_congr same,
    unknownMetrics_eq_nil_iff.mpr stays, unknownMetrics_eq_nil_iff.mpr isMetric]

/-- A request that can be resolved is resolved to the same query. -/
theorem resolve_follows (grown : base.Extends further whole) (settings : Settings)
    (request : Request) :
    FollowsWhere (·.isOk = true) (request.resolve ⟨base, hops⟩ settings).run
      (request.resolve ⟨whole, hops⟩ settings).run := by
  rw [resolve_eq, resolve_eq]
  simp only
  by_cases asked : (request.metrics.isEmpty && request.groupBy.isEmpty) = true
  · rw [if_pos asked]
    exact .run_throw _ _
  rw [if_neg asked, if_neg asked]
  by_cases known : (requestedMetrics ⟨base, hops⟩ settings.resolution.maxSuggestions
      request.metrics).errors = []
  · rw [grown.requestedMetrics_eq known]
    generalize requestedMetrics ⟨base, hops⟩ settings.resolution.maxSuggestions request.metrics =
      requested at known ⊢
    simp only [known, List.isEmpty_nil, Bool.not_true, Bool.false_eq_true, if_false]
    cases built : Scope.ofQuery ⟨base, hops⟩ requested.names request.filters with
    | error error => exact .run_throw _ _
    | ok scope =>
        obtain ⟨other, extended, refinds⟩ := grown.exists_refinds built
        rw [extended]
        refine .run_lift_bind (grown.meaning_follows built extended refinds _ request)
          (fun meaning memo concluded => ?_) fun meaning => .refl _ _
        have fine := hasErrors_eq_false_of_conclude concluded
        rw [Issues.hasErrors_append, Bool.or_eq_false_iff] at fine
        exact fine.2
  · rw [if_pos (by simpa using known)]
    exact .run_throw _ _

/-- A request resolved before an extension resolves to the same query behind it. -/
theorem resolveAlone_follows (grown : base.Extends further whole) (settings : Settings)
    (request : Request) :
    Follows (request.resolveAlone ⟨base, hops⟩ settings)
      (request.resolveAlone ⟨whole, hops⟩ settings) := by
  intro query resolved
  have follows : FollowsWhere _ (request.resolve ⟨base, hops⟩ settings).run _ :=
    grown.resolve_follows settings request
  have same := follows (.empty settings.references.memoSize) (congrArg Except.isOk resolved)
  exact (congrArg Prod.fst same).trans resolved

end Manifest.Extends

end MetricQuery

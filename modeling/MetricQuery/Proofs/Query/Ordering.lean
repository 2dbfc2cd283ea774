import MetricQuery.Proofs.Answering
import MetricQuery.Proofs.Item.Naming
import MetricQuery.Proofs.Query.Extending
import MetricQuery.Proofs.Remembering
import MetricQuery.Proofs.Scope.Grains

/-! # Sorting by what is selected

What a request sorts by counts for nothing else that it means: if it is resolved without, then it is
resolved to the same query with any inputs to sort by that name something selected, and refused with
others (`Request.exists_orderedBy`).

The texts that a request selects by are read in another way where it sorts by them. A metric has to
be named without blanks around it, and a time dimension without a grain is looked up among the
selected items at all their grains, so that it is not found if it is selected at another grain as
well. Apart from that, what is sorted by is what was selected (`Request.sortsAlike_of_resolve`).
-/

namespace MetricQuery

/-! ## What is sorted by apart from all else -/

/-- A query with what some inputs sort by, if each of them names something selected. -/
def ResolvedQuery.orderedBy (query : ResolvedQuery) (scope : Scope) (inputs : List String) :
    Except QueryError ResolvedQuery :=
  let order := Request.order? query.metrics (GroupByItem.amongAllowed query.groupBy scope.items)
  let unselected := inputs.filter fun input => (order input).isNone
  if unselected.isEmpty then .ok { query with orderBy := inputs.filterMap order }
  else
    .error (.unresolved (query.warnings ++
      unselected.map (Request.notSelected scope query.metrics query.groupBy)))

/-- Whether a reference means an item alone among selected ones: it has a grain, or the item is not
selected at another grain as well. -/
def ItemReference.IsOnly (reference : ItemReference) (item : GroupByItem)
    (selected : List GroupByItem) : Prop :=
  reference.grain = none → ∀ other ∈ selected, Resolution.sameTime item other = true → other = item

namespace Request

open ReferenceMemo

/-- A request with other inputs to sort by. -/
def orderedBy (request : Request) (inputs : List String) : Request :=
  { request with orderBy := inputs }

variable {catalog : Catalog} {settings : Settings} {request : Request} {query : ResolvedQuery}
  {scope : Scope}

/-- What is made of the meaning of a request without a memo. -/
def concludeAlone (catalog : Catalog) (request : Request) (meaning : Meaning) :
    Except QueryError ResolvedQuery :=
  let issues := repeatedMetrics catalog request.metrics ++ meaning.issues
  if issues.hasErrors then .error (.unresolved issues)
  else do
    let conditions ← Dataflow.conditionsAt meaning.lookup
      (.query (knownMetrics catalog request.metrics)) (some request.filters)
    return request.answer catalog meaning conditions

private theorem conclude_ensures (request : Request) (errors : Issues) (meaning : Meaning) :
    Ensures (request.conclude ⟨knownMetrics catalog request.metrics,
      repeatedMetrics catalog request.metrics, errors⟩ meaning).run
      (· = request.concludeAlone catalog meaning) := by
  unfold conclude concludeAlone
  simp only
  split
  · exact .pure rfl
  · exact (Condition.ofTemplates_ensures request.filters).run_bind fun _ => .pure rfl

/-- With other inputs to sort by, a request means the same but for these. -/
theorem exists_meaning (catalog : Catalog) (limit : Nat) (scope : Scope)
    (metrics : List MetricOutput) (request : Request) :
    ∃ items lookup issues, ∀ inputs,
      Ensures (meaning catalog limit scope metrics (request.orderedBy inputs))
        (· = ⟨items, lookup,
          inputs.filterMap (order? metrics (GroupByItem.amongAllowed items scope.items)),
          issues ++ (inputs.filter fun input => (order? metrics
            (GroupByItem.amongAllowed items scope.items) input).isNone).map
              (notSelected scope metrics items)⟩) := by
  obtain ⟨found, collected⟩ := requestedItems_isSteady scope limit request.groupBy
  obtain ⟨lookup, gathered⟩ := FilterLookup.ofScope_isSteady catalog limit [] scope
  refine ⟨found.items, lookup, found.issues ++ lookup.issues, fun inputs => ?_⟩
  unfold meaning
  refine collected.bind fun _ same => same ▸ gathered.bind fun _ same => same ▸ ?_
  refine (requestedOrder_ensures inputs).bind ?_
  rintro ⟨order, unselected⟩ ⟨rfl, rfl⟩
  exact .pure rfl

/-- Without errors besides, it depends on the inputs to sort by alone what is concluded. -/
theorem concludeAlone_orderedBy {items : List GroupByItem} {lookup : FilterLookup}
    {issues : Issues}
    (ok : request.concludeAlone catalog ⟨items, lookup, [], issues⟩ = .ok query)
    (inputs : List String) {order : String → Option OrderItem}
    (sorts : order = order? query.metrics (GroupByItem.amongAllowed items scope.items)) :
    request.concludeAlone catalog ⟨items, lookup, inputs.filterMap order,
      issues ++ (inputs.filter fun input => (order input).isNone).map
        (notSelected scope query.metrics items)⟩ = query.orderedBy scope inputs := by
  unfold concludeAlone at ok ⊢
  simp only at ok ⊢
  split at ok
  · cases ok
  · rename_i fine
    rw [Bool.not_eq_true] at fine
    obtain ⟨conditions, rendered, ⟨⟩⟩ := bind_eq_ok.mp ok
    have warnings : Issues.warnings (repeatedMetrics catalog request.metrics ++ issues) =
        repeatedMetrics catalog request.metrics ++ issues :=
      List.filter_eq_self.mpr fun issue among => by
        rw [List.any_eq_false.mp fine issue among |> Bool.eq_false_iff.mpr]; rfl
    replace sorts : order? (request.answer catalog ⟨items, lookup, [], issues⟩ conditions).metrics
      (GroupByItem.amongAllowed (request.answer catalog ⟨items, lookup, [], issues⟩
        conditions).groupBy scope.items) = order := sorts.symm
    simp only [ResolvedQuery.orderedBy, sorts]
    cases unselected : inputs.filter fun input => (order input).isNone with
    | nil =>
        rw [List.map_nil, List.append_nil, if_neg (Bool.eq_false_iff.mp fine), rendered]
        rfl
    | cons first rest =>
        rw [← List.append_assoc, if_pos]
        · simp only [answer, warnings]
          rfl
        · rw [Issues.hasErrors_append, List.map_cons]
          exact Bool.or_eq_true_iff.mpr (.inr rfl)

/-- A request for known metrics concludes from what it means in their scope. -/
theorem resolve_ensures_concludeAlone (request : Request)
    (asked : request.metrics = [] → request.groupBy ≠ [])
    (known : unknownMetrics catalog settings.resolution.maxSuggestions request.metrics = [])
    (built : Scope.ofQuery catalog (knownMetrics catalog request.metrics) request.filters =
      .ok scope) {meaning : Meaning}
    (means : Ensures (Request.meaning catalog settings.resolution.maxSuggestions scope
      ((knownMetrics catalog request.metrics).map fun name => MetricOutput.mk name none) request)
      (· = meaning)) :
    Ensures (request.resolve catalog settings).run (· = request.concludeAlone catalog meaning) := by
  have some : ¬ (request.metrics.isEmpty && request.groupBy.isEmpty) = true := by
    rw [Bool.and_eq_true, List.isEmpty_iff, List.isEmpty_iff, not_and]
    exact asked
  rw [resolve_eq]
  simp only [requestedMetrics_eq, known, built, List.isEmpty_nil, Bool.not_true,
    Bool.false_eq_true, if_false, if_neg some]
  have lifted : Ensures (ExceptT.lift (Request.meaning catalog settings.resolution.maxSuggestions
      scope ((knownMetrics catalog request.metrics).map fun name => MetricOutput.mk name none)
      request) : ExceptT QueryError (StateM ReferenceMemo) Meaning).run (· = .ok meaning) := by
    refine (Ensures.lift means).imp fun result given => ?_
    obtain ⟨_, rfl, rfl⟩ := given
    rfl
  exact lifted.run_bind fun value => conclude_ensures request _ value

/-- If a request is resolved without anything to sort by, then it is resolved to the same query with
inputs to sort by that name something selected, and refused with others. -/
theorem exists_orderedBy {memo : ReferenceMemo} (filled : memo.Filled)
    (resolved : (((request.orderedBy []).resolve catalog settings).run.run memo).1 = .ok query) :
    ∃ scope, query.Answers catalog settings.resolution.maxSuggestions scope
        (request.orderedBy []) ∧
      ∀ inputs, Ensures ((request.orderedBy inputs).resolve catalog settings).run
        (· = query.orderedBy scope inputs) := by
  have ends : Resolves catalog settings.resolution.maxSuggestions (request.orderedBy []) _ :=
    (resolve_resolves (request.orderedBy []) settings memo filled).1
  rw [resolved] at ends
  cases ends with
  | @resolved scope meaning conditions asked means fine rendered =>
      refine ⟨scope, means.answers fine rendered, ?_⟩
      obtain ⟨items, lookup, issues, ensured⟩ := exists_meaning catalog
        settings.resolution.maxSuggestions scope
        ((knownMetrics catalog request.metrics).map fun name => MetricOutput.mk name none) request
      have concludes := fun inputs => resolve_ensures_concludeAlone (request.orderedBy inputs)
        asked means.known means.built (ensured inputs)
      have ok := (concludes [] memo filled).1
      simp only [resolved, List.filterMap_nil, List.filter_nil, List.map_nil,
        List.append_nil] at ok
      exact fun inputs => (concludes inputs).imp fun _ same =>
        same.trans (concludeAlone_orderedBy ok.symm inputs rfl)

/-! ## Sorting by what the request selects by -/

/-- The outputs of a request are its trimmed metrics. -/
theorem mem_outputs {name : String} :
    ⟨name, none⟩ ∈ request.outputs ↔ ∃ input ∈ request.metrics, Text.trim input = name := by
  simp only [outputs, List.mem_map, List.mem_eraseDups, MetricOutput.mk.injEq, and_true,
    exists_eq_right]

private theorem find?_outputs (request : Request) (name : String) :
    request.outputs.find? (·.metric == name) =
      if ⟨name, none⟩ ∈ request.outputs then some ⟨name, none⟩ else none := by
  split
  · rename_i selected
    have distinct : (request.outputs.map MetricOutput.metric).Nodup := by
      rw [map_metric_outputs]
      exact nodup_eraseDups _
    exact find?_eq_some_of_mem distinct selected
  · rename_i absent
    refine List.find?_eq_none.mpr fun output among same => absent ?_
    obtain ⟨_, _, rfl⟩ := List.mem_map.mp among
    rwa [← beq_iff_eq.mp same]

section

variable {reference : ItemReference} {item : GroupByItem} {selected : List GroupByItem}
  (preferred : Resolution.IsPreferred (.ofReference reference) scope.items item)
  (offered : ∀ other ∈ selected, other ∈ scope.items) (chosen : item ∈ selected)

include preferred offered chosen in
/-- Looked up among selected items is what was selected, with what it is confused with. -/
theorem mem_matching_amongAllowed {other : GroupByItem} :
    other ∈ (ItemPattern.ofReference reference).matching
        (GroupByItem.amongAllowed selected scope.items) ↔
      other ∈ selected ∧
        (other = item ∨ reference.grain = none ∧ Resolution.sameTime item other = true) := by
  have among : ∀ {rival : GroupByItem},
      rival ∈ GroupByItem.amongAllowed selected scope.items ↔ rival ∈ selected := by
    intro rival
    rw [GroupByItem.amongAllowed, List.mem_filter, List.contains_iff_mem]
    exact and_iff_right_of_imp (offered rival)
  rw [ItemPattern.mem_matching_of_subset (fun rival given => offered rival (among.mp given))
    preferred.1 (among.mpr chosen), among]
  exact and_congr_right fun given => preferred.mem_matching_iff (offered other given)

include preferred offered chosen in
private theorem orderItem?_of_isOnly (only : reference.IsOnly item selected) (descending : Bool) :
    orderItem? (GroupByItem.amongAllowed selected scope.items) descending reference =
      some ⟨.item item, reference.descending.getD descending⟩ := by
  have single : (ItemPattern.ofReference reference).matching
      (GroupByItem.amongAllowed selected scope.items) = [item] := by
    have distinct : (GroupByItem.amongAllowed selected scope.items).Nodup :=
      (nodup_sortedDistinct _).filter _
    refine List.perm_singleton.mp ((List.perm_ext_iff_of_nodup
      (ItemPattern.nodup_matching distinct) (List.nodup_singleton item)).mpr fun other => ?_)
    rw [mem_matching_amongAllowed preferred offered chosen, List.mem_singleton]
    constructor
    · rintro ⟨given, rfl | ⟨free, same⟩⟩
      · rfl
      · exact only free other given same
    · rintro rfl
      exact ⟨chosen, .inl rfl⟩
  rw [orderItem?, single]

include preferred offered chosen in
private theorem orderItem?_of_not_isOnly (several : ¬ reference.IsOnly item selected)
    (descending : Bool) :
    orderItem? (GroupByItem.amongAllowed selected scope.items) descending reference = none := by
  simp only [ItemReference.IsOnly, not_forall] at several
  obtain ⟨free, other, given, same, different⟩ := several
  unfold orderItem?
  split
  · rename_i found single
    have both : ∀ rival ∈ [item, other], rival = found := by
      intro rival among
      rw [← List.mem_singleton, ← single, mem_matching_amongAllowed preferred offered chosen]
      rcases List.mem_cons.mp among with rfl | last
      · exact ⟨chosen, .inl rfl⟩
      · rw [List.mem_singleton.mp last]
        exact ⟨given, .inr ⟨free, same⟩⟩
    exact (different ((both other (by simp)).trans (both item (by simp)).symm)).elim
  · rfl

end

/-- Whether a request that is resolved to a query is resolved to the same query sorted in some order
if it sorts by an input. -/
def SortsBy (catalog : Catalog) (settings : Settings) (request : Request) (query : ResolvedQuery)
    (input : String) (order : OrderItem) : Prop :=
  Ensures ((request.orderedBy [input]).resolve catalog settings).run
    (· = .ok { query with orderBy := [order] })

/-- Whether a request that is resolved to a query is refused since an input names nothing that is
selected if it sorts by this input. -/
def RefusesToSort (catalog : Catalog) (settings : Settings) (request : Request) (scope : Scope)
    (query : ResolvedQuery) (input : String) : Prop :=
  Ensures ((request.orderedBy [input]).resolve catalog settings).run (· = .error (.unresolved
    (query.warnings ++ [notSelected scope query.metrics query.groupBy input])))

/-- How a request that is resolved to a query sorts by an input that has some name, perhaps behind a
minus. -/
structure SortsAlike (catalog : Catalog) (settings : Settings) (request : Request) (scope : Scope)
    (query : ResolvedQuery) (name : String) (descending : Bool) (input : String) : Prop where
  /-- By the metric of the name, if it is selected. -/
  metric : ⟨name, none⟩ ∈ query.metrics →
    request.SortsBy catalog settings query input ⟨.metric ⟨name, none⟩, descending⟩
  /-- Else by the item that the name selects, unless it is selected at another grain as well and the
  name has none. -/
  item : ⟨name, none⟩ ∉ query.metrics → name ∈ request.groupBy → ∃ reference item,
    ItemReference.read name = .ok reference ∧
    scope.itemOf? settings.resolution.maxSuggestions name = some item ∧ item ∈ query.groupBy ∧
    (reference.IsOnly item query.groupBy → request.SortsBy catalog settings query input
      ⟨.item item, reference.descending.getD descending⟩) ∧
    (¬ reference.IsOnly item query.groupBy →
      request.RefusesToSort catalog settings scope query input)
  /-- A name that selects a metric has blanks around it or is that of the metric. -/
  trimmed : name ∈ request.metrics → ⟨Text.trim name, none⟩ ∈ query.metrics ∧
    (⟨name, none⟩ ∈ query.metrics ↔ Text.trim name = name)
  /-- By no metric, if the name is not that of a metric that is selected. -/
  otherwise : ⟨name, none⟩ ∉ query.metrics → ∀ order,
    request.SortsBy catalog settings query input order →
      ∃ item ∈ query.groupBy, order.content = .item item

section

variable {input name : String} {descending : Bool}

private theorem order?_eq (request : Request) (cut : cutMinus input = (name, descending))
    (allowed : List GroupByItem) : order? request.outputs allowed input =
      if ⟨name, none⟩ ∈ request.outputs then some ⟨.metric ⟨name, none⟩, descending⟩
      else match ItemReference.read name with
        | .error _ => none
        | .ok reference => orderItem? allowed descending reference := by
  simp only [order?, cut, find?_outputs]
  by_cases selected : ⟨name, none⟩ ∈ request.outputs
  · simp only [if_pos selected]
  · cases ItemReference.read name <;> simp only [if_neg selected]

variable (ends : Ensures ((request.orderedBy [input]).resolve catalog settings).run
  (· = query.orderedBy scope [input]))

include ends in
/-- What an order-by input sorts by is what it means among the selected contents. -/
theorem sortsBy_iff {order : OrderItem} : request.SortsBy catalog settings query input order ↔
    order? query.metrics (GroupByItem.amongAllowed query.groupBy scope.items) input =
      some order := by
  have single : query.orderedBy scope [input] = .ok { query with orderBy := [order] } ↔
      order? query.metrics (GroupByItem.amongAllowed query.groupBy scope.items) input =
        some order := by
    unfold ResolvedQuery.orderedBy
    cases sorts : order? query.metrics (GroupByItem.amongAllowed query.groupBy scope.items) input
    · simp [sorts]
    · simp [sorts]
  rw [← single]
  exact ⟨fun given => (ends _ (.empty 0)).1.symm.trans (given _ (.empty 0)).1,
    fun same => ends.imp fun _ given => given.trans same⟩

include ends in
private theorem refusesToSort (unselected : order? query.metrics
    (GroupByItem.amongAllowed query.groupBy scope.items) input = none) :
    request.RefusesToSort catalog settings scope query input := by
  refine ends.imp fun result given => given.trans ?_
  simp [ResolvedQuery.orderedBy, unselected]

variable (answers : query.Answers catalog settings.resolution.maxSuggestions scope
  (request.orderedBy []))

/-- A name that means an item is read, and that item is preferred for it. -/
theorem exists_of_itemOf? {limit : Nat} {item : GroupByItem}
    (means : scope.itemOf? limit name = some item) :
    ∃ reference, ItemReference.read name = .ok reference ∧
      Resolution.IsPreferred (.ofReference reference) scope.items item := by
  unfold Scope.itemOf? at means
  split at means
  · cases means
  · rename_i reference read
    exact ⟨reference, read, (Scope.resolve_eq_resolved_iff.mp (Outcome.eq_resolved means)).1⟩

include answers in
private theorem mem_items_of_answers : ∀ other ∈ query.groupBy, other ∈ scope.items := by
  obtain ⟨items, alike, grouped⟩ := answers.groupBy
  intro other selected
  rw [grouped, List.mem_eraseDups] at selected
  obtain ⟨_, _, means⟩ := exists_left_of_forall₂ alike selected
  obtain ⟨_, _, preferred⟩ := exists_of_itemOf? means
  exact (ItemPattern.mem_reachable.mp (ItemPattern.mem_matching.mp preferred.1).1).1

include ends answers in
theorem sortsAlike (cut : cutMinus input = (name, descending)) :
    request.SortsAlike catalog settings scope query name descending input := by
  have metrics : query.metrics = request.outputs := answers.metrics
  have sorts := order?_eq request cut
    (GroupByItem.amongAllowed query.groupBy scope.items)
  rw [← metrics] at sorts
  constructor
  case metric =>
    intro selected
    rw [sortsBy_iff ends, sorts, if_pos selected]
  case item =>
    intro absent asked
    obtain ⟨items, alike, grouped⟩ := answers.groupBy
    obtain ⟨item, among, means⟩ := exists_right_of_forall₂ alike asked
    obtain ⟨reference, read, preferred⟩ := exists_of_itemOf? means
    have chosen : item ∈ query.groupBy := grouped ▸ List.mem_eraseDups.mpr among
    have offered := mem_items_of_answers answers
    simp only [if_neg absent, read] at sorts
    refine ⟨reference, item, read, means, chosen, fun only => ?_, fun several => ?_⟩
    · rw [sortsBy_iff ends, sorts]
      exact orderItem?_of_isOnly preferred offered chosen only descending
    · refine refusesToSort ends (sorts.trans ?_)
      exact orderItem?_of_not_isOnly preferred offered chosen several descending
  case trimmed =>
    intro asked
    rw [metrics, mem_outputs, mem_outputs]
    refine ⟨⟨name, asked, rfl⟩, fun selected => ?_, fun same => ⟨name, asked, same⟩⟩
    obtain ⟨other, _, rfl⟩ := selected
    exact Text.trim_trim other
  case otherwise =>
    intro absent order given
    rw [sortsBy_iff ends, sorts, if_neg absent] at given
    split at given
    · cases given
    · obtain ⟨item, inside, same⟩ := mem_of_orderItem? given
      exact ⟨item, List.contains_iff_mem.mp (List.mem_filter.mp inside).2, same⟩

end

private theorem cutMinus_minus (name : String) : cutMinus ("-" ++ name) = (name, true) := by
  rw [cutMinus, String.toList_append]
  exact congrArg (·, true) (String.ofList_toList)

private theorem cutMinus_eq_self {name : String} (plain : name.toList.head? ≠ some '-') :
    cutMinus name = (name, false) := by
  unfold cutMinus
  split
  · rename_i rest split
    exact (plain (by rw [split]; rfl)).elim
  · rfl

/-- If a request is resolved without anything to sort by, then each name that it selects by, behind
a minus or without one, sorts the same query by what it selects, except for a metric with blanks
around its name and for a time dimension without a grain that is selected at several grains. -/
theorem sortsAlike_of_resolve {memo : ReferenceMemo} (filled : memo.Filled)
    (resolved : (((request.orderedBy []).resolve catalog settings).run.run memo).1 = .ok query) :
    ∃ scope, query.Answers catalog settings.resolution.maxSuggestions scope
        (request.orderedBy []) ∧
      ∀ name, request.SortsAlike catalog settings scope query name true ("-" ++ name) ∧
        (name.toList.head? ≠ some '-' →
          request.SortsAlike catalog settings scope query name false name) := by
  obtain ⟨scope, answers, ends⟩ := exists_orderedBy filled resolved
  refine ⟨scope, answers, fun name => ⟨?_, fun plain => ?_⟩⟩
  · exact sortsAlike (ends _) answers (cutMinus_minus name)
  · exact sortsAlike (ends _) answers (cutMinus_eq_self plain)

/-- The revenue by the time of the metric, at some grains. -/
def timelyRequest (times : List String) : Request := ⟨["revenue"], times, [], [], none⟩

/-- The revenue by day is sorted by day, the last one first. -/
theorem sortsBy_metric_time : ∃ query,
    ((((timelyRequest ["metric_time"]).orderedBy []).resolve (Scope.pacedCatalog .day)
      .standard).run.run (.empty 4)).1 = .ok query ∧
    query.groupBy = [.timeDimension "metric_time" [] .day none] ∧
    (timelyRequest ["metric_time"]).SortsBy (Scope.pacedCatalog .day) .standard query
      "-metric_time" ⟨.item (.timeDimension "metric_time" [] .day none), true⟩ := by
  have checked : ((((timelyRequest ["metric_time"]).orderedBy []).resolve (Scope.pacedCatalog .day)
      .standard).run.run (.empty 4)).1.toOption.any (fun query =>
        query.metrics == [⟨"revenue", none⟩] &&
          query.groupBy == [.timeDimension "metric_time" [] .day none]) = true := by decide +kernel
  obtain ⟨query, resolved, checked⟩ := (Option.any_eq_true _ _).mp checked
  rw [toOption_eq_some] at resolved
  simp only [Bool.and_eq_true, beq_iff_eq] at checked
  obtain ⟨metrics, grouped⟩ := checked
  obtain ⟨scope, -, alike⟩ := sortsAlike_of_resolve (.empty 4) resolved
  obtain ⟨reference, item, read, -, chosen, sorts, -⟩ :=
    (alike "metric_time").1.item (by rw [metrics]; decide) List.mem_cons_self
  have undirected : reference.descending = none := by
    obtain ⟨⟩ := (rfl : ItemReference.read "metric_time" = .ok (.ofName ⟨[], "metric_time", none,
      none⟩)).symm.trans read
    rfl
  rw [grouped, List.mem_singleton] at chosen
  rw [grouped, chosen, undirected] at sorts
  exact ⟨query, resolved, grouped, sorts fun _ _ given _ => List.mem_singleton.mp given⟩

/-- The revenue by day and month cannot be sorted by the very name that selects the day. -/
theorem not_sortsBy_metric_time : ∃ query,
    ((((timelyRequest ["metric_time", "metric_time__month"]).orderedBy []).resolve
      (Scope.pacedCatalog .day) .standard).run.run (.empty 4)).1 = .ok query ∧
    query.groupBy = [.timeDimension "metric_time" [] .day none,
      .timeDimension "metric_time" [] .month none] ∧
    ∀ input ∈ ["metric_time", "-metric_time"],
      ((((timelyRequest ["metric_time", "metric_time__month"]).orderedBy [input]).resolve
        (Scope.pacedCatalog .day) .standard).run.run (.empty 4)).1.isOk = false := by
  have checked : ((((timelyRequest ["metric_time", "metric_time__month"]).orderedBy []).resolve
      (Scope.pacedCatalog .day) .standard).run.run (.empty 4)).1.toOption.any (fun query =>
        query.groupBy == [.timeDimension "metric_time" [] .day none,
          .timeDimension "metric_time" [] .month none]) = true := by decide +kernel
  obtain ⟨query, resolved, grouped⟩ := (Option.any_eq_true _ _).mp checked
  exact ⟨query, toOption_eq_some.mp resolved, eq_of_beq grouped, by decide +kernel⟩

end Request

end MetricQuery

import MetricQuery.Proofs.Compiling
import MetricQuery.Proofs.Scope.Grounding

/-! # Requests are answered or refused with all their errors

If the metrics of a manifest are grounded, then a request that asks for something is answered, or it
is refused with a report of everything that is wrong with it (`Request.resolve_answers`). An answer
has what the inputs of the request mean, each once and in their order, and a warning for each input
that means what an earlier one means.
-/

namespace MetricQuery

/-- What a report says about an issue, under titles: the input, the nodes on the path to it if there
are any, what is wrong, and the names that are listed with this if there are any. -/
def Issue.sections (issue : Issue) : List (String × String) :=
  [("Query Input", issue.input)] ++
    (if issue.path = [] then [] else [("Issue Location", String.intercalate " -> "
      (issue.path.map fun step => "[Resolve " ++ step.description ++ "]"))]) ++
    [("Message", issue.kind.message)] ++
    (issue.kind.listed.toList.filter (·.2 ≠ [])).map fun listed =>
      (listed.1, "[" ++ String.intercalate ", " (listed.2.map Text.quoted) ++ "]")

/-- Whether an error reports some issues: each of them has an entry, which begins with its number,
counted from one, and goes on with what is said about the issue. -/
def QueryError.Lists (error : QueryError) (issues : Issues) : Prop :=
  error.sort = .invalidQuery ∧ error.detail = "Got errors while resolving the query." ++
    String.join (issues.zipIdx.map fun numbered =>
      "\n\nError #" ++ Text.decimal (numbered.2 + 1) ++ ":" ++
        String.join (numbered.1.sections.map fun said => "\n  " ++ said.1 ++ ":\n    " ++ said.2))

namespace Issues

/-- What an entry lists below its message is its last section. -/
theorem listedText_eq (issue : Issue) :
    listedText issue = String.join (((issue.kind.listed.toList.filter (·.2 ≠ [])).map fun listed =>
      (listed.1, "[" ++ String.intercalate ", " (listed.2.map Text.quoted) ++ "]")).map
        fun said => "\n  " ++ said.1 ++ ":\n    " ++ said.2) := by
  rw [listedText]
  rcases issue.kind.listed with _ | ⟨title, _ | ⟨first, rest⟩⟩
  · rfl
  · rfl
  · simp only [Option.toList_some, ne_eq, reduceCtorEq, not_false_eq_true, decide_true,
      List.filter_cons_of_pos, List.filter_nil, List.map_cons, List.map_nil, String.join_cons,
      String.join_nil, String.append_empty]
    rfl

/-- An entry goes through what is said about its issue. -/
theorem entry_eq (number : Nat) (issue : Issue) :
    entry number issue = "\n\nError #" ++ Text.decimal number ++ ":" ++
      String.join (issue.sections.map fun said => "\n  " ++ said.1 ++ ":\n    " ++ said.2) := by
  have digits : Text.Record.text number = Text.decimal number := rfl
  simp only [Issue.sections, List.map_append, String.join_append, ← listedText_eq]
  cases path : issue.path with
  | nil =>
      simp only [entry, path, digits, paragraph, List.isEmpty_nil, if_true, List.map_cons,
        List.map_nil, String.join_cons, String.join_nil, String.append_empty, String.append_assoc]
  | cons step rest =>
      simp only [entry, path, digits, paragraph, ScopePath.text, List.isEmpty_cons,
        Bool.false_eq_true, if_false, reduceCtorEq, List.map_cons, List.map_nil, String.join_cons,
        String.join_nil, String.append_empty, String.append_assoc]

end Issues

namespace QueryError.Lists

/-- A request that is refused for its issues reports their errors. -/
theorem unresolved (issues : Issues) : (QueryError.unresolved issues).Lists issues.errors := by
  refine ⟨rfl, ?_⟩
  simp only [← Issues.entry_eq]
  rfl

private theorem of_forall_isError {issues : Issues} (all : ∀ issue ∈ issues, issue.isError = true) :
    (QueryError.unresolved issues).Lists issues := by
  have lists := unresolved issues
  rwa [Issues.errors_eq_self all] at lists

end QueryError.Lists

/-- The metrics that a request asks for, each once and under its own name. -/
def Request.outputs (request : Request) : List MetricOutput :=
  (request.metrics.map Text.trim).eraseDups.map fun name => MetricOutput.mk name none

/-- All that is wrong with a request: unknown metrics, or else whatever is wrong with its references
to items, in its filters and in those of its metrics, and with what it sorts by. -/
inductive Request.Errs (catalog : Catalog) (limit : Nat) (request : Request) : Issues → Prop where
  | metrics {input : String} (asked : input ∈ request.metrics)
      (unknown : catalog.metric? (Text.trim input) = none) :
      request.Errs catalog limit (unknownMetrics catalog limit request.metrics)
  | references {scope : Scope} {items : List GroupByItem} {lookup : FilterLookup}
      (known : ∀ input ∈ request.metrics, (catalog.metric? (Text.trim input)).isSome = true)
      (built : Scope.ofQuery catalog (request.outputs.map MetricOutput.metric) request.filters =
        .ok scope)
      (selected : items = (request.groupBy.filterMap (scope.itemOf? limit)).eraseDups)
      (gathers : FilterLookup.Gathers catalog limit lookup scope.placed)
      (findings : lookup.findings.Nodup) (unreadable : lookup.unreadable.Nodup) :
      request.Errs catalog limit (request.groupBy.flatMap (scope.issuesOf limit) ++
        (lookup.findings.flatMap (·.issues) ++ lookup.unreadable.flatMap (·.issues)) ++
        (request.orderBy.filter fun input => (order? request.outputs
          (GroupByItem.amongAllowed items scope.items) input).isNone).map
            (notSelected scope request.outputs items))

/-- Whether a query has what a request asks for in a scope. -/
structure ResolvedQuery.Answers (catalog : Catalog) (limit : Nat) (scope : Scope)
    (request : Request) (query : ResolvedQuery) : Prop where
  known : ∀ input ∈ request.metrics, (catalog.metric? (Text.trim input)).isSome = true
  built : Scope.ofQuery catalog (query.metrics.map MetricOutput.metric) query.filters = .ok scope
  metrics : query.metrics = request.outputs
  groupBy : ∃ items, List.Forall₂ (fun input item => scope.itemOf? limit input = some item)
    request.groupBy items ∧ query.groupBy = items.eraseDups
  distinct : query.metrics.Nodup ∧ query.groupBy.Nodup
  offered : ∀ item ∈ query.groupBy, ∀ output ∈ query.metrics, catalog.Offers output.metric item
  orderBy : List.Forall₂ (fun input order => Request.order? query.metrics
      (GroupByItem.amongAllowed query.groupBy scope.items) input = some order ∧
      Request.IsSelected query.metrics query.groupBy order.content) request.orderBy query.orderBy
  warnings : query.warnings = Request.repeatedMetrics catalog request.metrics ++
    (repeats (scope.itemOf? limit) request.groupBy).map fun again =>
      Request.repeatedItem scope again.1 again.2
  counted : query.metrics.length + query.groupBy.length + query.warnings.length =
    request.metrics.length + request.groupBy.length
  gathers : FilterLookup.Gathers catalog limit query.lookup scope.placed
  fine : query.lookup.hasErrors = false
  rendered : ∃ conditions,
    Dataflow.conditionsAt query.lookup query.location query.filters = .ok conditions ∧
      query.condition = Condition.all conditions
  filters : query.filters = request.filters
  limited : query.limit = request.limit

namespace Request

variable {catalog : Catalog} {limit : Nat} {scope : Scope}

private theorem exists_unknown {inputs : List String}
    (some : unknownMetrics catalog limit inputs ≠ []) :
    ∃ input ∈ inputs, catalog.metric? (Text.trim input) = none := by
  obtain ⟨input, asked, unknown⟩ : ∃ input ∈ inputs,
      ¬ (catalog.metric? (Text.trim input)).isSome = true := by
    simpa using mt unknownMetrics_eq_nil_iff.mpr some
  exact ⟨input, asked, Option.not_isSome_iff_eq_none.mp unknown⟩

variable {request : Request} {meaning : Meaning}

/-- The outputs of a request are for the names that it asks for, trimmed and each once. -/
theorem map_metric_outputs :
    request.outputs.map MetricOutput.metric = (request.metrics.map Text.trim).eraseDups := by
  rw [outputs, List.map_map]
  exact List.map_id _

/-- If all metrics are known then they are those that the inputs name. -/
theorem Means.knownMetrics_eq (means : request.Means catalog limit scope meaning) :
    knownMetrics catalog request.metrics = (request.metrics.map Text.trim).eraseDups := by
  rw [knownMetrics, filterMap_metricName? (unknownMetrics_eq_nil_iff.mp means.known)]

/-- What is collected for a request is collected for its outputs. -/
theorem Means.collects_outputs (means : request.Means catalog limit scope meaning) :
    meaning.Collects catalog limit scope request.outputs request := by
  rw [outputs, ← means.knownMetrics_eq]
  exact means.collects

/-- The scope of a request is that of its outputs. -/
theorem Means.built_outputs (means : request.Means catalog limit scope meaning) :
    Scope.ofQuery catalog (request.outputs.map MetricOutput.metric) request.filters =
      .ok scope := by
  rw [map_metric_outputs, ← means.knownMetrics_eq]
  exact means.built

private theorem Means.errs (means : request.Means catalog limit scope meaning) :
    request.Errs catalog limit
      (repeatedMetrics catalog request.metrics ++ meaning.issues).errors := by
  have collects := means.collects_outputs
  rw [Issues.errors_append, (Issues.errors_eq_nil_iff _).mpr (hasErrors_repeatedMetrics _),
    List.nil_append, collects.errors]
  exact .references (unknownMetrics_eq_nil_iff.mp means.known) means.built_outputs collects.items
    collects.gathers collects.findings collects.unreadable

/-- There are warnings about metrics and then about items that are asked for again. -/
theorem Means.warnings_eq (means : request.Means catalog limit scope meaning) :
    (repeatedMetrics catalog request.metrics ++ meaning.issues).warnings =
      repeatedMetrics catalog request.metrics ++
        (repeats (scope.itemOf? limit) request.groupBy).map fun again =>
          repeatedItem scope again.1 again.2 := by
  rw [Issues.warnings_append, means.collects.warnings]
  refine congrArg (· ++ _) (List.filter_eq_self.mpr fun issue reported => ?_)
  rw [isError_of_mem_repeatedMetrics reported]
  rfl

/-- There is one warning for each input that means what an earlier one means. -/
theorem Means.counted (means : request.Means catalog limit scope meaning)
    (fine : meaning.issues.hasErrors = false) :
    request.outputs.length + meaning.items.length +
        (repeatedMetrics catalog request.metrics ++ meaning.issues).warnings.length =
      request.metrics.length + request.groupBy.length := by
  have named := length_repeats catalog.metricName? request.metrics
  have listed := length_repeats (scope.itemOf? limit) request.groupBy
  have each := (forall₂_filterMap (means.collects.of_hasErrors fine).1).length_eq
  rw [filterMap_metricName? (unknownMetrics_eq_nil_iff.mp means.known), List.length_map] at named
  rw [← means.collects.items, ← each] at listed
  rw [means.warnings_eq, outputs, repeatedMetrics, List.length_append, List.length_map,
    List.length_map, List.length_map]
  omega

/-- What all references of a request mean together answers it. -/
theorem Means.answers (means : request.Means catalog limit scope meaning)
    (fine : meaning.issues.hasErrors = false) {conditions : List Condition}
    (rendered : Dataflow.conditionsAt meaning.lookup
      (.query (knownMetrics catalog request.metrics)) (.some request.filters) = .ok conditions) :
    (request.answer catalog meaning conditions).Answers catalog limit scope request := by
  have collects := means.collects_outputs
  have sound := collects.isSound means.built_outputs fine
  obtain ⟨grouped, filtered, ordered⟩ := collects.of_hasErrors fine
  have same : (request.answer catalog meaning conditions).metrics = request.outputs := by
    rw [answer, means.knownMetrics_eq, outputs]
  have kind : scope.kind.metrics = request.outputs.map MetricOutput.metric := by
    rw [Scope.kind_of_ofQuery means.built_outputs]
    rfl
  constructor
  case known => exact unknownMetrics_eq_nil_iff.mp means.known
  case built => exact same ▸ means.built_outputs
  case metrics => exact same
  case groupBy => exact ⟨_, forall₂_filterMap grouped, collects.items⟩
  case distinct =>
    have once : meaning.items.Nodup := collects.items ▸ nodup_eraseDups _
    refine ⟨same ▸ (nodup_eraseDups _).map fun _ _ same => ?_, once⟩
    injection same
  case offered =>
    intro item selected output asked
    rw [same] at asked
    exact sound.grouped item selected output.metric (kind ▸ List.mem_map_of_mem asked)
  case orderBy =>
    rw [same]
    change List.Forall₂ _ _ meaning.order
    rw [collects.order]
    exact (forall₂_filterMap ordered).imp fun _ _ sorts => ⟨sorts, isSelected_of_order? sorts⟩
  case warnings => exact means.warnings_eq
  case counted => exact same ▸ means.counted fine
  case gathers => exact collects.gathers
  case fine => exact filtered
  case rendered =>
    refine ⟨conditions, ?_, rfl⟩
    rw [ResolvedQuery.location, same, map_metric_outputs, ← means.knownMetrics_eq]
    exact rendered
  case filters => rfl
  case limited => rfl

/-- A request that asks for something is answered, or it is refused with a report of everything that
is wrong with it. -/
theorem resolve_answers (grounded : catalog.IsGrounded)
    (asked : request.metrics ≠ [] ∨ request.groupBy ≠ []) (settings : Settings)
    {memo : ReferenceMemo} (filled : memo.Filled) :
    (∃ error issues, ((request.resolve catalog settings).run.run memo).1 = .error error ∧
      error.Lists issues ∧ issues ≠ [] ∧
        request.Errs catalog settings.resolution.maxSuggestions issues) ∨
    ∃ query scope, ((request.resolve catalog settings).run.run memo).1 = .ok query ∧
      query.Answers catalog settings.resolution.maxSuggestions scope request := by
  have resolves : Resolves catalog settings.resolution.maxSuggestions request _ :=
    (resolve_resolves request settings memo filled).1
  generalize ((request.resolve catalog settings).run.run memo).1 = result at resolves ⊢
  cases resolves with
  | empty metrics groupBy => exact (asked.elim (· metrics) (· groupBy)).elim
  | unknown some =>
      obtain ⟨input, asked, unknown⟩ := exists_unknown some
      refine .inl ⟨_, _, rfl, .of_forall_isError fun _ => ?_, some, .metrics asked unknown⟩
      exact isError_of_mem_unknownMetrics
  | unscoped known failed =>
      -- Only a metric that lacks an input or is computed from itself has no scope.
      obtain ⟨scope, built⟩ := Scope.exists_ofQuery grounded
        (fun _ => isSome_of_mem_knownMetrics) request.filters
      exact nomatch failed.symm.trans built
  | reported means failed =>
      refine .inl ⟨_, _, rfl, .unresolved _, ?_, means.errs⟩
      rw [← Issues.hasErrors_iff_errors_ne_nil, Issues.hasErrors_append, failed, Bool.or_true]
  | unrendered means fine failed =>
      -- Whatever filters refer to was looked up, and would have been reported.
      obtain ⟨conditions, rendered⟩ := means.exists_conditionsAt fine
      exact nomatch failed.symm.trans rendered
  | resolved _ means fine rendered => exact .inr ⟨_, _, rfl, means.answers fine rendered⟩

/-- In the shop, metrics are computed from others that are not. -/
theorem isGrounded_shopCatalog : shopCatalog.IsGrounded :=
  Catalog.isGrounded_of_shallow (by decide +kernel) (by decide +kernel) (by decide +kernel)

/-- The yield by region, with everything asked for twice. -/
def insistentRequest : Request :=
  ⟨[" yield", "yield"], ["customer__region", "Dimension('customer__region')"],
    ["\x7b\x7b Metric('revenue', group_by=['customer']) \x7d\x7d > 10"],
    ["-yield", "customer__region"], some 10⟩

/-- Asked for everything twice, the shop answers once, with two warnings. -/
theorem resolve_answers_insistent : ∃ query scope,
    ((insistentRequest.resolve shopCatalog .standard).run.run (.empty 4)).1 = .ok query ∧
      query.Answers shopCatalog 6 scope insistentRequest ∧
      query.metrics = [⟨"yield", none⟩] ∧ query.groupBy = [.dimension "region" ["customer"]] ∧
      query.warnings.length = 2 := by
  have checked : ((insistentRequest.resolve shopCatalog .standard).run.run
      (.empty 4)).1.toOption.any (fun query => query.metrics == [⟨"yield", none⟩] &&
        query.groupBy == [.dimension "region" ["customer"]] &&
          query.warnings.length == 2) = true := by decide +kernel
  obtain ⟨error, _, failed, _⟩ | ⟨query, scope, resolved, answers⟩ :=
    resolve_answers isGrounded_shopCatalog (.inl (List.cons_ne_nil _ _) :
      insistentRequest.metrics ≠ [] ∨ insistentRequest.groupBy ≠ []) .standard (.empty 4)
  · rw [failed] at checked
    cases checked
  · rw [resolved] at checked
    simp only [Except.toOption, Option.any_some, Bool.and_eq_true, beq_iff_eq] at checked
    exact ⟨query, scope, resolved, answers, checked.1.1, checked.1.2, checked.2⟩

end Request

end MetricQuery

import MetricQuery.Filter.Lookup
import MetricQuery.Filter.Template
import MetricQuery.Item.Memo
import MetricQuery.Scope.Building

/-! # Looking up the items of filters

Goes through the scope of a query and finds out, at each node that declares filters, what the
references in them mean there. Where something fails, the successes found at the same node are
dropped, so that only failures are reported.
-/

namespace MetricQuery

/-- The filters declared at one location. -/
structure LocatedFilters where
  location : FilterLocation
  /-- Their templates, each once. -/
  templates : List String
  deriving DecidableEq

namespace LocatedFilters

/-- The filters of a metric itself: those of its input measure, then its own. -/
def ofMetric (metric : Metric) : List String :=
  let ofMeasures := metric.inputMeasures.flatMap fun input => input.filter.getD []
  ofMeasures ++ metric.filter.getD []

/-- The filters declared at a node, by location. -/
def atKind (catalog : Catalog) : ScopeKind → List LocatedFilters
  | .measure _ => []
  | .noMetrics => []
  | .query metrics filters => [⟨.query metrics, filters.eraseDups⟩]
  | .metric name place =>
    match catalog.metric? name with
    | none => []
    | some metric =>
      let own := ofMetric metric
      let ofConsumer := (place.bind (·.input? catalog)).bind InputMetric.filter
      (if own.isEmpty then [] else [⟨.metric name, own.eraseDups⟩]) ++
        (ofConsumer.map fun filters => ⟨.inputMetric name, filters.eraseDups⟩).toList

end LocatedFilters

namespace FilterLookup

/-- Reads references one after the other, up to the first that cannot be read. -/
def readCallouts : List String → StateM ReferenceMemo (Except ItemError (List ItemReference))
  | [] => pure (.ok [])
  | callout :: rest => do
    match ← ReferenceMemo.readCallout callout with
    | .error error => return .error error
    | .ok reference =>
      match ← readCallouts rest with
      | .error error => return .error error
      | .ok references => return .ok (reference :: references)

/-- The references in a filter, read with the memo. -/
def readFilter (template : String) : StateM ReferenceMemo (Except ItemError (List ItemReference)) :=
  match Template.split template with
  | .error error => pure (.error error)
  | .ok pieces => readCallouts (Template.callouts pieces)

/-- What reading the filters of a location gave. -/
structure ReadFilters where
  filters : LocatedFilters
  /-- The references in the filters that could be read, each once. -/
  references : List ItemReference
  /-- The filters that could not be read, with the reasons. -/
  failures : List (String × ItemError)

/-- Reads the filters of a location. -/
def readLocated (filters : LocatedFilters) : StateM ReferenceMemo ReadFilters := do
  let results ← filters.templates.mapM fun template => do
    return (template, ← readFilter template)
  let references := results.flatMap fun result => match result.2 with
    | .ok references => references
    | .error _ => []
  let failures := results.filterMap fun result => match result.2 with
    | .ok _ => none
    | .error error => some (result.1, error)
  return ⟨filters, references.eraseDups, failures⟩

/-- A filter that could not be read, at a node that declares `declared` altogether. -/
def unreadableFilter (path : ScopePath) (declared : List String) (failure : String × ItemError) :
    UnreadableFilter :=
  let issue := Issue.error failure.1 path (.badFilter failure.1 failure.2.message)
  ⟨path, declared, [issue]⟩

/-- What a reference at a location means at a node, reached over `outer`. -/
def find (limit : Nat) (outer : ScopePath) (scope : Scope) (filters : LocatedFilters)
    (reference : ItemReference) : FilterFinding :=
  let written := reference.written
  let resolution := scope.resolve limit (.ofReference reference) written
  { key := ⟨filters.location, reference⟩
    path := outer ++ [scope.step]
    item := resolution.outcome.item?
    elements := resolution.elements
    filters := filters.templates
    issues := resolution.issues.below outer
    written }

/-- What is found at a node that declares the given filters. -/
def atNode (limit : Nat) (outer : ScopePath) (scope : Scope) (located : List LocatedFilters) :
    StateM ReferenceMemo FilterLookup := do
  let declared := located.flatMap LocatedFilters.templates
  let read ← located.mapM readLocated
  let failures := read.flatMap ReadFilters.failures
  let unreadable := failures.map (unreadableFilter (outer ++ [scope.step]) declared)
  let findings := read.flatMap fun part =>
    part.references.map (find limit outer scope part.filters)
  let failed := !unreadable.isEmpty || findings.any FilterFinding.isFailure
  return ⟨if failed then findings.filter FilterFinding.isFailure else findings, unreadable⟩

mutual

/-- What is found at or below a node that is reached over `outer`: what its inputs give is merged
first, then what is found at the node itself. -/
def ofScope (catalog : Catalog) (limit : Nat) (outer : ScopePath) :
    Scope → StateM ReferenceMemo FilterLookup
  | .node id kind elements inputs =>
    match kind with
    | .measure _ => pure empty
    | .noMetrics => pure empty
    | kind => do
      let scope := Scope.node id kind elements inputs
      let below ← ofScopes catalog limit (outer ++ [scope.step]) inputs
      let here ← atNode limit outer scope (LocatedFilters.atKind catalog kind)
      return (mergeAll below).merge here

/-- What is known of the filters of several nodes, each by itself. -/
def ofScopes (catalog : Catalog) (limit : Nat) (outer : ScopePath) :
    List Scope → StateM ReferenceMemo (List FilterLookup)
  | [] => pure []
  | scope :: rest => do
    let first ← ofScope catalog limit outer scope
    let others ← ofScopes catalog limit outer rest
    return first :: others

end

/-- What the references in all filters of a query mean. -/
def ofQuery (catalog : Catalog) (limit : Nat) (scope : Scope) :
    StateM ReferenceMemo FilterLookup := ofScope catalog limit [] scope

end FilterLookup

end MetricQuery

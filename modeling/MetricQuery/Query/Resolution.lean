import MetricQuery.Filter.Coverage
import MetricQuery.Query.Basic
import MetricQuery.Settings.Basic

/-! # Resolving requests

From a request to a resolved query: first the metrics, then the items to group by, the items in
filters and what to sort by. Unknown metrics end the resolution at once; all other errors are
collected into one report.
-/

namespace MetricQuery

namespace Request

/-- The metrics of a request: known ones, each once, with a warning for each repeat; and an error
for each unknown one. -/
structure RequestedMetrics where
  /-- The known metrics in the order of first occurrence. -/
  names : List String
  warnings : Issues
  errors : Issues

/-- The warning about a metric that is already selected. -/
def repeatedMetric (input metric : String) : Issue :=
  .warning input [] (.repeated ("Metric(" ++ Text.named metric ++ ")"))

/-- The error about a name that no metric has. -/
def unknownMetric (catalog : Catalog) (limit : Nat) (input : String) : Issue :=
  let names := catalog.manifest.metrics.map Metric.name
  .error input [] (.unknownMetric (Text.closestNames input names limit))

/-- Adds a name of a request to the metrics found so far. -/
def addMetric (catalog : Catalog) (limit : Nat) (found : RequestedMetrics) (input : String) :
    RequestedMetrics :=
  let name := Text.trim input
  if (catalog.metric? name).isNone then
    { found with errors := found.errors ++ [unknownMetric catalog limit input] }
  else if found.names.contains name then
    { found with warnings := found.warnings ++ [repeatedMetric input name] }
  else { found with names := found.names ++ [name] }

/-- The metrics a request names, with what is reported about them. -/
def requestedMetrics (catalog : Catalog) (limit : Nat) (inputs : List String) :
    RequestedMetrics := inputs.foldl (addMetric catalog limit) ⟨[], [], []⟩

/-- The items of a request and the issues found with them. -/
structure RequestedItems where
  /-- The items in the order of first occurrence, each once. -/
  items : List GroupByItem
  /-- The issues in the order of the inputs. -/
  issues : Issues

/-- Adds what a resolution found to the items found so far. -/
def RequestedItems.add (found : RequestedItems) (scope : Scope) (input : String)
    (resolution : Resolution) : RequestedItems :=
  let issues := found.issues ++ resolution.issues
  match resolution.outcome.item? with
  | none => { found with issues }
  | some item =>
    if found.items.contains item then
      { found with
        issues := issues ++ [.warning input [scope.step] (.repeated item.written)] }
    else ⟨found.items ++ [item], issues⟩

/-- Adds what one reference means to the items found so far. -/
def addItem (scope : Scope) (limit : Nat) (found : RequestedItems) (input : String) :
    StateM ReferenceMemo RequestedItems := do
  match ← ReferenceMemo.read input with
  | .error error =>
    return { found with
      issues := found.issues ++ [.error input [] (.badSyntax error.message)] }
  | .ok reference =>
    return found.add scope input (scope.resolve limit (.ofReference reference) input)

/-- The items a request groups by, with what is reported about them. -/
def requestedItems (scope : Scope) (limit : Nat) (inputs : List String) :
    StateM ReferenceMemo RequestedItems := inputs.foldlM (addItem scope limit) ⟨[], []⟩

/-- A name to sort by without the minus in front, and whether there was one. -/
def cutMinus (input : String) : String × Bool :=
  match input.toList with
  | '-' :: rest => (String.ofList rest, true)
  | _ => (input, false)

/-- What is selected, in the words in which it is offered to users. -/
def selection (metrics : List MetricOutput) (items : List GroupByItem) : List String :=
  metrics.map MetricOutput.metric ++ items.map GroupByItem.written

/-- The item to sort by that a reference means among the selected ones. A direction in the
reference counts more than a minus in front of it. -/
def orderItem? (selected : List GroupByItem) (descending : Bool) (reference : ItemReference) :
    Option OrderItem :=
  match (ItemPattern.ofReference reference).matching selected with
  | [item] => some ⟨.item item, reference.descending.getD descending⟩
  | _ => none

/-- What one input of a request sorts by; metrics come before items of the same name. -/
def sortedBy (metrics : List MetricOutput) (selected : List GroupByItem) (input : String) :
    StateM ReferenceMemo (Option OrderItem) := do
  let (name, descending) := cutMinus input
  match metrics.find? (·.metric == name) with
  | some metric => return some ⟨.metric metric, descending⟩
  | none =>
    match ← ReferenceMemo.read name with
    | .error _ => return none
    | .ok reference => return orderItem? selected descending reference

/-- What a request sorts by, in the order of the inputs, and an error for each input that names
nothing selected. -/
def requestedOrder (scope : Scope) (metrics : List MetricOutput) (items : List GroupByItem)
    (inputs : List String) : StateM ReferenceMemo (List OrderItem × Issues) := do
  let selected := GroupByItem.amongAllowed items scope.items
  let results ← inputs.mapM fun input => do
    return (input, ← sortedBy metrics selected input)
  let issues := results.filterMap fun result => match result.2 with
    | some _ => none
    | none =>
      some (Issue.error result.1 [scope.step] (.notSelected (selection metrics items)))
  return (results.filterMap Prod.snd, issues)

/-- Everything that a request means in its scope, and the issues found on the way. -/
structure Meaning where
  items : List GroupByItem
  lookup : FilterLookup
  order : List OrderItem
  /-- The issues in the order in which they are reported. -/
  issues : Issues

/-- Finds out what the references of a request mean in its scope. -/
def meaning (catalog : Catalog) (limit : Nat) (scope : Scope) (metrics : List MetricOutput)
    (request : Request) : StateM ReferenceMemo Meaning := do
  let found ← requestedItems scope limit request.groupBy
  let lookup ← FilterLookup.ofQuery catalog limit scope
  let (order, unselected) ← requestedOrder scope metrics found.items request.orderBy
  return ⟨found.items, lookup, order, found.issues ++ lookup.issues ++ unselected⟩

/-- Resolves a request: its metrics, items, filters and order, or what is wrong with them. -/
def resolve (catalog : Catalog) (settings : Settings) (request : Request) :
    ExceptT QueryError (StateM ReferenceMemo) ResolvedQuery := do
  let limit := settings.resolution.maxSuggestions
  if request.metrics.isEmpty && request.groupBy.isEmpty then throw .emptyRequest
  let requested := requestedMetrics catalog limit request.metrics
  if !requested.errors.isEmpty then throw (.unresolved requested.errors)
  let scope ← match Scope.ofQuery catalog requested.names request.filters with
    | .error error => throw error
    | .ok scope => pure scope
  let metrics := requested.names.map fun name => MetricOutput.mk name none
  let meaning ← ExceptT.lift (meaning catalog limit scope metrics request)
  let issues := requested.warnings ++ meaning.issues
  if issues.hasErrors then throw (.unresolved issues)
  let location := FilterLocation.query requested.names
  let conditions ←
    Condition.ofTemplates ReferenceMemo.readCallout meaning.lookup location request.filters
  return {
    metrics
    groupBy := meaning.items
    filters := request.filters
    condition := Condition.all conditions
    lookup := meaning.lookup
    orderBy := meaning.order
    limit := request.limit
    warnings := issues.warnings }

end Request

end MetricQuery

import MetricQuery.Filter.Location
import MetricQuery.Issue.Basic
import MetricQuery.Item.Column
import MetricQuery.Item.Error

/-! # Errors of queries

Why a request gives no SQL. Some errors are those of the request, some say that the manifest lacks
something that it refers to, and some that a plan put together by hand does not fit.
-/

namespace MetricQuery

/-- The sorts of errors. -/
inductive ErrorSort where
  /-- A reference or a template is malformed. -/
  | malformedItem
  /-- A well-formed reference means nothing. -/
  | meaninglessItem
  /-- The request cannot be answered. -/
  | invalidQuery
  /-- A part that should be there is missing. -/
  | internal
  /-- No join provides what is needed. -/
  | structural
  deriving DecidableEq

/-- What a message of a sort begins with. -/
def ErrorSort.opening : ErrorSort → String
  | malformedItem => "query item syntax error: "
  | meaninglessItem => "invalid query syntax: "
  | invalidQuery => "invalid query: "
  | internal => "internal error: "
  | structural => "structural error: "

/-- Why a request gives no SQL. -/
inductive QueryError where
  /-- A reference or a template cannot be read. -/
  | item (error : ItemError)
  /-- Nothing is asked for. -/
  | emptyRequest
  /-- Inputs of the request mean nothing. -/
  | unresolved (issues : Issues)
  /-- A query without metrics has an item that is not of the model of the others. -/
  | notOfOneModel (item : String)
  /-- A query without metrics has no items. -/
  | nothingToList
  /-- A metric of the request, or an input of one, does not exist. -/
  | missingMetric (metric : String)
  /-- The input measure of a metric does not exist. -/
  | missingMeasure (measure metric : String)
  /-- A metric is computed from itself. -/
  | circularMetric (metric : String)
  /-- An item of a filter was never looked up at this location. -/
  | noFilterItem (written : String) (location : FilterLocation)
  /-- An item of a filter has more than one meaning at one location. -/
  | severalFilterItems (written : String)
  /-- An item of a filter means nothing. -/
  | unresolvedFilterItem (written : String)
  /-- A metric to plan does not exist. -/
  | unknownMetric (metric : String)
  /-- A metric that aggregates a measure names none. -/
  | noInputMeasure (metric : String)
  /-- A ratio lacks its dividend or its divisor. -/
  | incompleteRatio (metric : String)
  /-- A derived metric has no SQL. -/
  | noExpression (metric : String)
  /-- A derived metric reads no metrics. -/
  | noInputMetrics (metric : String)
  /-- A measure to aggregate does not exist. -/
  | unknownMeasure (measure : String)
  /-- A metric to group by has no entity to join on. -/
  | noEntityLink (item : String)
  /-- A model to read does not exist. -/
  | unknownModel (model : String)
  /-- No model behind an entity provides all the items needed from there. -/
  | noJoinTarget (entity model : String) (items : List String)
  /-- A step of a plan has a number of inputs other than one. -/
  | notOneInput (step : String) (count : Nat)
  /-- A join has no inputs. -/
  | emptyJoin
  /-- A join has another number of entities than of further inputs. -/
  | unevenJoin (inputs entities : Nat)
  /-- A combination has no inputs. -/
  | emptyCombination
  /-- A subquery does not have a column that is read from it. -/
  | noColumn (content : ColumnContent) (subquery : String)
  /-- An input does not have a column that is passed on. -/
  | nothingToPass (content : ColumnContent)
  /-- An input does not have the measure that is aggregated. -/
  | noMeasureColumn (measure : String)
  /-- The result does not have the column that it is sorted by. -/
  | noOrderColumn (column : String)
  deriving DecidableEq

namespace QueryError

/-- The sort of an error, by which callers tell errors apart. -/
def sort : QueryError → ErrorSort
  | item error => if error.isMalformed then .malformedItem else .meaninglessItem
  | emptyRequest => .invalidQuery
  | unresolved _ => .invalidQuery
  | notOfOneModel _ => .invalidQuery
  | nothingToList => .invalidQuery
  | noJoinTarget _ _ _ => .structural
  | _ => .internal

/-- What happened, without the sort of error. -/
def detail : QueryError → String
  | item error => error.detail
  | emptyRequest => "a query needs at least one metric or group-by item"
  | unresolved issues => issues.report
  | notOfOneModel name =>
    "group-by items of a query without metrics must come from one semantic model; " ++
      Text.named name ++ " does not"
  | nothingToList => "a query without metrics needs group-by items"
  | missingMetric metric => "metric " ++ Text.named metric ++ " is not in the semantic model"
  | missingMeasure measure metric =>
    "measure " ++ Text.named measure ++ " of metric " ++ Text.named metric ++
      " is not in the semantic model"
  | circularMetric metric => "metric " ++ Text.named metric ++ " is computed from itself"
  | noFilterItem written location =>
    "no filter resolution for " ++ written ++ " at " ++ Text.Record.text location
  | severalFilterItems written => "more than one filter resolution for " ++ written
  | unresolvedFilterItem written => "filter item " ++ written ++ " was not resolved"
  | unknownMetric metric => "unknown metric " ++ metric
  | noInputMeasure metric => "metric " ++ metric ++ " has no input measure"
  | incompleteRatio metric =>
    "ratio metric " ++ metric ++ " needs a numerator and a denominator"
  | noExpression metric => "derived metric " ++ metric ++ " has no expr"
  | noInputMetrics metric => "metric " ++ metric ++ " has no input metrics"
  | unknownMeasure measure => "unknown measure " ++ measure
  | noEntityLink name => "group-by metric " ++ name ++ " has no entity link"
  | unknownModel model => "unknown semantic model " ++ model
  | noJoinTarget entity model items =>
    "no semantic model reachable through " ++ Text.named entity ++ " from " ++
      Text.named model ++ " provides " ++ String.intercalate ", " items
  | notOneInput step count => step ++ " expects one parent, found " ++ Text.Record.text count
  | emptyJoin => "join node without parents"
  | unevenJoin inputs entities =>
    "join node has " ++ Text.Record.text inputs ++ " right parents but " ++
      Text.Record.text entities ++ " join entities"
  | emptyCombination => "combine node without parents"
  | noColumn content subquery =>
    Text.Record.text content ++ " is not available from " ++ subquery
  | nothingToPass content => Text.Record.text content ++ " is not available to pass through"
  | noMeasureColumn measure => "measure " ++ measure ++ " is not available to aggregate"
  | noOrderColumn column => "order by column " ++ column ++ " is not in the output"

/-- The whole message of an error. -/
def message (error : QueryError) : String := error.sort.opening ++ error.detail

end QueryError

end MetricQuery

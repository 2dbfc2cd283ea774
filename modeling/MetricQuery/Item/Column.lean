import MetricQuery.Item.GroupByItem
import MetricQuery.Text.Record

/-! # Columns

What a column of an intermediate table holds: a measure, a metric or a group-by item. The name of a
column follows from what it holds.
-/

namespace MetricQuery

/-- A metric as it appears in an output, perhaps under another name. -/
structure MetricOutput where
  metric : String
  /-- The name under which it appears, if it is not its own. -/
  newName : Option String
  deriving DecidableEq

/-- The name under which a metric appears. -/
def MetricOutput.name (output : MetricOutput) : String := output.newName.getD output.metric

/-- What a column holds. -/
inductive ColumnContent where
  | measure (name : String)
  | metric (output : MetricOutput)
  | item (item : GroupByItem)
  deriving DecidableEq

namespace ColumnContent

/-- The item that a column holds, if it holds one. -/
def item? : ColumnContent → Option GroupByItem
  | item value => some value
  | _ => none

/-- The name of the column in a statement. -/
def columnName : ColumnContent → String
  | measure name => name
  | metric output => output.name
  | item value => value.qualifiedName

/-- The column that holds an entity of the table itself. -/
def ownEntity (name : String) : ColumnContent := item (.entity name [])

end ColumnContent

/-- An item by which a result is sorted. -/
structure OrderItem where
  content : ColumnContent
  /-- Whether the greatest comes first. -/
  descending : Bool
  deriving DecidableEq

/-! ## Record texts -/

open Text (recordOf variantOf)

/-- The record form of links. -/
def linksText (links : List String) : String :=
  Text.listOf (links.map (Text.nameRecord "EntityReference"))

instance : Text.Record Grain where
  text
    | .nanosecond => "Nanosecond"
    | .microsecond => "Microsecond"
    | .millisecond => "Millisecond"
    | .second => "Second"
    | .minute => "Minute"
    | .hour => "Hour"
    | .day => "Day"
    | .week => "Week"
    | .month => "Month"
    | .quarter => "Quarter"
    | .year => "Year"

instance : Text.Record DatePart where
  text
    | .year => "Year"
    | .quarter => "Quarter"
    | .month => "Month"
    | .day => "Day"
    | .dayOfWeek => "Dow"
    | .dayOfYear => "Doy"

instance : Text.Record GroupByItem where
  text item :=
    let name := ("element_name", Text.Record.text item.name)
    let links := ("entity_links", linksText item.links)
    match item with
    | .dimension _ _ => variantOf "Dimension" [recordOf "DimensionSpec" [name, links]]
    | .entity _ _ => variantOf "Entity" [recordOf "EntitySpec" [name, links]]
    | .timeDimension _ _ grain part =>
      variantOf "TimeDimension" [recordOf "TimeDimensionSpec" [name, links,
        ("time_granularity", Text.Record.text grain), ("date_part", Text.Record.text part)]]
    | .metric _ _ subqueryLinks =>
      variantOf "GroupByMetric" [recordOf "GroupByMetricSpec" [name, links,
        ("metric_subquery_entity_links", linksText subqueryLinks)]]

/-- The record form of a measure. -/
def measureRecord (name : String) : String := Text.nameRecord "MeasureSpec" name

instance : Text.Record MetricOutput where
  text output := recordOf "MetricSpec" [("element_name", Text.Record.text output.metric),
    ("alias", Text.Record.text output.newName)]

instance : Text.Record ColumnContent where
  text
    | .measure name => variantOf "Measure" [measureRecord name]
    | .metric output => variantOf "Metric" [Text.Record.text output]
    | .item item => variantOf "Linkable" [Text.Record.text item]

instance : Text.Record OrderItem where
  text item := recordOf "OrderBySpec" [("instance", Text.Record.text item.content),
    ("descending", Text.Record.text item.descending)]

end MetricQuery

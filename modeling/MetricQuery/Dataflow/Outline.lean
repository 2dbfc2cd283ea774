import MetricQuery.Dataflow.Basic

/-! # Outlines of plans

Two texts of a plan: an indented outline for readers, and the complete record of every step.
-/

namespace MetricQuery

open Text (recordOf variantOf)

/-- What the outline adds to the title of a step. -/
def Step.remark : Step → String
  | read model => " [" ++ model ++ "]"
  | addMetricTime dimension _ (some window) =>
    " [" ++ dimension ++ " + " ++ Text.Record.text window.count ++ " " ++ window.grain.name ++ "]"
  | join entities => " [" ++ String.intercalate ", " entities ++ "]"
  | constrain condition => " [" ++ condition.sql ++ "]"
  | compute output _ => " [" ++ output.name ++ "]"
  | _ => ""

namespace Dataflow

mutual

/-- The lines of the outline from a depth on: each step, below it what flows into it. -/
def outlineAt (depth : Nat) : Dataflow → String
  | node step inputs =>
    String.join (List.replicate depth "  ") ++ step.title ++ step.remark ++ "\n" ++
      outlineAllAt (depth + 1) inputs

/-- The outlines of several plans at one depth, one below the other. -/
def outlineAllAt (depth : Nat) : List Dataflow → String
  | [] => ""
  | plan :: rest => outlineAt depth plan ++ outlineAllAt depth rest

end

/-- The outline of a whole plan. -/
def outline (plan : Dataflow) : String := outlineAt 0 plan

end Dataflow

/-! ## Record texts -/

instance : Text.Record OffsetWindow where
  text window := recordOf "OffsetWindow" [("count", Text.Record.text window.count),
    ("granularity", Text.Record.text window.grain)]

instance : Text.Record Aggregation where
  text
    | .sum => "Sum"
    | .count => "Count"
    | .countDistinct => "CountDistinct"
    | .min => "Min"
    | .max => "Max"
    | .average => "Average"
    | .sumBoolean => "SumBoolean"

instance : Text.Record AggregatedMeasure where
  text measure := recordOf "MeasureAggregation" [("measure", measureRecord measure.measure),
    ("agg", Text.Record.text measure.aggregation)]

instance : Text.Record MetricFormula where
  text
    | .measure name => variantOf "Measure" [measureRecord name]
    | .ratio numerator denominator => recordOf "Ratio" [
        ("numerator", Text.Record.text numerator), ("denominator", Text.Record.text denominator)]
    | .derived expr => recordOf "Derived" [("expr", Text.Record.text expr)]

instance : Text.Record Step where
  text
    | .read model => recordOf "ReadSource" [
        ("semantic_model", Text.nameRecord "SemanticModelReference" model)]
    | .addMetricTime dimension stored offset => recordOf "MetricTimeTransform" [
        ("agg_time_dimension", Text.Record.text dimension),
        ("defined_granularity", Text.Record.text stored),
        ("offset_window", Text.Record.text offset)]
    | .join entities => recordOf "JoinOnEntities" [("join_entities", linksText entities)]
    | .constrain condition => recordOf "WhereConstraint" [
        ("filter", Text.Record.text condition)]
    | .pass contents => recordOf "FilterElements" [("include", Text.Record.text contents)]
    | .aggregate measures => recordOf "AggregateMeasures" [
        ("aggregations", Text.Record.text measures)]
    | .compute output formula => recordOf "ComputeMetrics" [
        ("metric", Text.Record.text output), ("expr", Text.Record.text formula)]
    | .combine => "CombineAggregatedOutputs"
    | .accumulate order parts measures => recordOf "WindowReaggregation" [
        ("order_by", Text.Record.text order), ("partition_by", Text.Record.text parts),
        ("aggregations", Text.Record.text measures)]
    | .sort order limit => recordOf "OrderByLimit" [
        ("order_by", Text.Record.text order), ("limit", Text.Record.text limit)]
    | .result => "WriteToResult"

namespace Dataflow

mutual

/-- The complete record of a plan. -/
def record : Dataflow → String
  | node step inputs => recordOf "DataflowPlanNode" [("kind", Text.Record.text step),
      ("parents", Text.listOf (recordAll inputs))]

/-- The record forms of several plans. -/
def recordAll : List Dataflow → List String
  | [] => []
  | plan :: rest => record plan :: recordAll rest

end

end Dataflow

end MetricQuery

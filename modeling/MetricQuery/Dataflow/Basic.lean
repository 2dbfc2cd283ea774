import MetricQuery.Filter.Condition
import MetricQuery.Manifest.Basic

/-! # Dataflow plans

What happens to the rows of a query, as a tree of steps: reading a model, joining, filtering,
aggregating, computing metrics and bringing them together. A plan is its last step with everything
that flows into it; two plans are equal if they do the same throughout.
-/

namespace MetricQuery

/-- A measure and how it is aggregated. -/
structure AggregatedMeasure where
  measure : String
  aggregation : Aggregation
  deriving DecidableEq

/-- How a metric is computed from what flows in. -/
inductive MetricFormula where
  /-- It is an aggregated measure. -/
  | measure (name : String)
  /-- It is one metric divided by another. -/
  | ratio (numerator denominator : MetricOutput)
  /-- It is SQL over other metrics. -/
  | derived (expr : String)
  deriving DecidableEq

/-- A step of a plan. -/
inductive Step where
  /-- Reads all columns of a model. -/
  | read (model : String)
  /-- Adds the time of the metric, which follows a time dimension stored at a grain, shifted by an
  offset. -/
  | addMetricTime (dimension : String) (stored : Grain) (offset : Option OffsetWindow)
  /-- Joins each further input to the first one, on one entity each. -/
  | join (entities : List String)
  /-- Keeps the rows that meet a condition. -/
  | constrain (condition : Condition)
  /-- Passes some columns on. -/
  | pass (contents : List ColumnContent)
  /-- Groups by all items and aggregates measures. -/
  | aggregate (measures : List AggregatedMeasure)
  /-- Computes a metric. -/
  | compute (output : MetricOutput) (formula : MetricFormula)
  /-- Brings outputs together row by row on the items that they share. -/
  | combine
  /-- Aggregates measures again along an order, within parts. -/
  | accumulate (order : GroupByItem) (parts : List GroupByItem)
      (measures : List AggregatedMeasure)
  /-- Sorts, and limits the number of rows. -/
  | sort (order : List OrderItem) (limit : Option Nat)
  /-- Hands the result over. -/
  | result
  deriving DecidableEq

/-- The name of a step for readers. -/
def Step.title : Step → String
  | read _ => "Read From Semantic Model"
  | addMetricTime _ _ _ => "Metric Time Dimension Transform"
  | join _ => "Join Standard Outputs"
  | constrain _ => "Constrain Output with WHERE"
  | pass _ => "Pass Only Elements"
  | aggregate _ => "Aggregate Measures"
  | compute _ _ => "Compute Metrics via Expressions"
  | combine => "Combine Aggregated Outputs"
  | accumulate _ _ _ => "Window Function for Metric Re-aggregation"
  | sort _ _ => "Order By & Limit"
  | result => "Write to Result"

/-- A step with everything that flows into it. -/
inductive Dataflow where
  | node (step : Step) (inputs : List Dataflow)

namespace Dataflow

/-- The last step of a plan. -/
def step : Dataflow → Step
  | node step _ => step

/-- The plans that the last step takes. -/
def inputs : Dataflow → List Dataflow
  | node _ inputs => inputs

/-- Every plan is built from plans by steps. -/
theorem inductionOn {motive : Dataflow → Prop}
    (node : ∀ step inputs, (∀ input ∈ inputs, motive input) → motive (node step inputs)) :
    ∀ plan, motive plan := by
  intro plan
  refine @Dataflow.rec motive (fun inputs => ∀ input ∈ inputs, motive input) ?_ ?_ ?_ plan
  · exact node
  · exact fun input member => (List.not_mem_nil member).elim
  · intro first rest head tail input member
    rcases List.mem_cons.mp member with rfl | later
    · exact head
    · exact tail input later

/-- The part that is reached from the last step by a way of input positions. -/
def partAt? (plan : Dataflow) : List Nat → Option Dataflow
  | [] => some plan
  | place :: way => (plan.inputs[place]?).bind (·.partAt? way)

/-- A step without inputs. -/
def leaf (step : Step) : Dataflow := node step []

/-- One more step at the end. -/
def andThen (plan : Dataflow) (step : Step) : Dataflow := node step [plan]

mutual

/-- Whether two plans are the same throughout. -/
def same : Dataflow → Dataflow → Bool
  | node step inputs, node step' inputs' => step == step' && sameAll inputs inputs'

/-- Whether two lists hold the same plans in the same order. -/
def sameAll : List Dataflow → List Dataflow → Bool
  | [], [] => true
  | plan :: rest, plan' :: rest' => same plan plan' && sameAll rest rest'
  | _, _ => false

end

mutual

/-- The comparison decides equality. -/
theorem same_iff : (left right : Dataflow) → (same left right = true ↔ left = right)
  | node step inputs, node step' inputs' => by
    simp only [same, Bool.and_eq_true, beq_iff_eq, node.injEq, sameAll_iff inputs inputs']

/-- The comparison of lists decides equality. -/
theorem sameAll_iff :
    (left right : List Dataflow) → (sameAll left right = true ↔ left = right)
  | [], [] => by simp [sameAll]
  | [], _ :: _ => by simp [sameAll]
  | _ :: _, [] => by simp [sameAll]
  | plan :: rest, plan' :: rest' => by
    simp only [sameAll, Bool.and_eq_true, List.cons.injEq, same_iff plan plan',
      sameAll_iff rest rest']

end

instance : DecidableEq Dataflow := fun left right =>
  decidable_of_iff (same left right = true) (same_iff left right)

mutual

/-- The number of steps, a shared part counted as often as it is used. -/
def size : Dataflow → Nat
  | node _ inputs => 1 + sizeOfAll inputs

/-- The number of steps in several plans together. -/
def sizeOfAll : List Dataflow → Nat
  | [] => 0
  | plan :: rest => size plan + sizeOfAll rest

end

end Dataflow

end MetricQuery

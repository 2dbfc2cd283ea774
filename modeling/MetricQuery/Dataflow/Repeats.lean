import MetricQuery.Dataflow.Basic

/-! # Repeated parts of plans

The largest parts that occur more than once in a plan. The inside of a repeated part is searched
once, and a part that repeats only inside other repeated parts is not listed.
-/

namespace MetricQuery.Dataflow

/-- The parts met so far, and those of them met again. -/
structure Occurrences where
  /-- The parts met at least once. -/
  met : List Dataflow
  /-- The parts met more than once. -/
  again : List Dataflow

mutual

/-- Goes through a plan; what is met again is not entered again. -/
def countOccurrences (found : Occurrences) : Dataflow → Occurrences
  | node step inputs =>
    let plan := node step inputs
    if found.met.contains plan then { found with again := appendNew found.again [plan] }
    else countOccurrencesOf { found with met := plan :: found.met } inputs

/-- Counts the parts of several plans from left to right. -/
def countOccurrencesOf (found : Occurrences) : List Dataflow → Occurrences
  | [] => found
  | plan :: rest => countOccurrencesOf (countOccurrences found plan) rest

end

mutual

/-- The outermost parts of a plan that are among the repeated ones. -/
def outermost (again : List Dataflow) : Dataflow → List Dataflow
  | node step inputs =>
    if again.contains (node step inputs) then [node step inputs] else outermostOf again inputs

/-- The outermost parts of several plans that occur again. -/
def outermostOf (again : List Dataflow) : List Dataflow → List Dataflow
  | [] => []
  | plan :: rest => outermost again plan ++ outermostOf again rest

end

/-- The largest repeated parts of a plan, each once, in the order in which they are met. -/
def repeatedParts (plan : Dataflow) : List Dataflow :=
  (outermost (countOccurrences ⟨[], []⟩ plan).again plan).eraseDups

end MetricQuery.Dataflow

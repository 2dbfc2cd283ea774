import MetricQuery.Json.Basic
import MetricQuery.Query.Basic

/-! # Reading requests

The decoding of a request from JSON. Every field may be left out, and unknown fields of an object
are passed over; only the limit may be `null`. An array gives the fields in order.
-/

namespace MetricQuery.Request

/-- The names of the fields, in order. -/
def fieldNames : List String :=
  ["metric_names", "group_by_names", "where_filters", "order_by_names", "limit"]

/-- What is given for each field. -/
def fieldsOfJson? : Json → Option (List (Option Json))
  | .object members =>
    let settled := Json.lastOfEach members
    some (fieldNames.map fun name => settled.lookup name)
  | .array items =>
    if fieldNames.length < items.length then none
    else some ((List.range fieldNames.length).map fun index => items[index]?)
  | _ => none

/-- Decodes a list of texts; none is an empty one. -/
def textsOf : Option Json → Option (List String)
  | none => some []
  | some (.array items) => items.mapM Json.text?
  | some _ => none

/-- The limits that a request can set lie below this bound. -/
def limitBound : Nat := 0x10000000000000000

/-- Decodes a limit. -/
def limitOf : Option Json → Option (Option Nat)
  | none => some none
  | some .null => some none
  | some (.number number) =>
    match number.toNat? with
    | some limit => if limit < limitBound then some (some limit) else none
    | none => none
  | some _ => none

/-- A request as it is read from its record. -/
def ofJson? (value : Json) : Option Request := do
  let [metrics, groupBy, filters, orderBy, limit] ← fieldsOfJson? value | none
  return {
    metrics := ← textsOf metrics
    groupBy := ← textsOf groupBy
    filters := ← textsOf filters
    orderBy := ← textsOf orderBy
    limit := ← limitOf limit }

end MetricQuery.Request

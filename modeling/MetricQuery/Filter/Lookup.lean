import MetricQuery.Filter.Location
import MetricQuery.Item.Reference
import MetricQuery.Query.Error
import MetricQuery.Scope.Resolution

/-! # Meanings of filter items

What the references in filters mean, remembered by the location of the filter and the reference.
The findings of different parts of a query are merged key by key: if some finding for a key is a
failure, all failures for it stay and nothing else, otherwise one success stays.
-/

namespace MetricQuery

/-- What a meaning is remembered by. -/
structure FilterKey where
  location : FilterLocation
  reference : ItemReference
  deriving DecidableEq, Ord

namespace FilterKey

/-- The comparison of keys by location, then by reference. -/
abbrev compareFields : FilterKey → FilterKey → Ordering :=
  compareLex (compareOn location) (compareOn reference)

/-- Keys are compared field by field. -/
theorem compare_eq_compareFields : (compare : FilterKey → _) = compareFields := by
  funext left right
  change (compare left.location right.location).then
    ((compare left.reference right.reference).then .eq) = _
  rw [Ordering.then_eq]
  rfl

instance : Std.TransOrd FilterKey := by
  rw [Std.TransOrd, compare_eq_compareFields]
  infer_instance

/-- Only equal keys compare as equal. -/
instance : Std.LawfulEqOrd FilterKey where
  eq_of_compare := by
    intro left right same
    rw [compare_eq_compareFields] at same
    obtain ⟨locations, references⟩ := Ordering.then_eq_eq.mp same
    replace locations := Std.LawfulEqOrd.eq_of_compare locations
    replace references := Std.LawfulEqOrd.eq_of_compare references
    cases left
    cases right
    congr

end FilterKey

/-- What a reference in a filter turned out to mean. -/
structure FilterFinding where
  key : FilterKey
  /-- The path from the query to the node that declares the filter. -/
  path : ScopePath
  item : Option GroupByItem
  elements : List Element
  filters : List String
  /-- The issues found, on paths from the query. -/
  issues : Issues
  written : String
  deriving DecidableEq

/-- A filter that could not be read. -/
structure UnreadableFilter where
  path : ScopePath
  /-- All filters declared at the node. -/
  filters : List String
  issues : Issues
  deriving DecidableEq

/-- What is known about the filters of a query. -/
structure FilterLookup where
  findings : List FilterFinding
  unreadable : List UnreadableFilter
  deriving DecidableEq

namespace FilterFinding

/-- The text by whose order findings for one key are sorted. -/
def sortText (finding : FilterFinding) : String := finding.path.text

/-- Whether something stops the query at this finding. -/
def isFailure (finding : FilterFinding) : Bool := finding.issues.hasErrors

/-- The findings that stay of those for one key: all failures, or else the first success. -/
def settle (findings : List FilterFinding) : List FilterFinding :=
  let ordered := sortBy (fun left right => left.sortText ≤ right.sortText) findings
  if ordered.any isFailure then ordered.filter isFailure else ordered.take 1

/-- Settles findings key by key, in ascending order of the keys. -/
def settleAll (findings : List FilterFinding) : List FilterFinding :=
  (sortedDistinct (findings.map key)).flatMap fun wanted =>
    settle (findings.filter fun finding => finding.key == wanted)

end FilterFinding

namespace UnreadableFilter

/-- The texts by whose order unreadable filters are sorted: the path, then the filters. -/
def sortTexts (filter : UnreadableFilter) : String × String :=
  (filter.path.text, String.intercalate "\n" filter.filters)

/-- Whether an unreadable filter is listed no later than another one. -/
def listedBefore (left right : UnreadableFilter) : Bool :=
  (compareLex (compareOn Prod.fst) (compareOn Prod.snd) left.sortTexts right.sortTexts).isLE

end UnreadableFilter

namespace FilterLookup

/-- Nothing is known. -/
def empty : FilterLookup := ⟨[], []⟩

/-- Whether nothing is known. -/
def isEmpty (lookup : FilterLookup) : Bool :=
  lookup.findings.isEmpty && lookup.unreadable.isEmpty

/-- All issues, those of findings first. -/
def issues (lookup : FilterLookup) : Issues :=
  lookup.findings.flatMap FilterFinding.issues ++
    lookup.unreadable.flatMap UnreadableFilter.issues

/-- Whether anything that is known stops the query. -/
def hasErrors (lookup : FilterLookup) : Bool :=
  lookup.findings.any (·.issues.hasErrors) || lookup.unreadable.any (·.issues.hasErrors)

/-- What is known for a key. -/
def get (lookup : FilterLookup) (key : FilterKey) : List FilterFinding :=
  lookup.findings.filter fun finding => finding.key == key

/-- The single finding for a key together with the item that was found. -/
def getItem (lookup : FilterLookup) (key : FilterKey) :
    Except QueryError (GroupByItem × FilterFinding) :=
  match lookup.get key with
  | [] => .error (.noFilterItem key.reference.written key.location)
  | [finding] =>
    match finding.item with
    | some item => .ok (item, finding)
    | none => .error (.unresolvedFilterItem finding.written)
  | _ => .error (.severalFilterItems key.reference.written)

/-- What is known from two sides together. -/
def merge (left right : FilterLookup) : FilterLookup where
  findings := FilterFinding.settleAll (left.findings ++ right.findings)
  unreadable :=
    sortBy UnreadableFilter.listedBefore (appendNew left.unreadable right.unreadable)

/-- What is known from several sides together, from the left. -/
def mergeAll (lookups : List FilterLookup) : FilterLookup := lookups.foldl merge empty

end FilterLookup

end MetricQuery

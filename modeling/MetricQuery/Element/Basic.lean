import MetricQuery.Collection.Basic
import MetricQuery.Item.GroupByItem

/-! # Linkable elements

The group-by items that are in scope somewhere, each with the model that defines it and the way in
which it is reached.
-/

namespace MetricQuery

/-- How an element is reached. -/
inductive ElementTrait where
  /-- It is defined in the model of the measure. -/
  | isLocal
  /-- At least one join leads to it. -/
  | joined
  /-- More than one join leads to it. -/
  | multiHop
  /-- It is the time of the metric. -/
  | metricTime
  /-- It is extracted from a time dimension. -/
  | datePart
  /-- It is a metric computed in a subquery. -/
  | metric
  deriving DecidableEq, Ord

namespace ElementTrait

instance : Std.TransOrd ElementTrait :=
  inferInstanceAs (Std.TransCmp (compareOn ElementTrait.ctorIdx))

instance : Std.LawfulEqOrd ElementTrait where
  eq_of_compare := by
    intro left right same
    cases left <;> cases right <;> first | rfl | exact nomatch same

/-- Every trait, in ascending order. -/
def all : List ElementTrait := [isLocal, joined, multiHop, metricTime, datePart, metric]

/-- The name under which messages show a trait. -/
def name : ElementTrait → String
  | isLocal => "Local"
  | joined => "Joined"
  | multiHop => "MultiHop"
  | metricTime => "MetricTime"
  | datePart => "DatePart"
  | metric => "Metric"

end ElementTrait

/-- A group-by item that is in scope. Elements are ordered by their items, then by the defining
model, then by their traits. -/
structure Element where
  item : GroupByItem
  /-- The model that defines it; the time of the metric belongs to no single model. -/
  definedIn : Option String
  /-- How it is reached, in ascending order. -/
  traits : List ElementTrait
  deriving DecidableEq, Ord

namespace Element

/-- The comparison of elements by item, then by the defining model, then by traits. -/
abbrev compareFields : Element → Element → Ordering :=
  compareLex (compareOn item) (compareLex (compareOn definedIn) (compareOn traits))

/-- Elements are compared field by field. -/
theorem compare_eq_compareFields : (compare : Element → _) = compareFields := by
  funext left right
  change (compare left.item right.item).then ((compare left.definedIn right.definedIn).then
    ((compare left.traits right.traits).then .eq)) = _
  rw [Ordering.then_eq]
  rfl

instance : Std.TransOrd Element := by
  rw [Std.TransOrd, compare_eq_compareFields]
  infer_instance

/-- Only equal elements compare as equal. -/
instance : Std.LawfulEqOrd Element where
  eq_of_compare := by
    intro left right same
    rw [compare_eq_compareFields] at same
    obtain ⟨items, same⟩ := Ordering.then_eq_eq.mp same
    obtain ⟨models, traits⟩ := Ordering.then_eq_eq.mp same
    replace items := Std.LawfulEqOrd.eq_of_compare items
    replace models := Std.LawfulEqOrd.eq_of_compare models
    replace traits := Std.LawfulEqOrd.eq_of_compare traits
    cases left
    cases right
    congr

end Element

/-- The different items of some elements, in ascending order. -/
def Element.items (elements : List Element) : List GroupByItem :=
  sortedDistinct (elements.map Element.item)

end MetricQuery

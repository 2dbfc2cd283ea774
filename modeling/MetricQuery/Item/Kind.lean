/-! # Kinds of items

What a query can group by: a dimension, a time dimension, an entity, or a metric computed per value
of an entity.
-/

namespace MetricQuery

/-- What a query can group by. -/
inductive ItemKind where
  | dimension
  | timeDimension
  | entity
  | metric
  deriving DecidableEq, Ord

namespace ItemKind

instance : Std.TransOrd ItemKind := inferInstanceAs (Std.TransCmp (compareOn ItemKind.ctorIdx))

instance : Std.LawfulEqOrd ItemKind where
  eq_of_compare := by
    intro left right same
    cases left <;> cases right <;> first | rfl | exact nomatch same

/-- All kinds, in their order. -/
def all : List ItemKind := [dimension, timeDimension, entity, metric]

/-- The name of a kind, which is also the name of the call that refers to an item of it. -/
def name : ItemKind → String
  | dimension => "Dimension"
  | timeDimension => "TimeDimension"
  | entity => "Entity"
  | metric => "Metric"

/-- The kind of a name spelled exactly. -/
def ofName? (name : String) : Option ItemKind := all.find? fun kind => kind.name == name

/-- The name of a kind leads back to it. -/
@[simp]
theorem ofName?_name (kind : ItemKind) : ofName? kind.name = some kind := by
  cases kind <;> decide

end ItemKind

end MetricQuery

import MetricQuery.Item.DunderedName
import MetricQuery.Item.Kind

/-! # Group-by items

The items that a reference can turn out to mean, each with the entities that lead to it.
-/

namespace MetricQuery

/-- The name of the time dimension that every measure with a time of its own has. -/
def metricTimeName : String := "metric_time"

/-- An item to group by or to filter on. The links name the entities joined through, the first of
them next to the measure. -/
inductive GroupByItem where
  /-- A categorical dimension. -/
  | dimension (name : String) (links : List String)
  /-- A time dimension truncated to a grain, or a date part of it. -/
  | timeDimension (name : String) (links : List String) (grain : Grain) (part : Option DatePart)
  /-- An entity. -/
  | entity (name : String) (links : List String)
  /-- A metric computed per value of the entity at the end of `subqueryLinks`. -/
  | metric (name : String) (links : List String) (subqueryLinks : List String)
  deriving DecidableEq, Ord

namespace GroupByItem

/-- The name of the element. -/
def name : GroupByItem → String
  | dimension name _ => name
  | timeDimension name _ _ _ => name
  | entity name _ => name
  | metric name _ _ => name

/-- The entities that lead to the element, the first join in front. -/
def links : GroupByItem → List String
  | dimension _ links => links
  | timeDimension _ links _ _ => links
  | entity _ links => links
  | metric _ links _ => links

/-- What sort of element an item is. -/
def kind : GroupByItem → ItemKind
  | dimension _ _ => .dimension
  | timeDimension _ _ _ _ => .timeDimension
  | entity _ _ => .entity
  | metric _ _ _ => .metric

/-- The grain of a time dimension. -/
def grain : GroupByItem → Option Grain
  | timeDimension _ _ grain _ => some grain
  | _ => none

/-- The date part of a time dimension, if one is extracted. -/
def part : GroupByItem → Option DatePart
  | timeDimension _ _ _ part => part
  | _ => none

/-- The entities per value of which a metric is computed, if the item is a metric. -/
def subqueryLinks : GroupByItem → Option (List String)
  | metric _ _ subqueryLinks => some subqueryLinks
  | _ => none

/-- The comparison of items by kind, then field by field. -/
abbrev compareFields : GroupByItem → GroupByItem → Ordering :=
  compareLex (compareOn GroupByItem.ctorIdx) <| compareLex (compareOn name) <|
    compareLex (compareOn links) <| compareLex (compareOn grain) <|
      compareLex (compareOn part) (compareOn subqueryLinks)

/-- Items are compared field by field, their kinds first. -/
theorem compare_eq_compareFields : (compare : GroupByItem → _) = compareFields := by
  funext left right
  cases left with
  | metric name links subqueryLinks =>
    cases right with
    | metric name' links' subqueryLinks' =>
      change (compare name name').then ((compare links links').then
        ((compare subqueryLinks subqueryLinks').then .eq)) = _
      rw [Ordering.then_eq]
      rfl
    | _ => rfl
  | _ => cases right <;> rfl

instance : Std.TransOrd GroupByItem := by
  rw [Std.TransOrd, compare_eq_compareFields]
  infer_instance

/-- Only equal items compare as equal. -/
instance : Std.LawfulEqOrd GroupByItem where
  eq_of_compare := by
    intro left right same
    rw [compare_eq_compareFields] at same
    obtain ⟨kinds, same⟩ := Ordering.then_eq_eq.mp same
    obtain ⟨names, same⟩ := Ordering.then_eq_eq.mp same
    obtain ⟨links, same⟩ := Ordering.then_eq_eq.mp same
    obtain ⟨grains, same⟩ := Ordering.then_eq_eq.mp same
    obtain ⟨parts, subqueries⟩ := Ordering.then_eq_eq.mp same
    replace names := Std.LawfulEqOrd.eq_of_compare names
    replace links := Std.LawfulEqOrd.eq_of_compare links
    replace grains := Std.LawfulEqOrd.eq_of_compare grains
    replace parts := Std.LawfulEqOrd.eq_of_compare parts
    replace subqueries := Std.LawfulEqOrd.eq_of_compare subqueries
    cases left <;> cases right <;>
      simp_all [name, GroupByItem.links, grain, part, GroupByItem.subqueryLinks, compareOn,
        GroupByItem.ctorIdx]

/-- Whether an item is the time of the metric, at some grain. -/
def isMetricTime : GroupByItem → Bool
  | timeDimension name _ _ _ => name == metricTimeName
  | _ => false

/-- The same element behind other links. -/
def withLinks (links : List String) : GroupByItem → GroupByItem
  | dimension name _ => dimension name links
  | timeDimension name _ grain part => timeDimension name links grain part
  | entity name _ => entity name links
  | metric name _ subqueryLinks => metric name links subqueryLinks

/-- The same element seen through one more join, whose entity comes first. -/
def behind (entity : String) (item : GroupByItem) : GroupByItem :=
  item.withLinks (entity :: item.links)

/-- The same element seen from behind its first join. -/
def afterFirstLink (item : GroupByItem) : GroupByItem := item.withLinks item.links.tail

/-- Links and element, without grain or date part. -/
def plainName (item : GroupByItem) : String := DunderedName.joined item.links item.name

/-- The segment that tells a time dimension from others of the same plain name. -/
def suffix? : GroupByItem → Option String
  | timeDimension _ _ _ (some part) => some (DunderedName.partSegment part)
  | timeDimension _ _ grain none => some grain.name
  | _ => none

/-- The dundered name of an item, with which it also appears as a column. -/
def qualifiedName (item : GroupByItem) : String :=
  match item.suffix? with
  | some suffix => item.plainName ++ DunderedName.separator ++ suffix
  | none => item.plainName

/-- Other links are the links afterwards. -/
@[simp]
theorem links_withLinks (links : List String) (item : GroupByItem) :
    (item.withLinks links).links = links := by
  cases item <;> rfl

/-- Links do not change the kind. -/
@[simp]
theorem kind_withLinks (links : List String) (item : GroupByItem) :
    (item.withLinks links).kind = item.kind := by
  cases item <;> rfl

/-- Links do not change the name. -/
@[simp]
theorem name_withLinks (links : List String) (item : GroupByItem) :
    (item.withLinks links).name = item.name := by
  cases item <;> rfl

/-- Links do not make an item the time of the metric. -/
@[simp]
theorem isMetricTime_withLinks (links : List String) (item : GroupByItem) :
    (item.withLinks links).isMetricTime = item.isMetricTime := by
  cases item <;> rfl

/-- Of links given twice the last ones count. -/
@[simp]
theorem withLinks_withLinks (links first : List String) (item : GroupByItem) :
    (item.withLinks first).withLinks links = item.withLinks links := by
  cases item <;> rfl

/-- Its own links leave an item as it is. -/
@[simp]
theorem withLinks_links (item : GroupByItem) : item.withLinks item.links = item := by
  cases item <;> rfl

/-- An item behind one more join has one more link. -/
@[simp]
theorem links_behind (entity : String) (item : GroupByItem) :
    (item.behind entity).links = entity :: item.links := by
  cases item <;> rfl

/-- Going behind a join and back leads to the same item. -/
@[simp]
theorem afterFirstLink_behind (entity : String) (item : GroupByItem) :
    (item.behind entity).afterFirstLink = item := by
  cases item <;> rfl

end GroupByItem

end MetricQuery

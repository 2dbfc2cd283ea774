import MetricQuery.Item.Pattern
import MetricQuery.Scope.Basic

/-! # Resolution of references

What a reference means in a scope. It is matched against everything that the node offers; a single
match must then be offered by every measure below the node.
-/

namespace MetricQuery

/-- What a reference turns out to mean. -/
inductive Outcome where
  /-- A single item that every measure offers. -/
  | resolved (item : GroupByItem)
  /-- Nothing, or something that some measure does not offer. -/
  | unresolved (suggestions : List String)
  /-- More than one item. -/
  | ambiguous (items : List GroupByItem)
  deriving DecidableEq

/-- The item an outcome gives, if it gives one. -/
def Outcome.item? : Outcome → Option GroupByItem
  | resolved item => some item
  | _ => none

/-- What a reference turns out to mean, with the elements behind it and the issues found. -/
structure Resolution where
  outcome : Outcome
  /-- The elements whose item was found. -/
  elements : List Element
  /-- The issues found, on paths from the node where it was looked up. -/
  issues : Issues
  deriving DecidableEq

namespace Resolution

/-- Whether two items are one time dimension or date part, perhaps at different grains. -/
def sameTime : GroupByItem → GroupByItem → Bool
  | .timeDimension name links _ part, .timeDimension name' links' _ part' =>
    name == name' && links == links' && part == part'
  | _, _ => false

/-- The first item that no other one undercuts in its grain. -/
def finest : GroupByItem → List GroupByItem → GroupByItem
  | best, [] => best
  | best, item :: rest =>
    match item.grain, best.grain with
    | some grain, some bestGrain => finest (if bestGrain ≤ grain then best else item) rest
    | _, _ => finest best rest

/-- Several matches that are one time dimension at different grains stand for the finest of them. -/
def preferFinest : List GroupByItem → List GroupByItem
  | first :: second :: rest =>
    if (second :: rest).all (sameTime first) then [finest first (second :: rest)]
    else first :: second :: rest
  | items => items

/-- A resolution that found no single item, for one reason. -/
def failed (outcome : Outcome) (issue : Issue) : Resolution := ⟨outcome, [], [issue]⟩

end Resolution

namespace Scope

/-- How the nearest misses among some items are offered to users. -/
def suggestions (pattern : ItemPattern) (limit : Nat) (items : List GroupByItem) : List String :=
  (pattern.nearMisses items limit).map GroupByItem.written

/-- Whether an item is among those of some elements. -/
def offers (elements : List Element) (item : GroupByItem) : Bool := elements.any (·.item == item)

/-- The measures below a node that do not offer an item, each with suggestions of its own. -/
def lacking (scope : Scope) (pattern : ItemPattern) (limit : Nat) (item : GroupByItem) :
    List (ReachedMeasure × List String) :=
  (scope.measures.filter fun reached => !offers reached.elements item).map fun reached =>
    (reached, suggestions pattern limit (Element.items reached.elements))

/-- What a reference means at a node. -/
def resolve (scope : Scope) (limit : Nat) (pattern : ItemPattern) (input : String) :
    Resolution :=
  match Resolution.preferFinest (pattern.matching scope.items) with
  | [] =>
    let offered := suggestions pattern limit scope.items
    .failed (.unresolved offered) (.error input [scope.step] (.noMatch offered))
  | [item] =>
    match scope.lacking pattern limit item with
    | [] => ⟨.resolved item, scope.elements.filter (·.item == item), []⟩
    | first :: rest =>
      let issues := (first :: rest).map fun missing =>
        Issue.error input missing.1.path (.noMatchForMeasure missing.1.measure missing.2)
      ⟨.unresolved first.2, [], issues⟩
  | items =>
    .failed (.ambiguous items)
      (.error input [scope.step] (.ambiguous (items.map GroupByItem.written)))

end Scope

end MetricQuery

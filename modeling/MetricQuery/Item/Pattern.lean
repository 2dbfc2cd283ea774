import MetricQuery.Item.Reference
import MetricQuery.Text.EditDistance

/-! # Item patterns

Which of the items in scope a reference can mean. Links match by their end, and among all items
whose links match so, only those with the fewest links stay; name, grain, date part and subquery
links are compared after that. For a reference without a match there is a ranking of near misses.
-/

namespace MetricQuery

/-- What a reference requires of the items that it can mean. -/
structure ItemPattern where
  /-- The kinds of items that it can mean, in ascending order. -/
  kinds : List ItemKind
  name : String
  /-- The links in which those of an item have to end. -/
  links : List String
  /-- The grain, if one is required. -/
  grain : Option Grain
  /-- The date part; `none` stands for items without one. -/
  part : Option DatePart
  /-- The links of the subquery, if they are compared. -/
  subqueryLinks : Option (List String)
  deriving DecidableEq

/-- A property of items that a pattern can compare. -/
inductive ItemField where
  | datePart
  | elementName
  | entityLinks
  | metricSubqueryEntityLinks
  | timeGranularity
  deriving DecidableEq

/-- The name of a field. -/
def ItemField.name : ItemField → String
  | datePart => "DatePart"
  | elementName => "ElementName"
  | entityLinks => "EntityLinks"
  | metricSubqueryEntityLinks => "MetricSubqueryEntityLinks"
  | timeGranularity => "TimeGranularity"

namespace ItemPattern

/-- The kinds of items that a reference can mean. A bare name leaves the kind open, and what is
called a dimension may be a time dimension. -/
def kindsOf (reference : ItemReference) : List ItemKind :=
  match reference.kind with
  | none => ItemKind.all
  | some .dimension =>
    if reference.grain.isNone && reference.part.isNone then [.dimension, .timeDimension]
    else [.timeDimension]
  | some kind => [kind]

/-- The pattern of a reference. A metric is reached through the last of the entities that it is
grouped by. -/
def ofReference (reference : ItemReference) : ItemPattern :=
  let isMetric := reference.kind == some .metric
  let groupByLinks := reference.groupByLinks.getD []
  { kinds := kindsOf reference
    name := reference.name
    links := if isMetric then groupByLinks.getLast?.toList else reference.links
    grain := reference.grain
    part := reference.part
    subqueryLinks := if isMetric then some groupByLinks else none }

/-- The properties that a pattern compares, in ascending order of their names. -/
def fields (pattern : ItemPattern) : List ItemField :=
  [.datePart, .elementName, .entityLinks] ++
    (if pattern.subqueryLinks.isSome then [.metricSubqueryEntityLinks] else []) ++
    (if pattern.grain.isSome then [.timeGranularity] else [])

/-- Links and element as one name, by which near misses are ranked. -/
def plainName (pattern : ItemPattern) : String := DunderedName.joined pattern.links pattern.name

/-- Whether a pattern is open to items of this kind. -/
def acceptsKind (pattern : ItemPattern) (item : GroupByItem) : Bool :=
  pattern.kinds.contains item.kind

/-- Whether the links of an item end in those of the pattern. -/
def acceptsLinks (pattern : ItemPattern) (item : GroupByItem) : Bool :=
  pattern.links.isSuffixOf item.links

/-- Whether an item agrees with the pattern in everything but kind and links. -/
def agrees (pattern : ItemPattern) (item : GroupByItem) : Bool :=
  item.name == pattern.name && item.part == pattern.part &&
    (pattern.grain.isNone || item.grain == pattern.grain) &&
    (pattern.subqueryLinks.isNone || item.subqueryLinks == pattern.subqueryLinks)

/-- The items of an accepted kind whose links match. -/
def reachable (pattern : ItemPattern) (items : List GroupByItem) : List GroupByItem :=
  items.filter fun item => pattern.acceptsKind item && pattern.acceptsLinks item

/-- The least number of links of the given items. -/
def fewestLinks (items : List GroupByItem) : Option Nat := (items.map (·.links.length)).min?

/-- The items that a reference means: of those with matching links, the ones with the fewest links,
whatever their names, and of these the ones that agree in all else. -/
def matching (pattern : ItemPattern) (items : List GroupByItem) : List GroupByItem :=
  let reached := pattern.reachable items
  let fewest := fewestLinks reached
  reached.filter fun item => fewest == some item.links.length && pattern.agrees item

/-- The finest grain at which a time dimension of this plain name and date part occurs. -/
def finestGrain (items : List (String × Option DatePart × Grain)) (name : String)
    (part : Option DatePart) : Option Grain :=
  (items.filterMap fun item =>
    if item.1 == name && item.2.1 == part then some item.2.2 else none).min?

/-- A near miss with its distance and its qualified name, by which near misses are ranked. -/
structure NearMiss where
  /-- How far the item is from what was asked for. -/
  distance : Nat
  /-- The qualified name of the item. -/
  name : String
  item : GroupByItem

/-- Whether a near miss is ranked no later than another one. -/
def NearMiss.ranksBefore (left right : NearMiss) : Bool :=
  (compare (Text.RankedName.mk left.distance left.name) ⟨right.distance, right.name⟩).isLE

/-- How far an item is from what was asked for: the edit distance of the plain names, and one more
for a grain and for a date part that differ. -/
def distance (pattern : ItemPattern) (item : GroupByItem) : Nat :=
  Text.editDistance pattern.plainName item.plainName +
    (if pattern.grain.isSome && item.grain != pattern.grain then 1 else 0) +
    (if item.part != pattern.part then 1 else 0)

/-- The items that can be offered as near misses. If no grain was asked for, each time dimension is
offered at its finest grain only. -/
def eligible (pattern : ItemPattern) (items : List GroupByItem) : List GroupByItem :=
  let times := items.filterMap fun item =>
    item.grain.map fun grain => (item.plainName, item.part, grain)
  items.filter fun item =>
    pattern.acceptsKind item &&
      match item.grain with
      | some grain =>
        pattern.grain.isSome || finestGrain times item.plainName item.part == some grain
      | none => true

/-- The `count` nearest misses, the nearest first, equal distances by qualified name. -/
def nearMisses (pattern : ItemPattern) (items : List GroupByItem) (count : Nat) :
    List GroupByItem :=
  let scored := (pattern.eligible items).map fun item =>
    NearMiss.mk (pattern.distance item) item.qualifiedName item
  ((sortBy NearMiss.ranksBefore scored).take count).map NearMiss.item

end ItemPattern

/-- The candidates that are allowed, in their order. -/
def GroupByItem.amongAllowed (allowed candidates : List GroupByItem) : List GroupByItem :=
  candidates.filter allowed.contains

end MetricQuery

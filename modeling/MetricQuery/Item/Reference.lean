import MetricQuery.Item.Error
import MetricQuery.Item.GroupByItem

/-! # Item references

What a user writes for an item, read into its parts: either a dundered name, which leaves the kind
open, or a chain of calls. A reference without a grain matches every grain, one without a date part
only items without one.
-/

namespace MetricQuery

/-- A reference to an item. -/
structure ItemReference where
  /-- The kind of the item; a bare name leaves it open. -/
  kind : Option ItemKind
  name : String
  links : List String
  grain : Option Grain
  part : Option DatePart
  /-- What a metric is grouped by. -/
  groupByLinks : Option (List String)
  /-- Whether the item sorts from the greatest to the least. -/
  descending : Option Bool
  deriving DecidableEq, Ord

namespace ItemReference

/-- The comparison of references field by field. -/
abbrev compareFields : ItemReference → ItemReference → Ordering :=
  compareLex (compareOn kind) <| compareLex (compareOn name) <|
    compareLex (compareOn links) <| compareLex (compareOn grain) <|
      compareLex (compareOn part) <| compareLex (compareOn groupByLinks) (compareOn descending)

/-- References are compared field by field. -/
theorem compare_eq_compareFields : (compare : ItemReference → _) = compareFields := by
  funext left right
  cases left with
  | mk kind name links grain part groupByLinks descending =>
    cases right with
    | mk kind' name' links' grain' part' groupByLinks' descending' =>
      change (compare kind kind').then ((compare name name').then ((compare links links').then
        ((compare grain grain').then ((compare part part').then
          ((compare groupByLinks groupByLinks').then
            ((compare descending descending').then .eq)))))) = _
      rw [Ordering.then_eq]
      rfl

instance : Std.TransOrd ItemReference := by
  rw [Std.TransOrd, compare_eq_compareFields]
  infer_instance

/-- Only equal references compare as equal. -/
instance : Std.LawfulEqOrd ItemReference where
  eq_of_compare := by
    intro left right same
    rw [compare_eq_compareFields] at same
    obtain ⟨kinds, same⟩ := Ordering.then_eq_eq.mp same
    obtain ⟨names, same⟩ := Ordering.then_eq_eq.mp same
    obtain ⟨links, same⟩ := Ordering.then_eq_eq.mp same
    obtain ⟨grains, same⟩ := Ordering.then_eq_eq.mp same
    obtain ⟨parts, same⟩ := Ordering.then_eq_eq.mp same
    obtain ⟨groupings, directions⟩ := Ordering.then_eq_eq.mp same
    replace kinds := Std.LawfulEqOrd.eq_of_compare kinds
    replace names := Std.LawfulEqOrd.eq_of_compare names
    replace links := Std.LawfulEqOrd.eq_of_compare links
    replace grains := Std.LawfulEqOrd.eq_of_compare grains
    replace parts := Std.LawfulEqOrd.eq_of_compare parts
    replace groupings := Std.LawfulEqOrd.eq_of_compare groupings
    replace directions := Std.LawfulEqOrd.eq_of_compare directions
    cases left
    cases right
    congr

/-- A reference that is a bare name. -/
def ofName (name : DunderedName) : ItemReference where
  kind := none
  name := name.element
  links := name.links
  grain := name.grain
  part := name.part
  groupByLinks := none
  descending := none

/-- Reads a dundered name as a reference. -/
def readName (input : String) : Except ItemError ItemReference :=
  match DunderedName.read input with
  | .error fault => .error (.name fault)
  | .ok name => .ok (ofName name)

/-- The value that an optional name stands for. -/
def resolveName {α : Type} (find : String → Option α) (fault : String → ItemFault) :
    Option String → Except ItemFault (Option α)
  | none => .ok none
  | some name =>
    match find name with
    | some value => .ok (some value)
    | none => .error (fault name)

/-- The grain of a reference: given as an argument, as the end of the name, or alike in both. -/
def settleGrain : Option Grain → Option Grain → Except ItemFault (Option Grain)
  | some given, some named =>
    if given = named then .ok (some given) else .error (.conflictingGrains given named)
  | given, named => .ok (given.or named)

/-- The kind of a reference: a dimension with a grain or a date part is a time dimension, and
entities and metrics have neither. -/
def settleKind (kind : ItemKind) (isTime : Bool) : Except ItemFault ItemKind :=
  match kind with
  | .dimension => .ok (if isTime then .timeDimension else .dimension)
  | .timeDimension => .ok .timeDimension
  | .entity => if isTime then .error .timeless else .ok .entity
  | .metric => if isTime then .error .timeless else .ok .metric

/-- The links that the single group-by item of a metric names. -/
def groupByLinksOf (input : String) (groupBy : List String) :
    Except ItemError (List String) :=
  match groupBy with
  | [target] =>
    match DunderedName.read target with
    | .error fault => .error (.name fault)
    | .ok name => .ok (name.links ++ [name.element])
  | _ => .error (.item input (.notOneGroupBy groupBy.length))

/-- Reads the names in a description, which was found in `input`. -/
def ofDescription (input : String) (description : ItemDescription) :
    Except ItemError ItemReference := do
  let meaning := fun {α : Type} (result : Except ItemFault α) =>
    result.mapError (ItemError.item input)
  let name ← (DunderedName.read description.name).mapError ItemError.name
  let given ← meaning (resolveName Grain.ofName? .unknownGrain description.grainName)
  let grain ← meaning (settleGrain given name.grain)
  let givenPart ← meaning (resolveName DatePart.ofName? .unknownPart description.partName)
  let part := givenPart.or name.part
  let kind ← meaning (settleKind description.kind (grain.isSome || part.isSome))
  let groupByLinks ←
    if kind = .metric then
      (groupByLinksOf input (description.groupBy.getD [])).map some
    else .ok none
  return {
    kind := some kind
    name := name.element
    links := description.entityPath ++ name.links
    grain
    part
    groupByLinks
    descending := description.descending }

/-- Reads a call, or calls in a chain, as the description of an item. -/
def readDescription (input : String) : Except ItemError ItemDescription := do
  let tokens ← (Token.scan input).mapError (ItemError.tokens input)
  let chain ← (Call.readChain tokens).mapError (ItemError.ofCallFault input)
  (ItemDescription.ofChain chain).mapError fun fault => .item input (.description fault)

/-- Reads calls as a reference. -/
def readCalls (input : String) : Except ItemError ItemReference :=
  (readDescription input).bind (ofDescription input)

/-- Whether a text is meant as a call. -/
def looksLikeCall (input : String) : Bool := input.toList.contains '('

/-- Reads a reference; whatever holds a parenthesis is meant as a call. -/
def read (input : String) : Except ItemError ItemReference :=
  if looksLikeCall input then readCalls input else readName input

/-- Reads a callout of a template, which has to be a call. -/
def readCallout (input : String) : Except ItemError ItemReference :=
  if looksLikeCall input then read input else .error (.notCall input)

/-- The reference that describes an item exactly. -/
def ofItem (item : GroupByItem) : ItemReference where
  kind := some item.kind
  name := item.name
  links := match item with
    | .metric _ _ _ => []
    | item => item.links
  grain := if item.part.isSome then none else item.grain
  part := item.part
  groupByLinks := item.subqueryLinks
  descending := none

/-- Links and element, without grain or date part. -/
def plainName (reference : ItemReference) : String :=
  DunderedName.joined reference.links reference.name

/-- A list of texts as an argument of a call. -/
def listArgument (texts : List String) : String := Text.listOf (texts.map Text.named)

/-- A reference without a kind as a bare name. -/
def nameText (reference : ItemReference) : String :=
  DunderedName.joinSegments (reference.links ++ [reference.name] ++
    (reference.grain.map Grain.name).toList ++
    (reference.part.map DunderedName.partSegment).toList)

/-- The arguments of the call that a reference is written as: the last link goes into the name, the
others into an argument of their own. -/
def arguments (reference : ItemReference) : List String :=
  let path := reference.links.dropLast
  let name := DunderedName.joinSegments (reference.links.getLast?.toList ++ [reference.name])
  [Text.named name] ++
    (reference.grain.map fun grain => Text.named grain.name).toList ++
    (reference.part.map fun part => "date_part_name=" ++ Text.named part.name).toList ++
    (if path.isEmpty then [] else ["entity_path=" ++ listArgument path]) ++
    (reference.groupByLinks.map fun links =>
      "group_by=" ++ listArgument [DunderedName.joinSegments links]).toList

/-- A reference in writing; the direction of sorting is left out. -/
def written (reference : ItemReference) : String :=
  match reference.kind with
  | none => reference.nameText
  | some kind =>
    let called :=
      if kind = .dimension ∧ reference.grain.isSome then ItemKind.timeDimension else kind
    called.name ++ "(" ++ String.intercalate ", " reference.arguments ++ ")"

end ItemReference

/-- How an item is offered to users: the call that describes it. -/
def GroupByItem.written (item : GroupByItem) : String := (ItemReference.ofItem item).written

end MetricQuery

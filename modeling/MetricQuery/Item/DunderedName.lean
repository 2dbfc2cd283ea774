import MetricQuery.Text.Basic
import MetricQuery.Text.Record
import MetricQuery.Time.DatePart

/-! # Dundered names

The names under which items appear in queries and as columns: entity links and element joined by
two underscores, behind them the grain or the date part of a time dimension, as in
`listing__created_at__month` or `metric_time__extract_dow`.
-/

namespace MetricQuery

/-- A dundered name in its parts. -/
structure DunderedName where
  /-- The entities that lead to the element. -/
  links : List String
  element : String
  /-- The grain named behind it. -/
  grain : Option Grain
  /-- The date part named behind it. -/
  part : Option DatePart
  deriving DecidableEq

namespace DunderedName

/-- What stands between the segments of a name. -/
def separator : String := "__"

/-- What the segment of a date part begins with. -/
def partMark : String := "extract_"

/-- Segments as one name. -/
def joinSegments (segments : List String) : String := String.intercalate separator segments

/-- The name of an element behind its links. -/
def joined (links : List String) (element : String) : String := joinSegments (links ++ [element])

/-- The segment that stands for a date part. -/
def partSegment (part : DatePart) : String := partMark ++ part.name

/-- Cuts at every separator, from the left. -/
def splitChars : List Char → List (List Char)
  | [] => [[]]
  | '_' :: '_' :: rest => [] :: splitChars rest
  | c :: rest =>
    match splitChars rest with
    | [] => [[c]]
    | segment :: segments => (c :: segment) :: segments

/-- The segments of a name. -/
def segments (name : String) : List String := (splitChars name.toList).map String.ofList

/-- The characters of a segment. -/
def isSegmentChar (c : Char) : Bool := c.isAlphanum || c == '_'

/-- Why a text is no dundered name. -/
inductive Fault where
  /-- Nothing is left of the text without blanks around it. -/
  | empty
  /-- Two separators meet, or one stands at an end. -/
  | emptySegment (name : String)
  /-- A segment has a character that names do not have. -/
  | badSegment (segment name : String)
  deriving DecidableEq

/-- What is wrong with a name, as messages say it. -/
def Fault.message : Fault → String
  | empty => "empty item name"
  | emptySegment name => Text.named name ++ " contains an empty name segment"
  | badSegment segment name =>
    Text.named segment ++ " in " ++ Text.named name ++ " is not a valid name segment"

/-- The date part that a segment stands for, if it stands for one. -/
def partOf? (segment : String) : Option DatePart :=
  if partMark.toList.isPrefixOf segment.toList then
    DatePart.ofName? (String.ofList (segment.toList.drop partMark.length))
  else none

/-- Takes a last segment with a meaning off, unless it is the only one; the segments are given from
the last to the first. -/
def takeSuffix {α : Type} (meaning : String → Option α) : List String → Option α × List String
  | last :: before :: rest =>
    match meaning last with
    | some value => (some value, before :: rest)
    | none => (none, last :: before :: rest)
  | segments => (none, segments)

/-- Interprets the segments of a name: the date part stands last, the grain before it, then the
element. The only segment is always the element. -/
def ofSegments (segments : List String) : DunderedName :=
  let (part, rest) := takeSuffix partOf? segments.reverse
  let (grain, rest) := takeSuffix Grain.ofName? rest
  { links := rest.tail.reverse, element := rest.headD "", grain, part }

/-- Reads a name, with blanks around it allowed. -/
def read (text : String) : Except Fault DunderedName :=
  let name := Text.trim text
  let segments := segments name
  if name.isEmpty then .error .empty
  else if segments.any (·.isEmpty) then .error (.emptySegment name)
  else match segments.find? (!·.toList.all isSegmentChar) with
    | some segment => .error (.badSegment segment name)
    | none => .ok (ofSegments segments)

/-- Links and element without what stands behind them. -/
def withoutSuffixes (name : DunderedName) : String := joined name.links name.element

end DunderedName

end MetricQuery

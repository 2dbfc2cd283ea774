import MetricQuery.Item.Description
import MetricQuery.Item.DunderedName

/-! # Errors in item references

Why a text refers to no item, or a filter template cannot be read. There are two sorts: the text is
malformed, or it is well formed but says something that no item can be.
-/

namespace MetricQuery

/-- What makes a well-formed item call meaningless. -/
inductive ItemFault where
  /-- The calls describe no item. -/
  | description (fault : ItemDescription.Fault)
  /-- A positional argument stands behind a named one. -/
  | positionalAfterKeyword
  /-- No grain has this name. -/
  | unknownGrain (name : String)
  /-- The grain given differs from the one that the name ends in. -/
  | conflictingGrains (given named : Grain)
  /-- No date part has this name. -/
  | unknownPart (name : String)
  /-- An entity or a metric comes with a grain or a date part. -/
  | timeless
  /-- A metric is grouped by a number of items other than one. -/
  | notOneGroupBy (count : Nat)
  deriving DecidableEq

/-- What is wrong with an item, as messages say it. -/
def ItemFault.message : ItemFault → String
  | description fault => fault.message
  | positionalAfterKeyword => Call.Fault.message .positionalAfterKeyword
  | unknownGrain name => "unknown time granularity " ++ Text.named name
  | conflictingGrains given named =>
    "conflicting granularities " ++ Text.named given.name ++ " and " ++ Text.named named.name
  | unknownPart name => "unknown date part " ++ Text.named name
  | timeless => "entities and metrics cannot have a granularity or date part"
  | notOneGroupBy count =>
    "a metric requires exactly one group_by item, got " ++ Text.Record.text count

/-- Why a filter template is not made of text and callouts; places are counted in bytes. -/
inductive TemplateFault where
  /-- A statement opens at this place. -/
  | statement (place : Nat)
  /-- The callout that opens at this place does not end. -/
  | unterminated (place : Nat)
  /-- The callout that opens at this place holds nothing but blanks. -/
  | emptyCallout (place : Nat)
  deriving DecidableEq

/-- The wording of a fault in front of the template. -/
def TemplateFault.message : TemplateFault → String
  | statement place =>
    "template statements are not supported (offset " ++ Text.Record.text place ++ ")"
  | unterminated place => "unterminated '\x7b\x7b' at offset " ++ Text.Record.text place
  | emptyCallout place => "empty callout at offset " ++ Text.Record.text place

/-- Why a text refers to no item, or a template cannot be read. -/
inductive ItemError where
  /-- A name is malformed. -/
  | name (fault : DunderedName.Fault)
  /-- A call cannot be cut into tokens. -/
  | tokens (input : String) (fault : Token.Fault)
  /-- Tokens are no chain of calls. -/
  | call (input : String) (fault : Call.Fault)
  /-- A well-formed call describes no item. -/
  | item (input : String) (fault : ItemFault)
  /-- A template is malformed. -/
  | template (template : String) (fault : TemplateFault)
  /-- A callout of a template is no call. -/
  | notCall (callout : String)
  deriving DecidableEq

namespace ItemError

/-- Whether a text is malformed, rather than well formed without a meaning. -/
def isMalformed : ItemError → Bool
  | name _ => true
  | tokens _ _ => true
  | call _ _ => true
  | item _ _ => false
  | template _ _ => true
  | notCall _ => false

/-- What happened, without the sort of error. -/
def detail : ItemError → String
  | name fault => fault.message
  | tokens input fault => "unable to parse " ++ Text.named input ++ ": " ++ fault.message
  | call input fault => "unable to parse " ++ Text.named input ++ ": " ++ fault.message
  | item input fault => "invalid item " ++ Text.named input ++ ": " ++ fault.message
  | template source fault => fault.message ++ " in: " ++ source
  | notCall callout =>
    Text.named callout ++
      " is not a call like Dimension('...') or TimeDimension('...', 'day')"

/-- The whole message of an error. -/
def message (error : ItemError) : String :=
  let sort := if error.isMalformed then "query item syntax error: " else "invalid query syntax: "
  sort ++ error.detail

/-- The error of a text whose tokens are no chain of calls. The order of arguments is a matter of
meaning; all else is a matter of form. -/
def ofCallFault (input : String) : Call.Fault → ItemError
  | .positionalAfterKeyword => item input .positionalAfterKeyword
  | fault => call input fault

end ItemError

end MetricQuery

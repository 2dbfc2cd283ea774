import MetricQuery.Item.Call
import MetricQuery.Item.Kind

/-! # Item descriptions

What a chain of calls says about an item, with names of grains and date parts still unread. The
first call gives the kind and the name; its further arguments and the chained calls add details, of
which the last one counts.
-/

namespace MetricQuery

/-- What a chain of calls says about an item. -/
structure ItemDescription where
  /-- The kind named by the first call. -/
  kind : ItemKind
  name : String
  /-- Entities in front of those that the name itself holds. -/
  entityPath : List String
  grainName : Option String
  partName : Option String
  /-- What a metric is grouped by. -/
  groupBy : Option (List String)
  /-- Whether the item sorts from the greatest to the least. -/
  descending : Option Bool
  deriving DecidableEq

namespace ItemDescription

/-- Why a chain of calls describes no item. -/
inductive Fault where
  /-- No kind of item has the name of the first call. -/
  | unknownKind (name : String)
  /-- The first call has more positional arguments than its kind takes. -/
  | tooManyPositional (kind : ItemKind) (limit : Nat)
  /-- The first call has no positional argument. -/
  | noName
  /-- An argument should be a text. -/
  | notText (argument : String) (given : Argument)
  /-- An argument should be a list. -/
  | notList (argument : String) (given : Argument)
  /-- An argument should be a truth value. -/
  | notFlag (argument : String) (given : Argument)
  /-- The first call has a named argument that its kind does not take. -/
  | unexpectedArgument (name : String) (kind : ItemKind)
  /-- A chained call has other arguments than a single positional one. -/
  | notOneArgument (method : String)
  /-- A chained call does not exist for the kind. -/
  | unsupportedMethod (method : String) (kind : ItemKind)
  deriving DecidableEq

/-- What is wrong with a description, as messages say it. -/
def Fault.message : Fault → String
  | unknownKind name =>
    "unknown item type " ++ Text.named name ++
      ", expected one of Dimension, TimeDimension, Entity, Metric"
  | tooManyPositional kind limit =>
    kind.name ++ " takes at most " ++ Text.Record.text limit ++ " positional arguments"
  | noName => "missing item name"
  | notText argument given =>
    Text.named argument ++ " must be a string, got " ++ Text.Record.text given
  | notList argument given =>
    Text.named argument ++ " must be a list of strings, got " ++ Text.Record.text given
  | notFlag argument given =>
    Text.named argument ++ " must be True or False, got " ++ Text.Record.text given
  | unexpectedArgument name kind =>
    "unexpected argument " ++ Text.named name ++ " for " ++ kind.name
  | notOneArgument method =>
    Text.named ("." ++ method ++ "()") ++ " takes exactly one positional argument"
  | unsupportedMethod method kind =>
    Text.named ("." ++ method ++ "()") ++ " is not supported on " ++ kind.name

/-- An argument that has to be a text. -/
def asText (argument : String) : Argument → Except Fault String
  | .text text => .ok text
  | given => .error (.notText argument given)

/-- An argument that has to be a list of texts. -/
def asList (argument : String) : Argument → Except Fault (List String)
  | .list texts => .ok texts
  | given => .error (.notList argument given)

/-- An argument that has to be true or false. -/
def asFlag (argument : String) : Argument → Except Fault Bool
  | .flag flag => .ok flag
  | given => .error (.notFlag argument given)

/-- How many positional arguments the call of a kind takes. -/
def positionalLimit : ItemKind → Nat
  | .dimension => 2
  | .timeDimension => 2
  | .metric => 2
  | .entity => 1

/-- Whether items of a kind may come with a grain or a date part. -/
def isTimeLike (kind : ItemKind) : Bool := kind == .dimension || kind == .timeDimension

/-- Reads the positional arguments of the first call. -/
def ofPositional (kind : ItemKind) (arguments : List Argument) :
    Except Fault ItemDescription := do
  let limit := positionalLimit kind
  if limit < arguments.length then throw (.tooManyPositional kind limit)
  match arguments with
  | [] => throw .noName
  | name :: rest =>
    let name ← asText "name" name
    let description : ItemDescription := ⟨kind, name, [], none, none, none, none⟩
    match rest with
    | [] => return description
    | second :: _ =>
      if kind = .metric then
        return { description with groupBy := some (← asList "group_by" second) }
      else
        return { description with grainName := some (← asText "time_granularity_name" second) }

/-- Adds a named argument of the first call. -/
def addKeyword (description : ItemDescription) (argument : String × Argument) :
    Except Fault ItemDescription := do
  let (name, value) := argument
  let kind := description.kind
  if name = "entity_path" ∧ kind ≠ .metric then
    return { description with entityPath := ← asList name value }
  else if name = "time_granularity_name" ∧ isTimeLike kind then
    return { description with grainName := some (← asText name value) }
  else if name = "date_part_name" ∧ isTimeLike kind then
    return { description with partName := some (← asText name value) }
  else if name = "group_by" ∧ kind = .metric then
    return { description with groupBy := some (← asList name value) }
  else if name = "descending" then
    return { description with descending := some (← asFlag name value) }
  else throw (.unexpectedArgument name kind)

/-- Adds what a chained call says. -/
def addMethod (description : ItemDescription) (call : Call) : Except Fault ItemDescription := do
  let kind := description.kind
  match call.keyword, call.positional with
  | [], [value] =>
    if call.name = "grain" ∧ isTimeLike kind then
      return { description with grainName := some (← asText "grain" value) }
    else if call.name = "date_part" ∧ isTimeLike kind then
      return { description with partName := some (← asText "date_part" value) }
    else if call.name = "descending" then
      return { description with descending := some (← asFlag "descending" value) }
    else throw (.unsupportedMethod call.name kind)
  | _, _ => throw (.notOneArgument call.name)

/-- What a chain of calls says about an item. -/
def ofChain (chain : CallChain) : Except Fault ItemDescription :=
  match ItemKind.ofName? chain.head.name with
  | none => .error (.unknownKind chain.head.name)
  | some kind => do
    let description ← ofPositional kind chain.head.positional
    let description ← chain.head.keyword.foldlM addKeyword description
    chain.tail.foldlM addMethod description

end ItemDescription

end MetricQuery

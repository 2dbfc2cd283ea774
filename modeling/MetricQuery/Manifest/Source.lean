import MetricQuery.Json.Basic
import MetricQuery.Yaml.Basic

/-! # Notations of a manifest

What the decoding of a manifest asks of the notation it is written in. In JSON a record is an object
or an array of its fields in order, and an alternative is its name or an object of one member. In
YAML a record is a mapping, every scalar is a text where a text is asked for, and a scalar that is
left out stands for an empty collection.
-/

namespace MetricQuery.Manifest

/-- What holds for a field of a record. -/
inductive Presence where
  /-- The field has to be there. -/
  | required
  /-- The field may be `null`, and an object may leave it out. -/
  | optional
  /-- The field may be left out, in an array if no field follows. -/
  | defaulted
  deriving DecidableEq

/-- Whether a field may be left out of an object. -/
def Presence.omittable : Presence → Bool
  | required => false
  | optional => true
  | defaulted => true

/-- The fields of a record, in order. -/
abbrev Shape : Type := List (String × Presence)

/-- Pairs the fields with the items of an array; what is missing at the end has to be defaulted. -/
def fieldsOfArray {ν : Type} : Shape → List ν → Option (List (Option ν))
  | [], [] => some []
  | [], _ :: _ => none
  | _ :: shape, item :: items => (fieldsOfArray shape items).map (some item :: ·)
  | (_, presence) :: shape, [] =>
    if presence = .defaulted then (fieldsOfArray shape []).map (none :: ·) else none

/-- Finds each field among the members of an object, which must not repeat and must be known. -/
def fieldsOfObject {ν : Type} (shape : Shape) (members : List (String × ν)) :
    Option (List (Option ν)) :=
  let names := members.map Prod.fst
  if names.all (fun name => shape.any (·.1 == name)) && names.eraseDups.length == names.length then
    shape.mapM fun field =>
      match members.lookup field.1 with
      | some value => some (some value)
      | none => if field.2.omittable then some none else none
  else none

/-- The values of a notation that a manifest can be written in. -/
class Source (ν : Type) where
  text? : ν → Option String
  /-- Whether a value says that an optional field has none. -/
  isNull : ν → Bool
  items? : ν → Option (List ν)
  /-- The fields of a record. -/
  fields? : Shape → ν → Option (List (Option ν))
  /-- The name of an alternative. -/
  choice? : ν → Option String
  /-- The value where any value may stand. -/
  value? : ν → Option Json

/-- The fields of a record that is written as an object or as an array. -/
def fieldsOfJson? (shape : Shape) : Json → Option (List (Option Json))
  | .object members => fieldsOfObject shape members
  | .array items => fieldsOfArray shape items
  | _ => none

/-- The name of an alternative: a text, or an object of one member of that name that is `null`. -/
def choiceOfJson? : Json → Option String
  | .text name => some name
  | .object [(name, .null)] => some name
  | _ => none

instance : Source Json where
  text? := Json.text?
  isNull
    | .null => true
    | _ => false
  items? := Json.array?
  fields? := fieldsOfJson?
  choice? := choiceOfJson?
  value? := some

/-- The text of a scalar. -/
def textOfYaml? : Yaml → Option String
  | .scalar _ text => some text
  | _ => none

instance : Source Yaml where
  text? := textOfYaml?
  isNull
    | .scalar true word => Yaml.nullWords.contains word
    | _ => false
  items?
    | .sequence items => some items
    | .scalar true "" => some []
    | _ => none
  fields? shape
    | .mapping members => fieldsOfObject shape members
    | .scalar true "" => fieldsOfObject shape []
    | _ => none
  choice? := textOfYaml?
  value? := Yaml.value?

end MetricQuery.Manifest

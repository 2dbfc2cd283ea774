import MetricQuery.Json.Number

/-! # JSON values

The data in which a semantic manifest is written. An object keeps its members in the order of the
text, repeats included, since some records refuse a repeated field and others take the last one.
-/

namespace MetricQuery

/-- A JSON value. -/
inductive Json where
  | null
  | bool (flag : Bool)
  | number (number : Number)
  | text (text : String)
  | array (items : List Json)
  | object (members : List (String × Json))

namespace Json

/-- The text that a value is, if it is one. -/
def text? : Json → Option String
  | text value => some value
  | _ => none

/-- The members of an array. -/
def array? : Json → Option (List Json)
  | array items => some items
  | _ => none

/-- The last value of each name, in the order of the last occurrences. -/
def lastOfEach : List (String × Json) → List (String × Json)
  | [] => []
  | member :: rest =>
    if rest.any (·.1 == member.1) then lastOfEach rest else member :: lastOfEach rest

/-- The value of a member of an object, the last one if the name repeats. -/
def member? (name : String) : Json → Option Json
  | object members => members.reverse.lookup name
  | _ => none

end Json

end MetricQuery

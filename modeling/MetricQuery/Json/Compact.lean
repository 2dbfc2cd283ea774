import MetricQuery.Collection.Basic
import MetricQuery.Json.Basic

/-! # Compact JSON

One-line JSON without spaces, the members of an object in ascending order of their names.
-/

namespace MetricQuery

namespace Json

/-- Two hexadecimal digits. -/
def twoHexDigits (code : Nat) : String :=
  String.ofList [Nat.digitChar (code / 16), Nat.digitChar (code % 16)]

/-- One character inside a JSON text; only quotes, backslashes and controls are escaped. -/
def escapedChar (c : Char) : String :=
  match c with
  | '"' => "\\\""
  | '\\' => "\\\\"
  | '\x08' => "\\b"
  | '\x0c' => "\\f"
  | '\n' => "\\n"
  | '\r' => "\\r"
  | '\t' => "\\t"
  | c => if c.toNat < 0x20 then "\\u00" ++ twoHexDigits c.toNat else c.toString

/-- A text between double quotes. -/
def quotedText (text : String) : String :=
  "\"" ++ String.join (text.toList.map escapedChar) ++ "\""

mutual

/-- A value in compact form. -/
def compact : Json → String
  | null => "null"
  | bool flag => if flag then "true" else "false"
  | number value => value.text
  | text value => quotedText value
  | array items => "[" ++ String.intercalate "," (compactItems items) ++ "]"
  | object members =>
    let ordered := sortBy (fun left right => left.1 ≤ right.1) (compactMembers members)
    "\x7b" ++ String.intercalate "," (ordered.map Prod.snd) ++ "\x7d"

/-- The members of an array, each in compact form. -/
def compactItems : List Json → List String
  | [] => []
  | item :: rest => compact item :: compactItems rest

/-- The members of an object, their values in compact form. -/
def compactMembers : List (String × Json) → List (String × String)
  | [] => []
  | (name, value) :: rest =>
    (name, quotedText name ++ ":" ++ compact value) :: compactMembers rest

end

end Json

end MetricQuery

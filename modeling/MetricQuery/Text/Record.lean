import MetricQuery.Text.Unprintable

/-! # Values in messages

A text appears in messages between double quotes, with everything escaped that would hide: the quote
and the backslash, the usual controls by letter, and each further character without a shape of its
own by its code point in hexadecimal. Values of the domain appear in a one-line form: a record as
`Name { field: value, .. }`, an alternative as `Name(value, ..)`, a list in brackets and a set in
braces.
-/

namespace MetricQuery.Text

/-! ## Quoted texts -/

/-- One character inside double quotes. -/
def escaped (c : Char) : String :=
  match c with
  | '\x00' => "\\0"
  | '\t' => "\\t"
  | '\n' => "\\n"
  | '\r' => "\\r"
  | '"' => "\\\""
  | '\\' => "\\\\"
  | c =>
    if isUnprintable c then
      "\\u\x7b" ++ String.ofList (Nat.toDigits 16 c.toNat) ++ "\x7d"
    else c.toString

/-- A text between double quotes. -/
def quoted (text : String) : String :=
  "\"" ++ String.join (text.toList.map escaped) ++ "\""

/-- A text between single quotes, nothing escaped: the form in which messages name things. -/
def named (text : String) : String := "'" ++ text ++ "'"

/-! ## Records -/

/-- Types whose values messages show in record form. -/
class Record (α : Type) where
  /-- The record form of a value. -/
  text : α → String

/-- A record with named fields, given with their texts. -/
def recordOf (name : String) (fields : List (String × String)) : String :=
  let shown := fields.map fun field => field.1 ++ ": " ++ field.2
  name ++ " \x7b " ++ String.intercalate ", " shown ++ " \x7d"

/-- An alternative that carries values, given with their texts. -/
def variantOf (name : String) (values : List String) : String :=
  name ++ "(" ++ String.intercalate ", " values ++ ")"

/-- A list of texts in brackets. -/
def listOf (values : List String) : String := "[" ++ String.intercalate ", " values ++ "]"

/-- A set of texts in braces. -/
def setOf (values : List String) : String :=
  "\x7b" ++ String.intercalate ", " values ++ "\x7d"

instance : Record String := ⟨quoted⟩

instance : Record Nat := ⟨fun number => String.ofList (Nat.toDigits 10 number)⟩

instance : Record Bool := ⟨fun flag => if flag then "true" else "false"⟩

/-- A name as a record of one field. -/
def nameRecord (type name : String) : String := recordOf type [("element_name", Record.text name)]

instance {α : Type} [Record α] : Record (Option α) where
  text
    | none => "None"
    | some value => variantOf "Some" [Record.text value]

instance {α : Type} [Record α] : Record (List α) where
  text values := listOf (values.map Record.text)

end MetricQuery.Text

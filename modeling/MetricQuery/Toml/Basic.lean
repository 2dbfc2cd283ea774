/-! # TOML values

The values of a TOML text. A table remembers how it came to be, since that decides whether later
lines may add to it.
-/

namespace MetricQuery

/-- How a table came to be. -/
inductive Toml.Origin where
  /-- A header names it. -/
  | header
  /-- A header names a table below it. -/
  | implied
  /-- A key with points leads through it. -/
  | dotted
  /-- It is a value in braces. -/
  | inline
  deriving DecidableEq

/-- A TOML value. Of a float and of a date or time it is only known that it is one. -/
inductive Toml where
  | integer (value : Int)
  | float
  | boolean (value : Bool)
  | text (value : String)
  | moment
  | array (items : List Toml)
  | table (origin : Toml.Origin) (members : List (String × Toml))
  /-- The tables that headers in double brackets start under one name. -/
  | tables (elements : List (List (String × Toml)))

namespace Toml

/-- The values of a table by their keys. -/
abbrev Members : Type := List (String × Toml)

/-- Gives the value of a key another value. -/
def Members.replace (members : Members) (name : String) (value : Toml) : Members :=
  members.map fun member => if member.1 == name then (name, value) else member

end Toml

end MetricQuery

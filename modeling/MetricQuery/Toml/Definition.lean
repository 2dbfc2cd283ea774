import MetricQuery.Toml.Basic

/-! # Definitions in a TOML text

What the headers and the entries of a TOML text define, one after the other. Nothing is defined
twice: no key has two values, no table two headers, and a key with points adds only to tables that
other such keys opened.
-/

namespace MetricQuery.Toml

/-- Changes the last of several tables. -/
def changeLast (change : Members → Option Members) (elements : List Members) :
    Option (List Members) :=
  match elements.getLast? with
  | none => none
  | some last => (change last).map fun changed => elements.dropLast ++ [changed]

/-- Adds a value under a path of keys. The tables between are opened or were opened by other keys;
a table that only a header below it implies may be passed through, but not added to. -/
def define (value : Toml) : List String → Members → Option Members
  | [], _ => none
  | [name], members =>
    if (members.lookup name).isSome then none else some (members ++ [(name, value)])
  | name :: path, members =>
    match members.lookup name with
    | none =>
      (define value path []).map fun inner => members ++ [(name, table .dotted inner)]
    | some (table origin inner) =>
      if origin = .dotted ∨ (origin = .implied ∧ 1 < path.length) then
        (define value path inner).map fun inner => members.replace name (table origin inner)
      else none
    | some (tables elements) =>
      if path.length = 1 then none
      else (changeLast (define value path) elements).map fun elements =>
        members.replace name (tables elements)
    | some _ => none

/-- Starts the table that a header names. It may have been implied before, but not more. -/
def start (members : Members) (name : String) : Option Members :=
  match members.lookup name with
  | none => some (members ++ [(name, table .header [])])
  | some (table .implied inner) => some (members.replace name (table .header inner))
  | some _ => none

/-- Starts one more of the tables that headers in double brackets name. -/
def startElement (members : Members) (name : String) : Option Members :=
  match members.lookup name with
  | none => some (members ++ [(name, tables [[]])])
  | some (tables elements) => some (members.replace name (tables (elements ++ [[]])))
  | some _ => none

/-- Follows the path of a header, of which the last key is treated by `last`. Tables that are not
there are implied; of several tables of one name the last is meant. -/
def follow (last : Members → String → Option Members) : List String → Members → Option Members
  | [], _ => none
  | [name], members => last members name
  | name :: path, members =>
    match members.lookup name with
    | none => (follow last path []).map fun inner => members ++ [(name, table .implied inner)]
    | some (table origin inner) =>
      if origin = .inline then none
      else (follow last path inner).map fun inner => members.replace name (table origin inner)
    | some (tables elements) =>
      (changeLast (follow last path) elements).map fun elements =>
        members.replace name (tables elements)
    | some _ => none

/-- Changes the table that a header names. -/
def changeAt (change : Members → Option Members) : List String → Members → Option Members
  | [], members => change members
  | name :: path, members =>
    match members.lookup name with
    | some (table origin inner) =>
      (changeAt change path inner).map fun inner => members.replace name (table origin inner)
    | some (tables elements) =>
      (changeLast (changeAt change path) elements).map fun elements =>
        members.replace name (tables elements)
    | _ => none

/-- A line, or several, of a TOML text that says something. -/
inductive Statement where
  /-- The entries that follow belong to this table. -/
  | header (path : List String)
  /-- The entries that follow belong to one more table of this name. -/
  | elementHeader (path : List String)
  /-- The value of a key. -/
  | entry (path : List String) (value : Toml)

/-- Carries statements out one after the other, from the table whose header was read last. -/
def carryOut (current : List String) (members : Members) : List Statement → Option Members
  | [] => some members
  | .header path :: rest =>
    match follow start path members with
    | none => none
    | some members => carryOut path members rest
  | .elementHeader path :: rest =>
    match follow startElement path members with
    | none => none
    | some members => carryOut path members rest
  | .entry path value :: rest =>
    match changeAt (define value path) current members with
    | none => none
    | some members => carryOut current members rest

/-- The table that entries in braces make up. -/
def inlineTable? (entries : List (List String × Toml)) : Option Toml :=
  (entries.foldlM (fun members entry => define entry.2 entry.1 members) []).map (table .inline)

end MetricQuery.Toml

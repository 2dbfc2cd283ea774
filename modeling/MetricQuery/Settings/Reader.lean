import MetricQuery.Settings.Basic
import MetricQuery.Toml.Reader

/-! # Reading settings

A settings text, written in TOML, overrides the standard settings key by key. Keys and sections that
have no meaning here are passed over; a key that has one must hold a value of its type. A section
may also be written as an array of its values in order.
-/

namespace MetricQuery.Settings

/-- The values of a section, by the names of its keys; `none` if the value can be no section. A date
or time is a section that sets nothing. -/
def sectionOf? (names : List String) : Toml → Option (List (Option Toml))
  | .table _ members => some (names.map fun name => members.lookup name)
  | .array items => some ((List.range names.length).map fun index => items[index]?)
  | .tables elements =>
    some ((List.range names.length).map fun index => elements[index]?.map (Toml.table .header))
  | .moment => some (names.map fun _ => none)
  | _ => none

/-- A section that may be left out. -/
def sectionIn? (members : Toml.Members) (name : String) (keys : List String) :
    Option (List (Option Toml)) :=
  match members.lookup name with
  | none => some (keys.map fun _ => none)
  | some value => sectionOf? keys value

/-- A value in the reading of `decode`, or the standard one if nothing is set. -/
def valueOr {α : Type} (standard : α) (decode : Toml → Option α) : Option Toml → Option α
  | none => some standard
  | some value => decode value

/-- An integer that counts something. -/
def asCount : Toml → Option Nat
  | .integer value => if 0 ≤ value then some value.toNat else none
  | _ => none

def asFlag : Toml → Option Bool
  | .boolean value => some value
  | _ => none

def asText : Toml → Option String
  | .text value => some value
  | _ => none

/-- The settings that the sections of a text give. -/
def ofMembers? (members : Toml.Members) : Option Settings := do
  let base := standard
  let [suggestions, hops] ←
    sectionIn? members "resolution" ["max_suggestions", "max_entity_hops"] | none
  let [size] ← sectionIn? members "parser" ["descriptor_cache_size"] | none
  let [share, cteStem, subqueryStem] ← sectionIn? members "sql"
    ["use_ctes_for_common_nodes", "cte_alias_prefix", "subquery_alias_prefix"] | none
  return {
    resolution := {
      maxSuggestions := ← valueOr base.resolution.maxSuggestions asCount suggestions
      maxHops := ← valueOr base.resolution.maxHops asCount hops }
    references := { memoSize := ← valueOr base.references.memoSize asCount size }
    sql := {
      shareRepeats := ← valueOr base.sql.shareRepeats asFlag share
      cteStem := ← valueOr base.sql.cteStem asText cteStem
      subqueryStem := ← valueOr base.sql.subqueryStem asText subqueryStem } }

/-- Reads settings from their text. -/
def read (source : String) : Option Settings := (Toml.read source).bind ofMembers?

end MetricQuery.Settings

/-! # Settings

The choices that a deployment makes: how many suggestions a message lists, how far joins reach, how
many parsed references are kept, and how the generated SQL names and shares its subqueries.
-/

namespace MetricQuery

/-- Settings for finding the items that references mean. -/
structure ResolutionSettings where
  /-- How many suggestions are listed for an item that cannot be found. -/
  maxSuggestions : Nat
  /-- How many joins may lie between a measure and an item. -/
  maxHops : Nat
  deriving DecidableEq

/-- Settings for reading references. -/
structure ReferenceSettings where
  /-- How many parsed references are kept. -/
  memoSize : Nat
  deriving DecidableEq

/-- Settings for the generated SQL. -/
structure SqlSettings where
  /-- Whether a repeated part of a plan becomes a common table expression. -/
  shareRepeats : Bool
  /-- What the names of common table expressions begin with. -/
  cteStem : String
  /-- What the names of subqueries begin with. -/
  subqueryStem : String
  deriving DecidableEq

/-- All settings. -/
structure Settings where
  resolution : ResolutionSettings
  references : ReferenceSettings
  sql : SqlSettings
  deriving DecidableEq

namespace Settings

/-- The settings of a deployment that chooses nothing. -/
def standard : Settings where
  resolution := { maxSuggestions := 6, maxHops := 2 }
  references := { memoSize := 4096 }
  sql := { shareRepeats := true, cteStem := "cte", subqueryStem := "subq" }

end Settings

end MetricQuery

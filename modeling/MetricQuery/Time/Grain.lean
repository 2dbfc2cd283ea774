import MetricQuery.Text.Basic

/-! # Time grains

The lengths of time to which a time dimension can be truncated, from the finest to the coarsest.
-/

namespace MetricQuery

/-- A length of time to which a time dimension is truncated. -/
inductive Grain where
  | nanosecond
  | microsecond
  | millisecond
  | second
  | minute
  | hour
  | day
  | week
  | month
  | quarter
  | year
  deriving DecidableEq, Ord

namespace Grain

/-- Every grain, the finest first. -/
def all : List Grain :=
  [nanosecond, microsecond, millisecond, second, minute, hour, day, week, month, quarter, year]

/-- The name of a grain in manifests, references and SQL. -/
def name : Grain → String
  | nanosecond => "nanosecond"
  | microsecond => "microsecond"
  | millisecond => "millisecond"
  | second => "second"
  | minute => "minute"
  | hour => "hour"
  | day => "day"
  | week => "week"
  | month => "month"
  | quarter => "quarter"
  | year => "year"

/-- The grain of a name, in any case of its ASCII letters. -/
def ofName? (name : String) : Option Grain :=
  all.find? fun grain => grain.name == Text.lower name

/-- The grain with exactly this name. -/
def ofExactName? (name : String) : Option Grain := all.find? fun grain => grain.name == name

/-- The place of a grain in the order from finest to coarsest. -/
def rank (grain : Grain) : Nat := grain.ctorIdx

instance : LE Grain := ⟨fun left right => left.rank ≤ right.rank⟩

instance (left right : Grain) : Decidable (left ≤ right) :=
  inferInstanceAs (Decidable (left.rank ≤ right.rank))

instance : Std.TransOrd Grain := inferInstanceAs (Std.TransCmp (compareOn Grain.ctorIdx))

instance : Std.LawfulEqOrd Grain where
  eq_of_compare := by
    intro left right same
    cases left <;> cases right <;> first | rfl | exact nomatch same

instance : Min Grain := ⟨fun left right => if left ≤ right then left else right⟩

/-- The grains to which a column of this grain can be truncated, the finest first. -/
def coarserOrEqual (grain : Grain) : List Grain := all.filter (grain ≤ ·)

/-- The list of all grains leaves none out. -/
theorem mem_all (grain : Grain) : grain ∈ all := by cases grain <;> simp [all]

end Grain

end MetricQuery

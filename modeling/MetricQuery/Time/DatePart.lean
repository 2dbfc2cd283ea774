import MetricQuery.Time.Grain

/-! # Date parts

The numbers that can be extracted from a time dimension, such as the day of the week.
-/

namespace MetricQuery

/-- A number extracted from a time dimension. -/
inductive DatePart where
  | year
  | quarter
  | month
  | day
  | dayOfWeek
  | dayOfYear
  deriving DecidableEq, Ord

namespace DatePart

instance : Std.TransOrd DatePart := inferInstanceAs (Std.TransCmp (compareOn DatePart.ctorIdx))

instance : Std.LawfulEqOrd DatePart where
  eq_of_compare := by
    intro left right same
    cases left <;> cases right <;> first | rfl | exact nomatch same

/-- All parts of a date. -/
def all : List DatePart := [year, quarter, month, day, dayOfWeek, dayOfYear]

/-- The name of a date part in references and manifests. -/
def name : DatePart → String
  | year => "year"
  | quarter => "quarter"
  | month => "month"
  | day => "day"
  | dayOfWeek => "dow"
  | dayOfYear => "doy"

/-- The date part of a name, in any case of its ASCII letters. -/
def ofName? (name : String) : Option DatePart :=
  all.find? fun part => part.name == Text.lower name

/-- The part with exactly this name. -/
def ofExactName? (name : String) : Option DatePart := all.find? fun part => part.name == name

/-- The coarsest grain of a column from which the part can still be told. -/
def baseGrain : DatePart → Grain
  | year => .year
  | quarter => .quarter
  | month => .month
  | day => .day
  | dayOfWeek => .day
  | dayOfYear => .day

/-- Whether the part can be extracted from a column of the given grain. -/
def extractableFrom (part : DatePart) (grain : Grain) : Bool := grain ≤ part.baseGrain

/-- The list of all date parts leaves none out. -/
theorem mem_all (part : DatePart) : part ∈ all := by cases part <;> simp [all]

end DatePart

end MetricQuery

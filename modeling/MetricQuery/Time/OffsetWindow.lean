import MetricQuery.Text.Basic
import MetricQuery.Time.Grain

/-! # Offset windows

The shift of time that an input metric can carry, written as a count and a grain: `2 weeks`.
-/

namespace MetricQuery

/-- A shift by a number of grains. -/
structure OffsetWindow where
  count : Nat
  grain : Grain
  deriving DecidableEq

namespace OffsetWindow

/-- The counts that a window can hold lie below this bound. -/
def countBound : Nat := 0x100000000

/-- Reads a count: digits, possibly behind one plus sign, below the bound. -/
def readCount (text : String) : Option Nat :=
  let digits := match text.toList with
    | '+' :: rest => rest
    | whole => whole
  (Text.readDigits digits).filter (· < countBound)

/-- A unit without the plural ending that one or many may carry. -/
def singular (unit : String) : String :=
  match unit.toList.reverse with
  | 's' :: rest => String.ofList rest.reverse
  | _ => unit

/-- Reads a window: a count and a unit, with blanks around them. -/
def read (text : String) : Option OffsetWindow :=
  match Text.words text with
  | [count, unit] => do
    let count ← readCount count
    let grain ← Grain.ofName? (singular unit)
    return ⟨count, grain⟩
  | _ => none

end OffsetWindow

end MetricQuery

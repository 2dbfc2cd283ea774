import MetricQuery.Binary64.Rounding

/-! # Shortest decimals

The decimal with the fewest digits that rounds to a given binary number; among equally short ones
the nearest, and among two equally near ones the even one.
-/

namespace MetricQuery

/-- The decimal number `digits * 10 ^ power`. -/
structure Decimal where
  digits : Nat
  /-- The power of ten they are multiplied by. -/
  power : Int
  deriving DecidableEq

namespace Binary64

/-- A number and the ends of the interval of all that rounds to it, over one denominator. -/
structure Neighbourhood where
  low : Nat
  middle : Nat
  high : Nat
  /-- The denominator. -/
  unit : Nat
  /-- Whether the ends belong to the interval. -/
  isClosed : Bool

/-- The interval of a number. Below a power of two the neighbours lie half as far apart. -/
def neighbourhood (number : Binary64) : Neighbourhood :=
  let mantissa := 4 * number.mantissa
  let isNarrow := 2 * number.mantissa = mantissaBound ∧ leastExponent < number.exponent
  let scale := fun value => value <<< number.exponent.toNat
  { low := scale (if isNarrow then mantissa - 1 else mantissa - 2)
    middle := scale mantissa
    high := scale (mantissa + 2)
    unit := 4 <<< (-number.exponent).toNat
    isClosed := number.mantissa % 2 == 0 }

/-- A neighbourhood measured in steps of a power of ten. -/
def Neighbourhood.inSteps (around : Neighbourhood) (power : Int) : Neighbourhood :=
  let tens := Nat.pow 10 power.natAbs
  if 0 ≤ power then { around with unit := around.unit * tens }
  else { around with
    low := around.low * tens, middle := around.middle * tens, high := around.high * tens }

/-- Whether a whole number of units lies in the interval. -/
def Neighbourhood.contains (around : Neighbourhood) (steps : Nat) : Bool :=
  let value := steps * around.unit
  if around.isClosed then around.low ≤ value && value ≤ around.high
  else around.low < value && value < around.high

/-- The whole number of units in the interval that is nearest to the middle. -/
def Neighbourhood.nearestStep? (around : Neighbourhood) : Option Nat :=
  let below := around.middle / around.unit
  let above := below + 1
  match around.contains below, around.contains above with
  | false, false => none
  | true, false => some below
  | false, true => some above
  | true, true => some (roundQuotient around.middle around.unit)

/-- The power of ten of the leading digit of a number other than zero. -/
def leadingPower (number : Binary64) : Int :=
  let guess := ((number.mantissa.log2 : Int) + number.exponent) * 30103 / 100000
  let around := number.neighbourhood.inSteps (guess + 1)
  if around.unit ≤ around.middle then guess + 1 else guess

/-- Moves trailing zeros of the digits into the power; the length of the digits bounds them. -/
def trimZeros : Nat → Decimal → Decimal
  | bound + 1, decimal =>
    if decimal.digits % 10 = 0 then trimZeros bound ⟨decimal.digits / 10, decimal.power + 1⟩
    else decimal
  | 0, decimal => decimal

/-- Searches ever finer steps for one in the interval; after the last refinement the nearest step
is taken. -/
def searchSteps (around : Neighbourhood) : Nat → Int → Decimal
  | 0, power =>
    let steps := around.inSteps power
    ⟨roundQuotient steps.middle steps.unit, power⟩
  | refinements + 1, power =>
    match (around.inSteps power).nearestStep? with
    | some digits => ⟨digits, power⟩
    | none => searchSteps around refinements (power - 1)

/-- The shortest decimal of a number other than zero. Seventeen digits tell all numbers apart. -/
def shortest (number : Binary64) : Decimal :=
  trimZeros 17 (searchSteps number.neighbourhood 16 number.leadingPower)

end Binary64

end MetricQuery

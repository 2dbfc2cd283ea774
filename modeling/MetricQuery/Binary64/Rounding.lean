/-! # Binary floating-point numbers

The non-negative numbers that a double-precision float can hold, and the rounding of a fraction to
the nearest of them, ties to the even neighbour. Products and quotients are taken exactly and then
rounded once; a number beyond the largest one has no rounding.
-/

namespace MetricQuery

/-- The number `mantissa * 2 ^ exponent`. -/
structure Binary64 where
  /-- The significant bits, at most 53. -/
  mantissa : Nat
  /-- The power of two they are multiplied by. -/
  exponent : Int
  deriving DecidableEq

namespace Binary64

/-- The first number with more than 53 bits. -/
def mantissaBound : Nat := 0x20000000000000

/-- The least exponent, that of the smallest numbers. -/
def leastExponent : Int := -1074

/-- The greatest exponent, that of the largest numbers. -/
def greatestExponent : Int := 971

/-- The number zero. -/
def zero : Binary64 := ⟨0, leastExponent⟩

/-- Whether a number is zero. -/
def isZero (number : Binary64) : Bool := number.mantissa == 0

/-- The nearest integer to a quotient, the even one if two are equally near. -/
def roundQuotient (num den : Nat) : Nat :=
  let quotient := num / den
  let twice := 2 * (num % den)
  if twice < den then quotient
  else if den < twice then quotient + 1
  else if quotient % 2 = 0 then quotient else quotient + 1

/-- A fraction divided by a power of two, as numerator and denominator. -/
def shiftedFraction (num den : Nat) (exponent : Int) : Nat × Nat :=
  if 0 ≤ exponent then (num, den <<< exponent.toNat) else (num <<< exponent.natAbs, den)

/-- The exponent at which a fraction has a whole part of 53 bits, or the least one if the fraction
is too small for that. -/
def exponentOf (num den : Nat) : Int :=
  let guess := max leastExponent ((num.log2 : Int) - den.log2 - 53)
  let (scaled, unit) := shiftedFraction num den guess
  if scaled / unit < mantissaBound then guess else guess + 1

/-- The nearest number to a fraction, if the fraction does not lie beyond the largest one. -/
def nearest? (num den : Nat) : Option Binary64 :=
  let exponent := exponentOf num den
  let (scaled, unit) := shiftedFraction num den exponent
  let mantissa := roundQuotient scaled unit
  let rounded : Binary64 :=
    if mantissa < mantissaBound then ⟨mantissa, exponent⟩ else ⟨mantissa / 2, exponent + 1⟩
  if rounded.exponent ≤ greatestExponent then some rounded else none

/-- The number without its sign as a numerator over a denominator, a power of two. -/
def fraction (number : Binary64) : Nat × Nat :=
  if 0 ≤ number.exponent then (number.mantissa <<< number.exponent.toNat, 1)
  else (number.mantissa, 1 <<< number.exponent.natAbs)

/-- The product, rounded. -/
def times? (left right : Binary64) : Option Binary64 :=
  nearest? (left.fraction.1 * right.fraction.1) (left.fraction.2 * right.fraction.2)

/-- The quotient, rounded. -/
def over? (left right : Binary64) : Option Binary64 :=
  nearest? (left.fraction.1 * right.fraction.2) (left.fraction.2 * right.fraction.1)

/-- The powers of ten up to this one are below the largest number. -/
def greatestTen : Nat := 308

/-- A power of ten up to the greatest, rounded. -/
def tenTo (power : Nat) : Binary64 := (nearest? (Nat.pow 10 power) 1).getD zero

/-- The number `digits * 10 ^ power`, rounded once. A number with more than 400 places on either
side of the point is beyond the largest one, or rounds to zero. -/
def ofDecimal? (digits : Nat) (power : Int) : Option Binary64 :=
  let magnitude := power + (Nat.toDigits 10 digits).length
  if digits = 0 ∨ magnitude < -400 then some zero
  else if 400 < magnitude then none
  else if 0 ≤ power then nearest? (digits * Nat.pow 10 power.toNat) 1
  else nearest? digits (Nat.pow 10 power.natAbs)

end Binary64

end MetricQuery

import MetricQuery.Binary64.Shortest
import MetricQuery.Text.Basic

/-! # JSON numbers

A number is an integer that fits 64 bits, with or without a sign, or else a float. An integer is
written in decimal digits. A float is written with the fewest digits that identify it: positionally
from 0.00001 on and below 10 000 000 000 000 000, with a point and a digit behind it, otherwise with
an exponent that shows its sign.
-/

namespace MetricQuery

/-- A number of a JSON text. -/
inductive Number where
  | integer (value : Int)
  | float (isNegative : Bool) (magnitude : Binary64)
  deriving DecidableEq

namespace Number

/-- An integer as a number. -/
def ofInt (value : Int) : Number := integer value

/-- A number as a natural number, if it is one written without a fraction or an exponent. -/
def toNat? : Number → Option Nat
  | integer value => if 0 ≤ value then some value.toNat else none
  | float _ _ => none

/-- The integers without a sign lie below this bound. -/
def integerBound : Nat := 0x10000000000000000

/-- The least integer with a sign. -/
def leastInteger : Int := -0x8000000000000000

/-! ## Reading -/

/-- Appends digits to a number as long as it stays below the bound; the digits that do not fit are
left. -/
def appendDigits (total : Nat) : List Char → Nat × List Char
  | [] => (total, [])
  | c :: rest =>
    let longer := 10 * total + Text.digitValue c
    if longer < integerBound then appendDigits longer rest else (total, c :: rest)

/-- Divides by the greatest power of ten as often as asked for, or until nothing is left. -/
def scaleDown : Nat → Binary64 → Binary64
  | 0, value => value
  | times + 1, value =>
    if value.isZero then value
    else scaleDown times ((value.over? (.tenTo Binary64.greatestTen)).getD .zero)

/-- A number times a power of ten, rounded after each step: by the power itself, or first by the
greatest power of ten, as often as it takes. A number beyond the largest float is refused. -/
def scale? (value : Binary64) (power : Int) : Option Binary64 :=
  let times := (power.natAbs - 1) / Binary64.greatestTen
  let remaining := power.natAbs - times * Binary64.greatestTen
  if value.isZero then some value
  else if power < 0 then (scaleDown times value).over? (.tenTo remaining)
  else if times = 0 then value.times? (.tenTo remaining)
  else none

/-- Builds a float from its digits. Digits beyond those that fit 64 bits are dropped. -/
def floatOf? (isNegative : Bool) (whole fraction : List Char) (exponent : Int) : Option Number :=
  let (leading, dropped) := appendDigits 0 whole
  let (digits, unused) := appendDigits leading fraction
  let used := fraction.length - unused.length
  let power := exponent + dropped.length - used
  match Binary64.nearest? digits 1 with
  | none => none
  | some value => (scale? value power).map (float isNegative)

/-- Builds a number from its digits. Without a fraction and an exponent it is an integer if it fits;
minus zero does not. -/
def ofDigits? (isNegative : Bool) (whole fraction : List Char) (exponent : Option Int) :
    Option Number :=
  let value : Int := Text.ofDigits whole
  let signed := if isNegative then -value else value
  let isInteger := fraction.isEmpty && exponent.isNone && leastInteger ≤ signed &&
    signed < integerBound && !(isNegative && value == 0)
  if isInteger then some (integer signed) else floatOf? isNegative whole fraction (exponent.getD 0)

/-! ## Writing -/

/-- The decimal exponents of the leading digit from which on floats are written positionally. -/
def leastPositional : Int := -5

/-- The first decimal exponent of the leading digit at which floats are no longer written
positionally. -/
def positionalBound : Int := 16

/-- A run of zeros. -/
def zeros (count : Nat) : List Char := List.replicate count '0'

/-- Digits with a point, the leading one standing for its power of ten. -/
def positional (digits : List Char) (leading : Int) : List Char :=
  if leading < 0 then '0' :: '.' :: zeros (leading.natAbs - 1) ++ digits
  else
    let whole := leading.toNat + 1
    let behind := digits.drop whole
    digits.take whole ++ zeros (whole - digits.length) ++
      '.' :: (if behind.isEmpty then ['0'] else behind)

/-- Digits with an exponent; a point follows the first if there are more. -/
def scientific (digits : List Char) (leading : Int) : List Char :=
  let behind := digits.drop 1
  let point := if behind.isEmpty then [] else '.' :: behind
  digits.take 1 ++ point ++ 'e' :: (if leading < 0 then '-' else '+') ::
    Nat.toDigits 10 leading.natAbs

/-- A float without its sign. -/
def magnitudeText (magnitude : Binary64) : List Char :=
  if magnitude.isZero then ['0', '.', '0']
  else
    let decimal := magnitude.shortest
    let digits := Nat.toDigits 10 decimal.digits
    let leading := decimal.power + digits.length - 1
    if leastPositional ≤ leading ∧ leading < positionalBound then positional digits leading
    else scientific digits leading

/-- A number as documents write it. -/
def text : Number → String
  | integer value => (if value < 0 then "-" else "") ++ Text.decimal value.natAbs
  | float isNegative magnitude =>
    (if isNegative then "-" else "") ++ String.ofList (magnitudeText magnitude)

end Number

end MetricQuery

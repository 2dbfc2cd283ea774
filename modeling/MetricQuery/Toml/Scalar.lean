import MetricQuery.Binary64.Rounding
import MetricQuery.Text.Basic
import MetricQuery.Toml.Basic

/-! # Words in TOML

The values that are written without quotes and brackets: truth values, integers of 64 bits, floats,
dates and times.
-/

namespace MetricQuery.Toml

/-- The characters of such words. -/
def isWordChar (c : Char) : Bool :=
  c.isAlphanum || c == '_' || c == '+' || c == '-' || c == '.' || c == ':'

/-! ## Numbers -/

/-- Digits of a base, without the single underscores that may stand between two of them. -/
def plainDigits? (base : Nat) : List Char → Option (List Char)
  | [] => none
  | [c] => (Text.digitBelow? base c).map fun _ => [c]
  | c :: '_' :: rest =>
    match Text.digitBelow? base c with
    | none => none
    | some _ => (plainDigits? base rest).map (c :: ·)
  | c :: rest =>
    match Text.digitBelow? base c with
    | none => none
    | some _ => (plainDigits? base rest).map (c :: ·)

/-- The number that digits of a base denote, underscores between them allowed. -/
def readDigits (base : Nat) (chars : List Char) : Option Nat :=
  (plainDigits? base chars).bind (Text.ofDigitsIn? base)

/-- Decimal digits without a leading zero, underscores left out. -/
def wholeDigits? (chars : List Char) : Option (List Char) :=
  match chars with
  | '0' :: _ :: _ => none
  | chars => plainDigits? 10 chars

/-- Cuts an optional sign off; the flag says whether it is a minus. -/
def cutSign : List Char → Bool × List Char
  | '-' :: rest => (true, rest)
  | '+' :: rest => (false, rest)
  | chars => (false, chars)

/-- Reads an integer of 64 bits: decimal with an optional sign, or with the mark of its base. -/
def readInteger (word : List Char) : Option Int :=
  let value : Option Int := match word with
    | '0' :: 'x' :: digits => (readDigits 16 digits).map Int.ofNat
    | '0' :: 'o' :: digits => (readDigits 8 digits).map Int.ofNat
    | '0' :: 'b' :: digits => (readDigits 2 digits).map Int.ofNat
    | word =>
      let (isNegative, unsigned) := cutSign word
      (wholeDigits? unsigned).map fun digits =>
        let value : Int := Text.ofDigits digits
        if isNegative then -value else value
  value.filter fun value => -0x8000000000000000 ≤ value && value < 0x8000000000000000

/-- Reads the digits of an exponent, with an optional sign in front; no exponent is zero. -/
def readExponent (chars : List Char) : Option Int :=
  match chars with
  | [] => some 0
  | _ :: signed =>
    let (isNegative, unsigned) := cutSign signed
    (readDigits 10 unsigned).map fun value => if isNegative then -(value : Int) else value

/-- Whether a word is a float: digits with a fraction, an exponent or both, or a named one. Only a
number without a minus is refused for lying beyond the largest float. -/
def isFloat (word : List Char) : Bool :=
  let (isNegative, unsigned) := cutSign word
  if unsigned == "inf".toList || unsigned == "nan".toList then true
  else
    let isExponentMark := fun c => c == 'e' || c == 'E'
    let base := unsigned.takeWhile (!isExponentMark ·)
    let exponent := unsigned.dropWhile (!isExponentMark ·)
    let whole := base.takeWhile (· != '.')
    let fraction := base.dropWhile (· != '.')
    let fractionDigits := if fraction.isEmpty then some [] else plainDigits? 10 (fraction.drop 1)
    match wholeDigits? whole, fractionDigits, readExponent exponent with
    | some whole, some fraction, some power =>
      let digits := Text.ofDigits (whole ++ fraction)
      let isHeld := (Binary64.ofDecimal? digits (power - fraction.length)).isSome
      (isHeld || isNegative) && !(fraction.isEmpty && exponent.isEmpty)
    | _, _, _ => false

/-! ## Dates and times -/

/-- Reads two digits as a number between two bounds. -/
def readPair (least greatest : Nat) (a b : Char) : Option Nat :=
  (Text.readDigits [a, b]).filter fun value => least ≤ value && value ≤ greatest

/-- How many days a month has. -/
def daysOf (year month : Nat) : Nat :=
  if month == 2 then
    if year % 4 == 0 && (year % 100 != 0 || year % 400 == 0) then 29 else 28
  else if month == 4 || month == 6 || month == 9 || month == 11 then 30 else 31

/-- What follows a date. -/
def cutDate : List Char → Option (List Char)
  | a :: b :: c :: d :: '-' :: e :: f :: '-' :: g :: h :: rest => do
    let year ← Text.readDigits [a, b, c, d]
    let month ← readPair 1 12 e f
    let day ← readPair 1 31 g h
    if day ≤ daysOf year month then some rest else none
  | _ => none

/-- Drops a fraction of a second; a point alone stays. -/
def dropFraction : List Char → List Char
  | '.' :: c :: rest => if c.isDigit then rest.dropWhile Char.isDigit else '.' :: c :: rest
  | chars => chars

/-- What follows a time of day. -/
def cutTime : List Char → Option (List Char)
  | a :: b :: ':' :: c :: d :: ':' :: e :: f :: rest => do
    let _ ← readPair 0 23 a b
    let _ ← readPair 0 59 c d
    let _ ← readPair 0 60 e f
    some (dropFraction rest)
  | _ => none

/-- Whether nothing or a distance from universal time is left. -/
def isZone : List Char → Bool
  | [] => true
  | ['Z'] => true
  | ['z'] => true
  | [sign, a, b, ':', c, d] =>
    (sign == '+' || sign == '-') && (readPair 0 23 a b).isSome && (readPair 0 59 c d).isSome
  | _ => false

/-- Whether a word is a time of day with or without a zone. -/
def isZonedTime (word : List Char) : Bool := ((cutTime word).map isZone).getD false

/-- Whether a word is a date alone. -/
def isDate (word : List Char) : Bool := cutDate word == some []

/-- Whether a word is a time of day, or a date, with or without a time behind it. -/
def isMoment (word : List Char) : Bool :=
  cutTime word == some [] ||
    match cutDate word with
    | some [] => true
    | some (mark :: time) => (mark == 'T' || mark == 't') && isZonedTime time
    | none => false

/-! ## Any word -/

/-- The value of a word, if it is one. -/
def ofWord? (word : List Char) : Option Toml :=
  if word == "true".toList then some (.boolean true)
  else if word == "false".toList then some (.boolean false)
  else if isMoment word then some .moment
  else match readInteger word with
    | some value => some (.integer value)
    | none => if isFloat word then some .float else none

/-- Reads a word, and what follows it. A single space may stand between a date and a time. -/
def readWord (chars : List Char) : Option (Toml × List Char) :=
  let word := chars.takeWhile isWordChar
  let rest := chars.dropWhile isWordChar
  let time := (rest.drop 1).takeWhile isWordChar
  if isDate word && rest.head? == some ' ' && !time.isEmpty then
    if isZonedTime time then some (.moment, (rest.drop 1).dropWhile isWordChar) else none
  else (ofWord? word).map (·, rest)

end MetricQuery.Toml

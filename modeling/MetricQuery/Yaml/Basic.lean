import MetricQuery.Json.Basic
import MetricQuery.Text.Basic

/-! # YAML values

The nodes of a YAML text. A plain scalar, one without quotes, is a text in a place that asks for a
text; where any value may stand it is `null`, a truth value or a number if it looks like one.
-/

namespace MetricQuery

/-- A node of a YAML text. The name of a member is the text of a scalar. -/
inductive Yaml where
  | scalar (isPlain : Bool) (text : String)
  | sequence (items : List Yaml)
  | mapping (members : List (String × Yaml))

namespace Yaml

/-- The node that stands for nothing. -/
def empty : Yaml := scalar true ""

/-- The words that stand for null. -/
def nullWords : List String := ["", "null", "Null", "NULL", "~"]

/-- The words that stand for true. -/
def trueWords : List String := ["true", "True", "TRUE"]

/-- The words that stand for false. -/
def falseWords : List String := ["false", "False", "FALSE"]

/-- The words for the floats that no digits write. A missing value stands for them. -/
def infinityWords : List String :=
  [".inf", ".Inf", ".INF", "+.inf", "+.Inf", "+.INF", "-.inf", "-.Inf", "-.INF", ".nan", ".NaN",
    ".NAN"]

/-- Digits with a zero in front are no number. -/
def hasLeadingZero : List Char → Bool
  | '0' :: c :: rest => (c :: rest).all Char.isDigit
  | _ => false

/-- Reads an integer without its sign, in decimal or with the mark of its base. -/
def readMagnitude (chars : List Char) : Option Nat :=
  match chars with
  | '0' :: 'x' :: digits => Text.ofDigitsIn? 16 digits
  | '0' :: 'o' :: digits => Text.ofDigitsIn? 8 digits
  | '0' :: 'b' :: digits => Text.ofDigitsIn? 2 digits
  | digits => if hasLeadingZero digits then none else Text.ofDigitsIn? 10 digits

/-- Reads an integer in one of its notations. -/
def readInteger : List Char → Option Int
  | '-' :: rest => (readMagnitude rest).map fun value => -(value : Int)
  | '+' :: rest => (readMagnitude rest).map Int.ofNat
  | rest => (readMagnitude rest).map Int.ofNat

/-- Reads the digits of an exponent, with an optional sign in front. -/
def readExponent : List Char → Option Int
  | '-' :: digits => (Text.ofDigitsIn? 10 digits).map fun value => -(value : Int)
  | '+' :: digits => (Text.ofDigitsIn? 10 digits).map Int.ofNat
  | digits => (Text.ofDigitsIn? 10 digits).map Int.ofNat

/-- Reads a float without its sign: digits, of which some may stand behind a point, and an optional
exponent. A number beyond the largest float is none. -/
def readFloatMagnitude (chars : List Char) : Option Binary64 :=
  let whole := chars.takeWhile Char.isDigit
  let behindWhole := chars.dropWhile Char.isDigit
  let (fraction, behind) := match behindWhole with
    | '.' :: rest => (rest.takeWhile Char.isDigit, rest.dropWhile Char.isDigit)
    | rest => ([], rest)
  let exponent := match behind with
    | [] => some 0
    | 'e' :: rest => readExponent rest
    | 'E' :: rest => readExponent rest
    | _ => none
  match Text.ofDigitsIn? 10 (whole ++ fraction), exponent with
  | some digits, some exponent => Binary64.ofDecimal? digits (exponent - fraction.length)
  | _, _ => none

/-- Reads a number with a fraction or an exponent. -/
def readFloat : List Char → Option Number
  | '-' :: rest =>
    if hasLeadingZero rest then none else (readFloatMagnitude rest).map (.float true)
  | '+' :: rest =>
    if hasLeadingZero rest then none else (readFloatMagnitude rest).map (.float false)
  | rest => if hasLeadingZero rest then none else (readFloatMagnitude rest).map (.float false)

/-- The value of a plain scalar where any value may stand. An integer that fits 128 bits but not 64
is refused. -/
def plainValue? (word : String) : Option Json :=
  if nullWords.contains word || infinityWords.contains word then some .null
  else if trueWords.contains word then some (.bool true)
  else if falseWords.contains word then some (.bool false)
  else
    let asFloat := match readFloat word.toList with
      | some number => Json.number number
      | none => Json.text word
    match readInteger word.toList with
    | none => some asFloat
    | some value =>
      if Number.leastInteger ≤ value ∧ value < Number.integerBound then
        some (.number (.ofInt value))
      else if -0x80000000000000000000000000000000 ≤ value ∧
          value < 0x100000000000000000000000000000000 then none
      else some asFloat

mutual

/-- The value of a node where any value may stand. -/
def value? : Yaml → Option Json
  | scalar isPlain text => if isPlain then plainValue? text else some (.text text)
  | sequence items => (itemValues? items).map Json.array
  | mapping members => (memberValues? members).map Json.object

def itemValues? : List Yaml → Option (List Json)
  | [] => some []
  | item :: rest =>
    match value? item with
    | none => none
    | some value => (itemValues? rest).map (value :: ·)

def memberValues? : List (String × Yaml) → Option (List (String × Json))
  | [] => some []
  | (name, node) :: rest =>
    match value? node with
    | none => none
    | some value => (memberValues? rest).map ((name, value) :: ·)

end

end Yaml

end MetricQuery

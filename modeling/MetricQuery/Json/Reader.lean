import MetricQuery.Json.Basic
import MetricQuery.Text.Basic

/-! # Reading JSON

A reader for JSON texts as RFC 8259 describes them: only space, tab, line feed and carriage return
stand between tokens, control characters inside texts are refused, a code point beyond the basic
plane is escaped as a pair of surrogates, and nothing but blanks may follow the value. Arrays and
objects may be nested in each other up to a fixed depth.
-/

namespace MetricQuery.Json

/-- Drops the blanks that may stand between tokens. -/
def skipSpace (chars : List Char) : List Char :=
  chars.dropWhile fun c => c == ' ' || c == '\t' || c == '\n' || c == '\r'

/-- The characters that have a one-letter escape. -/
def shortEscape? : Char → Option Char
  | '"' => some '"'
  | '\\' => some '\\'
  | '/' => some '/'
  | 'b' => some '\x08'
  | 'f' => some '\x0c'
  | 'n' => some '\n'
  | 'r' => some '\r'
  | 't' => some '\t'
  | _ => none

/-- Reads a text from behind its opening quote, and what follows the closing one. -/
def readText : List Char → Option (List Char × List Char)
  | [] => none
  | '"' :: rest => some ([], rest)
  | '\\' :: 'u' :: a :: b :: c :: d :: rest =>
    match Text.ofDigitsIn? 16 [a, b, c, d] with
    | none => none
    | some unit =>
      if 0xd800 ≤ unit ∧ unit < 0xdc00 then
        match rest with
        | '\\' :: 'u' :: e :: f :: g :: h :: rest =>
          match Text.ofDigitsIn? 16 [e, f, g, h] with
          | none => none
          | some second =>
            if 0xdc00 ≤ second ∧ second < 0xe000 then
              let code := 0x10000 + 0x400 * (unit - 0xd800) + (second - 0xdc00)
              (readText rest).map fun read => (Char.ofNat code :: read.1, read.2)
            else none
        | _ => none
      else if 0xd800 ≤ unit ∧ unit < 0xe000 then none
      else (readText rest).map fun read => (Char.ofNat unit :: read.1, read.2)
  | '\\' :: letter :: rest =>
    match shortEscape? letter with
    | none => none
    | some c => (readText rest).map fun read => (c :: read.1, read.2)
  | c :: rest =>
    if c.toNat < 0x20 then none
    else (readText rest).map fun read => (c :: read.1, read.2)

/-- Reads the digits of an exponent, with an optional sign in front. -/
def readExponent (chars : List Char) : Option (Int × List Char) :=
  let (negative, chars) := match chars with
    | '-' :: rest => (true, rest)
    | '+' :: rest => (false, rest)
    | rest => (false, rest)
  let digits := chars.takeWhile Char.isDigit
  (Text.readDigits digits).map fun value =>
    (if negative then -(value : Int) else value, chars.dropWhile Char.isDigit)

/-- Reads a number: no leading zeros, a digit on both sides of a point. -/
def readNumber (chars : List Char) : Option (Number × List Char) := do
  let (negative, chars) := match chars with
    | '-' :: rest => (true, rest)
    | rest => (false, rest)
  let (whole, chars) ← match chars with
    | '0' :: rest => some (['0'], rest)
    | rest =>
      let digits := rest.takeWhile Char.isDigit
      if digits.isEmpty then none else some (digits, rest.dropWhile Char.isDigit)
  let (fraction, chars) ← match chars with
    | '.' :: rest =>
      let digits := rest.takeWhile Char.isDigit
      if digits.isEmpty then none else some (digits, rest.dropWhile Char.isDigit)
    | rest => some ([], rest)
  let (exponent, chars) ← match chars with
    | 'e' :: rest => (readExponent rest).map fun read => (some read.1, read.2)
    | 'E' :: rest => (readExponent rest).map fun read => (some read.1, read.2)
    | rest => some (none, rest)
  return (← Number.ofDigits? negative whole fraction exponent, chars)

/-- How deep arrays and objects may be nested. -/
def nestingLimit : Nat := 127

mutual

/-- Reads one value, in at most `bound` steps and with at most `levels` levels of nesting, and what
follows it. -/
def readValue : Nat → Nat → List Char → Option (Json × List Char)
  | 0, _, _ => none
  | bound + 1, levels, chars =>
    match skipSpace chars with
    | 'n' :: 'u' :: 'l' :: 'l' :: rest => some (null, rest)
    | 't' :: 'r' :: 'u' :: 'e' :: rest => some (bool true, rest)
    | 'f' :: 'a' :: 'l' :: 's' :: 'e' :: rest => some (bool false, rest)
    | '"' :: rest => (readText rest).map fun read => (text (String.ofList read.1), read.2)
    | '[' :: rest =>
      match levels, skipSpace rest with
      | 0, _ => none
      | _ + 1, ']' :: rest => some (array [], rest)
      | levels + 1, rest => (readItems bound levels rest).map fun read => (array read.1, read.2)
    | '{' :: rest =>
      match levels, skipSpace rest with
      | 0, _ => none
      | _ + 1, '}' :: rest => some (object [], rest)
      | levels + 1, rest => (readMembers bound levels rest).map fun read => (object read.1, read.2)
    | rest => (readNumber rest).map fun read => (number read.1, read.2)

/-- Reads the items of an array that holds at least one, with the closing bracket. -/
def readItems : Nat → Nat → List Char → Option (List Json × List Char)
  | 0, _, _ => none
  | bound + 1, levels, chars =>
    match readValue bound levels chars with
    | none => none
    | some (item, rest) =>
      match skipSpace rest with
      | ',' :: rest => (readItems bound levels rest).map fun read => (item :: read.1, read.2)
      | ']' :: rest => some ([item], rest)
      | _ => none

/-- Reads the members of an object that holds at least one, with the closing brace. -/
def readMembers : Nat → Nat → List Char → Option (List (String × Json) × List Char)
  | 0, _, _ => none
  | bound + 1, levels, chars =>
    match skipSpace chars with
    | '"' :: rest =>
      match readText rest with
      | none => none
      | some (name, rest) =>
        match skipSpace rest with
        | ':' :: rest =>
          match readValue bound levels rest with
          | none => none
          | some (value, rest) =>
            let member := (String.ofList name, value)
            match skipSpace rest with
            | ',' :: rest =>
              (readMembers bound levels rest).map fun read => (member :: read.1, read.2)
            | '}' :: rest => some ([member], rest)
            | _ => none
        | _ => none
    | _ => none

end

/-- Reads a text that holds one value. Every step of the reader but the innermost takes at least one
character, so twice the length of the text bounds the steps. -/
def read (source : String) : Option Json :=
  let chars := source.toList
  match readValue (2 * chars.length + 2) nestingLimit chars with
  | some (value, rest) => if (skipSpace rest).isEmpty then some value else none
  | none => none

end MetricQuery.Json

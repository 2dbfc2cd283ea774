/-! # Characters and numbers in texts

The characters that separate words, with the operations that see them; and digits, decimal ones as
numbers and back, hexadecimal ones as numbers and as the code points of characters.
-/

namespace MetricQuery.Text

/-! ## Blank characters -/

/-- The characters with the Unicode property White_Space, 25 in number. -/
def isBlank (c : Char) : Bool :=
  let code := c.toNat
  (0x09 ≤ code && code ≤ 0x0d) || code == 0x20 || code == 0x85 || code == 0xa0 ||
    code == 0x1680 || (0x2000 ≤ code && code ≤ 0x200a) || code == 0x2028 || code == 0x2029 ||
    code == 0x202f || code == 0x205f || code == 0x3000

/-- Drops the blanks at both ends. -/
def trimChars (chars : List Char) : List Char :=
  ((chars.dropWhile isBlank).reverse.dropWhile isBlank).reverse

/-- A text without the blanks at its two ends. -/
def trim (text : String) : String := String.ofList (trimChars text.toList)

/-- The longest stretches without blanks, in order; none of them is empty. -/
def words (text : String) : List String :=
  ((text.toList.splitOnP isBlank).filter (!·.isEmpty)).map String.ofList

/-- The number of bytes that a run of characters takes in UTF-8. -/
def byteLength : List Char → Nat
  | [] => 0
  | c :: rest => c.utf8Size + byteLength rest

/-- ASCII letters in lower case; every other character stays. -/
def lower (text : String) : String := String.ofList (text.toList.map Char.toLower)

/-! ## Decimal digits -/

/-- The value of an ASCII digit. -/
def digitValue (c : Char) : Nat := c.toNat - '0'.toNat

/-- The number that a run of digits denotes, most significant digit first. -/
def ofDigits (digits : List Char) : Nat :=
  digits.foldl (fun total c => 10 * total + digitValue c) 0

/-- Reads a text that holds at least one digit and nothing but digits. -/
def readDigits (digits : List Char) : Option Nat :=
  if !digits.isEmpty && digits.all Char.isDigit then some (ofDigits digits) else none

/-- A number in decimal digits, without leading zeros. -/
def decimal (number : Nat) : String := String.ofList (Nat.toDigits 10 number)

/-- Different numbers have different digits. -/
theorem decimal_inj {left right : Nat} (same : decimal left = decimal right) : left = right := by
  have digits : Nat.toDigits 10 left = Nat.toDigits 10 right := String.ofList_injective same
  calc left
      = Nat.ofDigitChars 10 (Nat.toDigits 10 left) 0 := Nat.ofDigitChars_ten_toDigits.symm
    _ = Nat.ofDigitChars 10 (Nat.toDigits 10 right) 0 := by rw [digits]
    _ = right := Nat.ofDigitChars_ten_toDigits

/-! ## Hexadecimal digits -/

/-- The value of a hexadecimal digit. -/
def hexDigit? (c : Char) : Option Nat :=
  if '0' ≤ c ∧ c ≤ '9' then some (c.toNat - '0'.toNat)
  else if 'a' ≤ c ∧ c ≤ 'f' then some (c.toNat - 'a'.toNat + 10)
  else if 'A' ≤ c ∧ c ≤ 'F' then some (c.toNat - 'A'.toNat + 10)
  else none

/-- The value of a digit of a base of at most sixteen. -/
def digitBelow? (base : Nat) (c : Char) : Option Nat := (hexDigit? c).filter (· < base)

/-- The number that digits of a base of at most sixteen denote, most significant digit first. -/
def ofDigitsIn? (base : Nat) (digits : List Char) : Option Nat :=
  if digits.isEmpty then none
  else digits.foldlM (fun total c => (digitBelow? base c).map (base * total + ·)) 0

/-- The character with a code point, if one has it; surrogates have none. -/
def charOfCode? (code : Nat) : Option Char :=
  if code < 0xd800 ∨ (0xe000 ≤ code ∧ code < 0x110000) then some (Char.ofNat code) else none

/-- The character whose code point hexadecimal digits give. -/
def charOfHex? (digits : List Char) : Option Char := (ofDigitsIn? 16 digits).bind charOfCode?

end MetricQuery.Text

import MetricQuery.Text.Basic

/-! # Texts in TOML

The four ways to quote a text: between single or double quotes, in one line or, tripled, in several.
Only double quotes know escapes. A line break is a line feed, with or without a carriage return in
front, and counts as a line feed in a text.
-/

namespace MetricQuery.Toml

/-- The blanks inside a line. -/
def isBlank (c : Char) : Bool := c == ' ' || c == '\t'

/-- Skips blanks. -/
def skipBlanks (chars : List Char) : List Char := chars.dropWhile isBlank

/-- The controls that may stand neither in a comment nor in a text. -/
def isControl (c : Char) : Bool := (c.toNat < 0x20 && c != '\t') || c.toNat == 0x7f

/-- Drops blanks and line breaks. -/
def skipBreaks : List Char → List Char
  | '\r' :: '\n' :: rest => skipBreaks rest
  | c :: rest => if c == '\n' || isBlank c then skipBreaks rest else c :: rest
  | [] => []

/-- What follows the line break in front, if there is one. -/
def cutBreak : List Char → Option (List Char)
  | '\n' :: rest => some rest
  | '\r' :: '\n' :: rest => some rest
  | _ => none

/-- The characters that have a one-letter escape. -/
def shortEscape? : Char → Option Char
  | 'b' => some '\x08'
  | 't' => some '\t'
  | 'n' => some '\n'
  | 'f' => some '\x0c'
  | 'r' => some '\r'
  | '"' => some '"'
  | '\\' => some '\\'
  | _ => none

/-- Puts a character in front of what was read behind it. -/
def prepend (c : Char) (read : Option (List Char × List Char)) : Option (List Char × List Char) :=
  read.map fun read => (c :: read.1, read.2)

/-- Reads a text of one line from behind its opening double quote, and what follows the closing
one. -/
def readBasic : List Char → Option (List Char × List Char)
  | [] => none
  | '"' :: rest => some ([], rest)
  | '\\' :: 'u' :: a :: b :: c :: d :: rest =>
    match Text.charOfHex? [a, b, c, d] with
    | none => none
    | some char => prepend char (readBasic rest)
  | '\\' :: 'U' :: a :: b :: c :: d :: e :: f :: g :: h :: rest =>
    match Text.charOfHex? [a, b, c, d, e, f, g, h] with
    | none => none
    | some char => prepend char (readBasic rest)
  | '\\' :: letter :: rest =>
    match shortEscape? letter with
    | none => none
    | some char => prepend char (readBasic rest)
  | c :: rest => if isControl c then none else prepend c (readBasic rest)

/-- Reads a text of one line from behind its opening single quote, and what follows the closing
one. -/
def readLiteral : List Char → Option (List Char × List Char)
  | [] => none
  | '\'' :: rest => some ([], rest)
  | c :: rest => if isControl c then none else prepend c (readLiteral rest)

/-- The end of a text of several lines, at three quotes or more: up to two of five belong to the
text. The quotes before the closing three, and what follows those. -/
def closeTriple (quote : Char) : List Char → Option (List Char × List Char)
  | a :: b :: c :: d :: e :: rest =>
    if a != quote || b != quote || c != quote then none
    else if d != quote then some ([], d :: e :: rest)
    else if e != quote then some ([quote], e :: rest)
    else some ([quote, quote], rest)
  | [a, b, c, d] =>
    if a != quote || b != quote || c != quote then none
    else if d != quote then some ([], [d])
    else some ([quote], [])
  | [a, b, c] => if a != quote || b != quote || c != quote then none else some ([], [])
  | _ => none

/-- Reads a text of several lines from behind its opening double quotes, and what follows the
closing ones. Behind a backslash at the end of a line, blanks and line breaks do not count; the flag
says that they are being passed over. Every step takes at least one character, so the length of the
text bounds the steps. -/
def readBasicLines : Nat → List Char → Option (List Char × List Char)
  | 0, _ => none
  | bound + 1, chars =>
    match closeTriple '"' chars with
    | some close => some close
    | none =>
      match chars with
      | [] => none
      | '\n' :: rest => prepend '\n' (readBasicLines bound rest)
      | '\r' :: '\n' :: rest => prepend '\n' (readBasicLines bound rest)
      | '\\' :: 'u' :: a :: b :: c :: d :: rest =>
        match Text.charOfHex? [a, b, c, d] with
        | none => none
        | some char => prepend char (readBasicLines bound rest)
      | '\\' :: 'U' :: a :: b :: c :: d :: e :: f :: g :: h :: rest =>
        match Text.charOfHex? [a, b, c, d, e, f, g, h] with
        | none => none
        | some char => prepend char (readBasicLines bound rest)
      | '\\' :: rest =>
        match cutBreak (skipBlanks rest), rest with
        | some behind, _ => readBasicLines bound (skipBreaks behind)
        | none, letter :: behind =>
          match shortEscape? letter with
          | none => none
          | some char => prepend char (readBasicLines bound behind)
        | none, [] => none
      | c :: rest => if isControl c then none else prepend c (readBasicLines bound rest)

/-- Reads a text of several lines from behind its opening single quotes, and what follows the
closing ones. -/
def readLiteralLines : Nat → List Char → Option (List Char × List Char)
  | 0, _ => none
  | bound + 1, chars =>
    match closeTriple '\'' chars with
    | some close => some close
    | none =>
      match chars with
      | [] => none
      | '\n' :: rest => prepend '\n' (readLiteralLines bound rest)
      | '\r' :: '\n' :: rest => prepend '\n' (readLiteralLines bound rest)
      | c :: rest => if isControl c then none else prepend c (readLiteralLines bound rest)

/-- Drops the line break in front, if there is one. -/
def dropBreak (chars : List Char) : List Char := (cutBreak chars).getD chars

/-- Reads a text in any of its four forms, and what follows it. -/
def readText (chars : List Char) : Option (List Char × List Char) :=
  match chars with
  | '"' :: '"' :: '"' :: rest => readBasicLines (rest.length + 1) (dropBreak rest)
  | '"' :: rest => readBasic rest
  | '\'' :: '\'' :: '\'' :: rest => readLiteralLines (rest.length + 1) (dropBreak rest)
  | '\'' :: rest => readLiteral rest
  | _ => none

end MetricQuery.Toml
